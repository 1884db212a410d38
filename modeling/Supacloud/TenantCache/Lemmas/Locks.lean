import Mathlib.Logic.Relation
import Supacloud.TenantCache.Registry
import Supacloud.Library.Table

/-! # 一手 -/

namespace Supacloud.TenantCache

open Library Call Registry List

/-! ## 呼び出しの役 -/

/-- `unreleased` は錠を待つか持つテナント、`inside` は錠を得ていること、`reserved` と `passed`
は枠の予約と空きを確かめ終えた予約、`verifies` は二度目の設定の読み取りを待つ項目、`uncounted`
は借り手を数えていない項目、`holds` は数えた借りの項目である。 -/
structure Profile where
  unreleased : Option Ref := none
  inside : Bool := false
  reserved : Bool := false
  passed : Bool := false
  verifies : Option EntryId := none
  uncounted : Option EntryId := none
  holds : Option EntryId := none

def Call.profile : Call → Profile
  | .acquire ref (.waiting _) => { unreleased := some ref }
  | .acquire ref (.evicting _ _) => { unreleased := some ref, inside := true, reserved := true }
  | .acquire ref (.evicted _) => { unreleased := some ref, inside := true, reserved := true, passed := true }
  | .acquire ref .evictFailed => { unreleased := some ref, inside := true, reserved := true }
  | .acquire ref (.creatingBackend _) => { unreleased := some ref, inside := true, reserved := true, passed := true }
  | .acquire ref (.verifying _ id) => { unreleased := some ref, inside := true, reserved := true, passed := true, verifies := some id }
  | .acquire ref (.installed id) => { unreleased := some ref, inside := true, uncounted := some id }
  | .acquire ref (.counted id) => { unreleased := some ref, inside := true, holds := some id }
  | .acquire _ (.unlocked id) => { holds := some id }
  | .acquire _ (.leased id) => { holds := some id }
  | .acquire _ .finished => {}
  | .acquire ref _ => { unreleased := some ref, inside := true }
  | .expirySweep _ id => { holds := some id }
  | _ => {}

def Call.cleared : Call → Option Ref
  | .acquire ref (.awaitingExisting _ _) | .acquire ref (.evicting _ _) | .acquire ref (.evicted _) | .acquire ref .evictFailed
  | .acquire ref (.creatingBackend _) | .acquire ref (.verifying _ _) => some ref
  | _ => none

def Call.plain : Call → Bool
  | .acquire _ (.waiting _) | .shutdownLocks _ => false
  | _ => true

def Profile.within (ref : Ref) : Profile := { unreleased := some ref, inside := true }

namespace Registry

def Unreleased (s : Registry) (c : CallId) (ref : Ref) : Prop := ∃ call, s.calls[c]? = some call ∧ call.profile.unreleased = some ref

end Registry

/-! ## 一手 -/

/-- 登録簿の一手。`G` は、引退した項目の借り手を数える手、錠を放す手、`close()` を呼ぶ手がありうることである。 -/
inductive Move (G : Prop) (s : Registry) : Registry → Prop where
  | tick (now : ℤ) : Move G s { s with now }
  | retire {ref id} (h : (ref, id) ∈ s.entries) : Move G s (s.retireEntry id)
  | goto {c a b} (hc : s.calls[c]? = some a) (hsame : a.profile = b.profile) (hplain : b.plain = true)
      (hclear : ∀ ref, b.cleared = some ref → s.entries.lookup ref = none) : Move G s (s.goto c b)
  | enter {c ref previous b} (hc : s.calls[c]? = some (.acquire ref (.waiting previous)))
      (hprev : previous.all s.lockReleased = true) (hb : b.profile = .within ref)
      (hplain : b.plain = true) (hclear : b.cleared = none) : Move G s (s.goto c b)
  | reserve {c ref a b} (hc : s.calls[c]? = some a) (ha : a.profile = .within ref)
      (hb : b.profile = { Profile.within ref with reserved := true, passed := b.profile.passed })
      (hclear : b.cleared = some ref) (hfree : s.entries.lookup ref = none)
      (hcap : b.profile.passed = true → s.entries.length + s.retired.length + s.creating + 1 ≤ s.options.maxTenants) :
      Move G s ({ s with creating := s.creating + 1 }.goto c b)
  | pass {c ref a b} (hc : s.calls[c]? = some a) (ha : a.profile = { Profile.within ref with reserved := true })
      (hb : b.profile = { Profile.within ref with reserved := true, passed := true }) (hclear : b.cleared = a.cleared)
      (hcap : s.entries.length + s.retired.length + s.creating ≤ s.options.maxTenants) : Move G s (s.goto c b)
  | unreserve {c ref a b} (hc : s.calls[c]? = some a)
      (ha : a.profile = { Profile.within ref with reserved := true, passed := a.profile.passed }) (hb : b.profile = .within ref)
      (hclear : b.cleared = none) : Move G s (s.unreserve.goto c b)
  | create {c ref fingerprint} (cleanup : Bool)
      (hc : s.calls[c]? = some (.acquire ref (.creatingBackend fingerprint))) : Move G s (s.backendCreated c ref fingerprint cleanup)
  | discard {c ref fingerprint id}
      (hc : s.calls[c]? = some (.acquire ref (.verifying fingerprint id))) : Move G s (s.discard c ref id)
  | install {c ref fingerprint id}
      (hc : s.calls[c]? = some (.acquire ref (.verifying fingerprint id))) : Move G s (s.install c ref id)
  | share {c ref id a b} (usedAt : TenantCacheEntry → ℤ) (hc : s.calls[c]? = some a)
      (ha : a.profile.holds = none) (hb : b.profile = { a.profile with holds := some id }) (hplain : b.plain = true)
      (hclear : b.cleared = none) (hmem : (ref, id) ∈ s.entries) :
      Move G s ((s.lease id usedAt).goto c b)
  | count {c ref id} (hc : s.calls[c]? = some (.acquire ref (.installed id))) (hG : G) :
      Move G s ((s.lease id fun _ => s.now).goto c (.acquire ref (.counted id)))
  | unlock {c ref a b} (hc : s.calls[c]? = some a) (ha : a.profile = { Profile.within ref with holds := a.profile.holds })
      (hb : b.profile = { holds := a.profile.holds }) (hplain : b.plain = true) (hclear : b.cleared = none) (hG : G) :
      Move G s ((s.unlock c ref).goto c b)
  | drop {c id a b} (hc : s.calls[c]? = some a) (ha : a.profile = { holds := some id }) (hb : b.profile = {})
      (hplain : b.plain = true) (hclear : b.cleared = none) : Move G s ((s.releaseEntry id).goto c b)
  | spawn {b} (hb : b.profile = {}) (hplain : b.plain = true) (hclear : b.cleared = none) : Move G s (s.spawn b)
  | shutdown : Move G s s.shutdown
  | register {ref} (h : s.shuttingDown = false) : Move G s (s.acquire ref)
  | callClose (id : EntryId) (hG : G) : Move G s (s.callClose id)
  | closeDone (id : EntryId) (ok : Bool) : Move G s (s.closeDone id ok)

def Moves (G : Prop) : Registry → Registry → Prop := Relation.ReflTransGen (Move G)

variable {s s' : Registry} {c c' : CallId} {a b : Call} {ref : Ref} {id : EntryId} {G : Prop}

theorem Moves.single (h : Move G s s') : Moves G s s' := Relation.ReflTransGen.single h

/-! ## 役の決まり -/

section Profile

attribute [local simp] Call.profile Call.cleared Call.building

theorem Call.plain_of_inside (h : b.profile.inside = true) : b.plain = true := by
  cases b with
  | acquire ref pc => cases pc <;> first | rfl | simp at h
  | _ => first | rfl | simp at h

theorem Call.cleared_profile (h : b.cleared = some ref) : b.profile.unreleased = some ref ∧ b.profile.inside = true := by
  cases b with
  | acquire ref' pc => cases pc <;> simp_all
  | _ => simp at h

theorem Call.passed_reserved (h : b.profile.passed = true) : b.profile.reserved = true := by
  cases b with
  | acquire ref pc => cases pc <;> simp_all
  | _ => simp at h

theorem Call.verifies_passed (h : b.profile.verifies = some id) : b.profile.passed = true ∧ b.building = false := by
  cases b with
  | acquire ref pc => cases pc <;> simp_all
  | _ => simp at h

theorem Call.building_passed (h : b.building = true) : b.profile.passed = true := by
  cases b with
  | acquire ref pc => cases pc <;> simp_all
  | _ => simp at h

end Profile

theorem lockReleased_profile (h : s.lockReleased c = true) : ∃ call, s.calls[c]? = some call ∧ call.profile.unreleased = none := by
  simp only [lockReleased] at h
  split at h
  · rename_i hc
    exact ⟨_, hc, rfl⟩
  · rename_i hc
    exact ⟨_, hc, rfl⟩
  · rename_i hc
    exact ⟨_, hc, rfl⟩
  · cases h

theorem not_unreleased_of_released (h : s.lockReleased c = true) : ¬ s.Unreleased c ref := by
  rintro ⟨call, hc, hu⟩
  obtain ⟨call', hc', hn⟩ := lockReleased_profile h
  rw [hc] at hc'
  cases hc'
  rw [hu] at hn
  cases hn

/-! ## テナントの錠 -/

structure LockInv (s : Registry) : Prop where
  chain : ∀ c c' ref, c < c' → s.Unreleased c ref → s.Unreleased c' ref →
    ∃ p, s.calls[c']? = some (.acquire ref (.waiting (some p))) ∧ s.Unreleased p ref ∧ c ≤ p
  last : ∀ ref l, s.tenantLocks.lookup ref = some l → s.Unreleased l ref ∧ ∀ c, s.Unreleased c ref → c ≤ l
  free : ∀ ref, s.tenantLocks.lookup ref = none → ∀ c, ¬ s.Unreleased c ref
  /-- `shutdown` の待つ錠は、まだ放していない呼び出しのすべてより後のものを含む。 -/
  snapshot : ∀ locks, .shutdownLocks locks ∈ s.calls → s.shuttingDown = true ∧
    ∀ c ref, s.Unreleased c ref → ∃ l ∈ locks, s.Unreleased l ref ∧ c ≤ l

def Registry.Inside (s : Registry) (c : CallId) (ref : Ref) : Prop :=
  ∃ call, s.calls[c]? = some call ∧ call.profile.unreleased = some ref ∧ call.profile.inside = true

theorem Registry.Inside.unreleased (h : s.Inside c ref) : s.Unreleased c ref := by
  obtain ⟨call, hc, hu, _⟩ := h
  exact ⟨call, hc, hu⟩

theorem LockInv.first (h : LockInv s) (hin : s.Inside c ref) (hu : s.Unreleased c' ref) : c ≤ c' := by
  by_contra hlt
  obtain ⟨p, hw, _⟩ := h.chain c' c ref (Nat.lt_of_not_le hlt) hu hin.unreleased
  obtain ⟨call, hc, _, hi⟩ := hin
  rw [hw] at hc
  cases hc
  cases hi

theorem LockInv.exclusive (h : LockInv s) (hin : s.Inside c ref) (hin' : s.Inside c' ref) : c = c' :=
  Nat.le_antisymm (h.first hin hin'.unreleased) (h.first hin' hin.unreleased)

/-! ## 錠を変えない一手 -/

theorem unreleased_set (hc : s.calls[c]? = some a) (hcas : s'.calls = s.calls.set c b)
    (hsame : b.profile.unreleased = a.profile.unreleased) {c₀} : s'.Unreleased c₀ ref ↔ s.Unreleased c₀ ref := by
  simp only [Unreleased, hcas, getElem?_set_of hc]
  by_cases h : c = c₀
  · subst h
    simp [hc, hsame]
  · simp [h]

theorem LockInv.turn (h : LockInv s) (hc : s.calls[c]? = some a) (hcas : s'.calls = s.calls.set c b)
    (hsame : b.profile.unreleased = a.profile.unreleased) (hplain : b.plain = true)
    (hwa : ∀ ref p, a = .acquire ref (.waiting (some p)) → s.lockReleased p = true)
    (hlos : s'.tenantLocks = s.tenantLocks) (hdo : s'.shuttingDown = s.shuttingDown) : LockInv s' where
  chain := by
    intro c₀ c₁ ref hlt hu hu'
    rw [unreleased_set hc hcas hsame] at hu hu'
    obtain ⟨p, hw, hp, hle⟩ := h.chain c₀ c₁ ref hlt hu hu'
    by_cases heq : c = c₁
    · subst heq
      rw [hc] at hw
      cases hw
      exact absurd hp (not_unreleased_of_released (hwa ref p rfl))
    · grind [unreleased_set, getElem?_set_of]
  last := by
    intro ref l hl
    rw [hlos] at hl
    obtain ⟨hu, hmax⟩ := h.last ref l hl
    exact ⟨(unreleased_set hc hcas hsame).mpr hu, fun c₀ h₀ => hmax c₀ ((unreleased_set hc hcas hsame).mp h₀)⟩
  free := by
    intro ref hl c₀ hu
    rw [hlos] at hl
    exact h.free ref hl c₀ ((unreleased_set hc hcas hsame).mp hu)
  snapshot := by
    intro locks hmem
    rw [hcas] at hmem
    rcases mem_or_eq_of_mem_set hmem with hmem | rfl
    · obtain ⟨hd, hall⟩ := h.snapshot locks hmem
      refine ⟨hdo.trans hd, fun c₀ ref hu => ?_⟩
      obtain ⟨l, hl, hul, hle⟩ := hall c₀ ref ((unreleased_set hc hcas hsame).mp hu)
      exact ⟨l, hl, (unreleased_set hc hcas hsame).mpr hul, hle⟩
    · cases hplain

theorem LockInv.still (h : LockInv s) (hcas : s'.calls = s.calls) (hlos : s'.tenantLocks = s.tenantLocks)
    (hdo : s'.shuttingDown = s.shuttingDown) : LockInv s' := by
  have hun : ∀ c ref, s'.Unreleased c ref ↔ s.Unreleased c ref := by
    intro c ref
    simp [Unreleased, hcas]
  constructor
  · grind [h.chain]
  · simpa [hlos, hun] using h.last
  · simpa [hlos, hun] using h.free
  · simpa [hcas, hdo, hun] using h.snapshot

/-! ## 並ぶ呼び出し -/

theorem unreleased_concat (hcas : s'.calls = s.calls ++ [b]) {c₀} :
    s'.Unreleased c₀ ref ↔ s.Unreleased c₀ ref ∨ (c₀ = s.calls.length ∧ b.profile.unreleased = some ref) := by
  simp only [Unreleased, hcas]
  rcases Nat.lt_trichotomy c₀ s.calls.length with hlt | rfl | hgt
  · simp [getElem?_append_left hlt, Nat.ne_of_lt hlt]
  · simp
  · grind

theorem Registry.Unreleased.lt (h : s.Unreleased c ref) : c < s.calls.length := by
  obtain ⟨call, hc, _⟩ := h
  exact (List.getElem?_eq_some_iff.mp hc).1

theorem getElem?_concat_of (hcas : s'.calls = s.calls ++ [b]) (hc : s.calls[c]? = some a) : s'.calls[c]? = some a := by
  rw [hcas, List.getElem?_append_left (List.getElem?_eq_some_iff.mp hc).1, hc]

theorem LockInv.spawn (h : LockInv s) (hcas : s'.calls = s.calls ++ [b]) (hb : b.profile.unreleased = none)
    (hlos : s'.tenantLocks = s.tenantLocks) (hdo : s.shuttingDown = true → s'.shuttingDown = true)
    (hsn : ∀ locks, b = .shutdownLocks locks → s'.shuttingDown = true ∧
      ∀ c ref, s.Unreleased c ref → ∃ l ∈ locks, s.Unreleased l ref ∧ c ≤ l) : LockInv s' := by
  have hun : ∀ c ref, s'.Unreleased c ref ↔ s.Unreleased c ref := by
    intro c ref
    rw [unreleased_concat hcas]
    simp [hb]
  constructor
  · grind [h.chain, getElem?_concat_of]
  · simpa [hlos, hun] using h.last
  · simpa [hlos, hun] using h.free
  · grind [h.snapshot]

theorem acquire_eq (hdo : s.shuttingDown = false) : s.acquire ref =
    { s.spawn (.acquire ref (.waiting (s.tenantLocks.lookup ref))) with tenantLocks := s.tenantLocks.insert ref s.calls.length } :=
  if_neg (by simp [hdo])

theorem LockInv.register (h : LockInv s) (hdo : s.shuttingDown = false) : LockInv (s.acquire ref) := by
  have hs : s.acquire ref = _ := acquire_eq hdo
  have hcas : (s.acquire ref).calls = s.calls ++ [.acquire ref (.waiting (s.tenantLocks.lookup ref))] := by
    rw [hs]
    rfl
  have hlos : (s.acquire ref).tenantLocks = s.tenantLocks.insert ref s.calls.length := by rw [hs]
  have hun : ∀ c r, (s.acquire ref).Unreleased c r ↔ s.Unreleased c r ∨ (c = s.calls.length ∧ r = ref) := by
    intro c r
    rw [unreleased_concat hcas]
    simp [profile, eq_comm]
  constructor
  · intro c c' r hlt hu hu'
    rw [hun] at hu hu'
    have hold : s.Unreleased c r := by
      rcases hu with hu | ⟨rfl, _⟩
      · exact hu
      · rcases hu' with hu' | ⟨rfl, _⟩
        · exact absurd hu'.lt (Nat.not_lt.mpr (Nat.le_of_lt hlt))
        · exact absurd hlt (Nat.lt_irrefl _)
    rcases hu' with hu' | ⟨rfl, rfl⟩
    · grind [h.chain, getElem?_concat_of]
    · cases hl : s.tenantLocks.lookup r with
      | none => exact absurd hold (h.free r hl c)
      | some l => grind [h.last]
  · intro r l hl
    rw [hlos] at hl
    by_cases hr : r = ref
    · subst hr
      rw [AList.lookup_insert] at hl
      cases hl
      refine ⟨(hun _ _).mpr (Or.inr ⟨rfl, rfl⟩), fun c hu => ?_⟩
      rcases (hun _ _).mp hu with hu | ⟨rfl, _⟩
      · exact Nat.le_of_lt hu.lt
      · exact Nat.le_refl _
    · rw [AList.lookup_insert_ne hr] at hl
      obtain ⟨hul, hmax⟩ := h.last r l hl
      refine ⟨(hun _ _).mpr (Or.inl hul), fun c hu => ?_⟩
      rcases (hun _ _).mp hu with hu | ⟨_, heq⟩
      · exact hmax c hu
      · exact absurd heq hr
  · intro r hl c hu
    rw [hlos] at hl
    by_cases hr : r = ref
    · subst hr
      rw [AList.lookup_insert] at hl
      cases hl
    · rw [AList.lookup_insert_ne hr] at hl
      rcases (hun _ _).mp hu with hu | ⟨_, heq⟩
      · exact h.free r hl c hu
      · exact absurd heq hr
  · grind [h.snapshot]

/-! ## 錠を放す -/

theorem unreleased_unlock (hc : s.calls[c]? = some a) (hcas : s'.calls = s.calls.set c b) (hb : b.profile.unreleased = none)
    (c₀ r) : s'.Unreleased c₀ r ↔ s.Unreleased c₀ r ∧ c₀ ≠ c := by
  simp only [Unreleased, hcas, getElem?_set_of hc]
  by_cases h : c = c₀
  · subst h
    simp [hb]
  · simp [h, Ne.symm h]

theorem LockInv.unlock (h : LockInv s) (hc : s.calls[c]? = some a) (ha : a.profile.unreleased = some ref) (hin : a.profile.inside = true)
    (hb : b.profile.unreleased = none) (hplain : b.plain = true) : LockInv ((s.unlock c ref).goto c b) := by
  have hcas : ((s.unlock c ref).goto c b).calls = s.calls.set c b := rfl
  have hun := unreleased_unlock hc hcas hb
  have hins : s.Inside c ref := ⟨a, hc, ha, hin⟩
  have hot : ∀ c₀ r, s.Unreleased c₀ r → s.Unreleased c r → c₀ ≠ c → c < c₀ := by
    intro c₀ r hu huc hne
    have hr : r = ref := by
      obtain ⟨call, hca, hr⟩ := huc
      rw [hc] at hca
      cases hca
      rw [ha] at hr
      exact (Option.some.inj hr).symm
    subst hr
    exact Nat.lt_of_le_of_ne (h.first hins hu) (Ne.symm hne)
  have hlo : ∀ r l, ((s.unlock c ref).goto c b).tenantLocks.lookup r = some l → s.tenantLocks.lookup r = some l ∧ l ≠ c := by
    intro r l hl
    simp only [Registry.goto, Registry.unlock] at hl
    split at hl
    · rename_i heq
      by_cases hr : r = ref
      · subst hr
        rw [AList.lookup_erase] at hl
        cases hl
      · rw [AList.lookup_erase_ne hr] at hl
        refine ⟨hl, ?_⟩
        rintro rfl
        obtain ⟨call, hca, hr'⟩ := (h.last r l hl).1
        rw [hc] at hca
        cases hca
        rw [ha] at hr'
        exact hr (Option.some.inj hr').symm
    · rename_i hne
      refine ⟨hl, ?_⟩
      rintro rfl
      obtain ⟨call, hca, hr'⟩ := (h.last r l hl).1
      rw [hc] at hca
      cases hca
      rw [ha] at hr'
      exact hne (Option.some.inj hr' ▸ hl)
  constructor
  · grind [h.chain, getElem?_set_of]
  · grind [h.last]
  · intro r hl c₀ hu
    rw [hun] at hu
    cases hold : s.tenantLocks.lookup r with
    | none => exact h.free r hold c₀ hu.1
    | some l =>
      obtain ⟨hul, hmax⟩ := h.last r l hold
      have hlc : l = c := by
        by_contra hne
        simp only [Registry.goto, Registry.unlock] at hl
        split at hl
        · rename_i heq
          by_cases hr : r = ref
          · subst hr
            rw [hold] at heq
            exact hne (Option.some.inj heq)
          · rw [AList.lookup_erase_ne hr, hold] at hl
            cases hl
        · rw [hold] at hl
          cases hl
      subst hlc
      exact absurd (hot c₀ r hu.1 hul hu.2) (Nat.not_lt.mpr (hmax c₀ hu.1))
  · intro locks hmem
    rw [hcas] at hmem
    rcases mem_or_eq_of_mem_set hmem with hmem | rfl
    · obtain ⟨hd, hall⟩ := h.snapshot locks hmem
      refine ⟨hd, fun c₀ r hu => ?_⟩
      rw [hun] at hu
      obtain ⟨l, hl, hul, hle⟩ := hall c₀ r hu.1
      refine ⟨l, hl, (hun l r).mpr ⟨hul, ?_⟩, hle⟩
      rintro rfl
      exact absurd (hot c₀ r hu.1 hul hu.2) (Nat.not_lt.mpr hle)
    · cases hplain

/-! ## 一手 -/

theorem retireEntry_calls (id) : (s.retireEntry id).calls = s.calls ∧ (s.retireEntry id).tenantLocks = s.tenantLocks ∧
    (s.retireEntry id).shuttingDown = s.shuttingDown := by
  unfold retireEntry
  split
  · exact ⟨rfl, rfl, rfl⟩
  · split <;> exact ⟨rfl, rfl, rfl⟩

theorem releaseEntry_calls (id) : (s.releaseEntry id).calls = s.calls ∧ (s.releaseEntry id).tenantLocks = s.tenantLocks ∧
    (s.releaseEntry id).shuttingDown = s.shuttingDown := by
  unfold releaseEntry
  split <;> exact ⟨rfl, rfl, rfl⟩

theorem lease_calls (id usedAt) : (s.lease id usedAt).calls = s.calls ∧
    (s.lease id usedAt).tenantLocks = s.tenantLocks ∧ (s.lease id usedAt).shuttingDown = s.shuttingDown := by
  unfold lease
  split <;> exact ⟨rfl, rfl, rfl⟩

theorem callClose_cases (id) : s.callClose id = s ∨ ∃ entry, s.backends[id]? = some entry ∧ entry.phase = .ready ∧
    s.callClose id = s.setEntry id { entry with phase := .closing, closeCalls := entry.closeCalls + 1 } := by
  unfold callClose
  split
  · exact .inl rfl
  · rename_i entry he
    split
    · rename_i hp
      exact .inr ⟨entry, he, hp, rfl⟩
    · exact .inl rfl

theorem closeDone_cases (id ok) : s.closeDone id ok = s ∨ ∃ entry, s.backends[id]? = some entry ∧ entry.phase = .closing ∧
    (s.closeDone id ok = { s.setEntry id { entry with phase := .closed } with retired := s.retired.erase id } ∨
      s.closeDone id ok = s.setEntry id { entry with phase := .failed }) := by
  unfold closeDone
  split
  · exact .inl rfl
  · rename_i entry he
    split
    · rename_i hp
      refine .inr ⟨entry, he, hp, ?_⟩
      cases ok with
      | true => exact .inl rfl
      | false => exact .inr rfl
    · exact .inl rfl

theorem not_waiting (h : a.profile.unreleased = none ∨ a.profile.inside = true) (r p) :
    a = .acquire r (.waiting (some p)) → s.lockReleased p = true := by
  rintro rfl
  rcases h with h | h
  · cases h
  · cases h

theorem Move.locks (hm : Move G s s') (h : LockInv s) : LockInv s' := by
  cases hm with
  | tick => exact h.still rfl rfl rfl
  | retire => exact h.still (retireEntry_calls _).1 (retireEntry_calls _).2.1 (retireEntry_calls _).2.2
  | @goto c a b hc hsame hplain hclear =>
    refine h.turn hc rfl (by rw [hsame]) hplain ?_ rfl rfl
    rintro r p rfl
    cases b with
    | acquire r' pc => cases pc <;> simp_all [profile, plain]
    | _ => simp [profile] at hsame
  | @enter c ref previous b hc hprev hb hplain =>
    refine h.turn hc rfl (by rw [hb]; rfl) hplain ?_ rfl rfl
    intro r p heq
    cases heq
    simpa using hprev
  | @reserve c ref a b hc ha hb | @unreserve c ref a b hc ha hb =>
    have hplain : b.plain = true := plain_of_inside (by rw [hb]; rfl)
    exact h.turn (a := a) (b := b) hc rfl (by rw [ha, hb]) hplain (not_waiting (Or.inr (by rw [ha]; rfl))) rfl rfl
  | @pass c ref a b hc ha hb =>
    have hplain : b.plain = true := plain_of_inside (by rw [hb]; rfl)
    exact h.turn hc rfl (by rw [ha, hb]) hplain (not_waiting (Or.inr (by rw [ha]; rfl))) rfl rfl
  | create cleanup hc | install hc => exact h.turn hc rfl rfl rfl (by nofun) rfl rfl
  | @discard c ref fingerprint id hc =>
    exact h.turn (b := .acquire ref (.discarding id)) hc (by rw [Registry.discard, Registry.goto, (retireEntry_calls _).1]; rfl) rfl rfl (by nofun)
      (retireEntry_calls _).2.1 (retireEntry_calls _).2.2
  | @share c ref id a b usedAt hc ha hb hplain =>
    refine h.turn hc (by rw [Registry.goto, (lease_calls _ _).1]) (by rw [hb]) hplain ?_ (lease_calls _ _).2.1 (lease_calls _ _).2.2
    rintro r p rfl
    cases b with
    | acquire r' pc => cases pc <;> simp_all [profile]
    | _ => simp [profile] at hb
  | @count c ref id hc =>
    exact h.turn (b := .acquire ref (.counted id)) hc (by rw [Registry.goto, (lease_calls _ _).1]) rfl rfl (by nofun)
      (lease_calls _ _).2.1 (lease_calls _ _).2.2
  | unlock hc ha hb hplain => exact h.unlock hc (by rw [ha]; rfl) (by rw [ha]; rfl) (by rw [hb]) hplain
  | drop hc ha hb hplain =>
    exact h.turn hc (by rw [Registry.goto, (releaseEntry_calls _).1]) (by rw [ha, hb]) hplain (not_waiting (Or.inl (by rw [ha])))
      (releaseEntry_calls _).2.1 (releaseEntry_calls _).2.2
  | spawn hb hplain =>
    refine h.spawn rfl (by rw [hb]) rfl id ?_
    rintro locks rfl
    cases hplain
  | shutdown =>
    refine h.spawn rfl rfl rfl (fun _ => rfl) ?_
    intro locks heq
    cases heq
    refine ⟨rfl, fun c ref hu => ?_⟩
    cases hl : s.tenantLocks.lookup ref with
    | none => exact absurd hu (h.free ref hl c)
    | some l =>
      obtain ⟨hul, hmax⟩ := h.last ref l hl
      refine ⟨l, ?_, hul, hmax c hu⟩
      exact mem_map.mpr ⟨⟨ref, l⟩, AList.mem_lookup_iff.mp hl, rfl⟩
  | register hd => exact h.register hd
  | callClose id =>
    rcases callClose_cases (s := s) id with hs | ⟨_, _, _, hs⟩
    · rwa [hs]
    · rw [hs]
      exact h.still rfl rfl rfl
  | closeDone id ok =>
    rcases closeDone_cases (s := s) id ok with hs | ⟨_, _, _, hs | hs⟩
    · rwa [hs]
    · rw [hs]
      exact h.still rfl rfl rfl
    · rw [hs]
      exact h.still rfl rfl rfl

end Supacloud.TenantCache
