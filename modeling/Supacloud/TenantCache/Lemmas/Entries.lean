import Supacloud.TenantCache.Lemmas.Locks

/-! # Map と引退した項目 -/

namespace Supacloud.TenantCache

open Library List

variable {s s' : Registry} {c c' : CallId} {a b call : Call} {ref : Ref} {id id' : EntryId} {entry : TenantCacheEntry}
  {entry' : TenantCacheEntry} {fingerprint : Fingerprint}

/-! ## 項目の見え方 -/

inductive Status where
  | active
  | retired
  | closed
  deriving DecidableEq

def TenantCacheEntry.status (entry : TenantCacheEntry) : Status :=
  match entry.phase with
  | .active => .active
  | .closed => .closed
  | _ => .retired

def Registry.view (s : Registry) (id : EntryId) : Option (Ref × Status) := (s.backends[id]?).map fun entry => (entry.ref, entry.status)

theorem view_eq (h : s.backends[id]? = some entry) : s.view id = some (entry.ref, entry.status) := by
  simp [Registry.view, h]

theorem entry_of_view {status} (h : s.view id = some (ref, status)) :
    ∃ entry, s.backends[id]? = some entry ∧ entry.ref = ref ∧ entry.status = status := by
  obtain ⟨entry, he, heq⟩ := Option.map_eq_some_iff.mp h
  cases heq
  exact ⟨entry, he, rfl, rfl⟩

theorem status_active : entry.status = .active ↔ entry.phase = .active := by
  cases h : entry.phase <;> simp [TenantCacheEntry.status, h]

theorem view_set (h : s.backends[id]? = some entry) (hs : s'.backends = s.backends.set id entry') :
    s'.view id' = if id = id' then some (entry'.ref, entry'.status) else s.view id' := by
  simp only [Registry.view, hs, getElem?_set_of h]
  split <;> rfl

theorem view_setEntry (h : s.backends[id]? = some entry)
    (hsa : (entry'.ref, entry'.status) = (entry.ref, entry.status)) (id') : (s.setEntry id entry').view id' = s.view id' := by
  rw [view_set h rfl]
  split
  · rename_i heq
    rw [← heq, view_eq h, hsa]
  · rfl

theorem view_lease (id usedAt id') : (s.lease id usedAt).view id' = s.view id' := by
  unfold Registry.lease
  split
  · rfl
  · rename_i entry h
    apply view_setEntry h
    rfl

theorem status_release
    (h : entry'.phase = if entry.leases - 1 = 0 ∧ entry.phase = .draining then .ready else entry.phase) : entry'.status = entry.status := by
  simp only [TenantCacheEntry.status, h]
  by_cases hd : entry.leases - 1 = 0 ∧ entry.phase = .draining
  · rw [if_pos hd, hd.2]
  · rw [if_neg hd]

theorem view_release (id id') : (s.releaseEntry id).view id' = s.view id' := by
  unfold Registry.releaseEntry
  split
  · rfl
  · rename_i entry h
    refine view_setEntry h ?_ id'
    rw [status_release rfl]

/-! ## 不変条件 -/

structure CallOk (s : Registry) (call : Call) : Prop where
  holds : ∀ id, call.profile.holds = some id → s.view id ≠ none
  uncounted : ∀ id, call.profile.uncounted = some id → ∃ ref status, call.profile.unreleased = some ref ∧ s.view id = some (ref, status)
  verifies : ∀ id, call.profile.verifies = some id →
    (∃ ref, call.profile.unreleased = some ref ∧ s.view id = some (ref, .active)) ∧ ∀ ref, (ref, id) ∉ s.entries
  cleared : ∀ ref, call.cleared = some ref → s.entries.lookup ref = none

structure MapInv (s : Registry) : Prop where
  keys : (s.entries.map Prod.fst).Nodup
  active : ∀ ref id, (ref, id) ∈ s.entries → s.view id = some (ref, .active)
  retired : ∀ id, id ∈ s.retired ↔ ∃ ref, s.view id = some (ref, .retired)
  nodup : s.retired.Nodup
  calls : ∀ call ∈ s.calls, CallOk s call
  unique : ∀ (c c' : CallId) (a b : Call) (id : EntryId), s.calls[c]? = some a → s.calls[c']? = some b → a.profile.verifies = some id → b.profile.verifies = some id → c = c'

theorem CallOk.congr (h : CallOk s call) (hent : s'.entries = s.entries) (hvi : ∀ id, s'.view id = s.view id) : CallOk s' call where
  holds := by simpa [hvi] using h.holds
  uncounted := by simpa [hvi] using h.uncounted
  verifies := by simpa [hvi, hent] using h.verifies
  cleared := by simpa [hent] using h.cleared

theorem CallOk.plain (hp : call.profile.holds = none ∧ call.profile.uncounted = none ∧ call.profile.verifies = none)
    (hcl : ∀ ref, call.cleared = some ref → s.entries.lookup ref = none) : CallOk s call where
  holds := by simp [hp.1]
  uncounted := by simp [hp.2.1]
  verifies := by simp [hp.2.2]
  cleared := hcl

namespace MapInv

section

variable (h : MapInv s)

include h

theorem congr (hent : s'.entries = s.entries) (hret : s'.retired = s.retired) (hvi : ∀ id, s'.view id = s.view id)
    (hcas : s'.calls = s.calls) : MapInv s' where
  keys := by simpa [hent] using h.keys
  active := by simpa [hent, hvi] using h.active
  retired := by simpa [hret, hvi] using h.retired
  nodup := by simpa [hret] using h.nodup
  calls := by
    rw [hcas]
    exact fun call hc => (h.calls call hc).congr hent hvi
  unique := by simpa [hcas] using h.unique

theorem turn (hc : s.calls[c]? = some a) (hok : CallOk s b)
    (hver : b.profile.verifies = none ∨ b.profile.verifies = a.profile.verifies) : MapInv (s.goto c b) where
  keys := h.keys
  active := h.active
  retired := h.retired
  nodup := h.nodup
  calls := forall_mem_set (fun call hca => (h.calls call hca).congr rfl fun _ => rfl) (hok.congr rfl fun _ => rfl)
  unique := by
    have hown : ∀ (c' : CallId) (x) (id), (s.goto c b).calls[c']? = some x → x.profile.verifies = some id →
        ∃ y, s.calls[c']? = some y ∧ y.profile.verifies = some id := by
      intro c' x id hx hv
      rw [Registry.goto, getElem?_set_of hc] at hx
      by_cases heq : c = c'
      · grind
      · rw [if_neg heq] at hx
        exact ⟨x, hx, hv⟩
    intro c₁ c₂ x y id hx hy hvx hvy
    obtain ⟨x', hx', hvx'⟩ := hown c₁ x id hx hvx
    obtain ⟨y', hy', hvy'⟩ := hown c₂ y id hy hvy
    exact h.unique c₁ c₂ x' y' id hx' hy' hvx' hvy'

theorem spawn (hb : b.profile.verifies = none) (hok : CallOk s b) : MapInv (s.spawn b) where
  keys := h.keys
  active := h.active
  retired := h.retired
  nodup := h.nodup
  calls := by
    intro call hca
    rcases mem_append.mp hca with hca | hca
    · exact (h.calls call hca).congr rfl fun _ => rfl
    · rw [mem_singleton.mp hca]
      exact hok.congr rfl fun _ => rfl
  unique := by
    have hown : ∀ (c' : CallId) (x) (id), (s.spawn b).calls[c']? = some x → x.profile.verifies = some id → s.calls[c']? = some x := by
      intro c' x id hx hv
      rcases Nat.lt_trichotomy c' s.calls.length with hlt | rfl | hgt
      · rwa [Registry.spawn, getElem?_append_left hlt] at hx
      · rw [Registry.spawn, getElem?_append_right (Nat.le_refl _), Nat.sub_self] at hx
        cases hx
        rw [hb] at hv
        cases hv
      · have hno : (s.spawn b).calls[c']? = none := getElem?_eq_none_iff.mpr (by rw [Registry.spawn, length_append]; exact hgt)
        rw [hno] at hx
        cases hx
    intro c₁ c₂ x y id hx hy hvx hvy
    exact h.unique c₁ c₂ x y id (hown c₁ x id hx hvx) (hown c₂ y id hy hvy) hvx hvy

/-! ## 引退 -/

theorem not_retired {status} (hv : s.view id = some (ref, status)) (hne : status ≠ .retired) : id ∉ s.retired := by
  rw [h.retired]
  rintro ⟨ref', hv'⟩
  rw [hv] at hv'
  cases hv'
  exact hne rfl

theorem retire_eq (hm : (ref, id) ∈ s.entries) : ∃ entry, s.backends[id]? = some entry ∧ entry.ref = ref ∧ entry.phase = .active ∧
    s.retireEntry id = { s.setEntry id { entry with phase := if entry.leases = 0 then .ready else .draining } with
      entries := s.entries.filter (·.1 ≠ ref)
      retired := s.retired ++ [id] } := by
  obtain ⟨entry, he, rfl, hst⟩ := entry_of_view (h.active ref id hm)
  have hph := status_active.mp hst
  have hout := h.not_retired (h.active _ id hm) (by decide)
  refine ⟨entry, he, rfl, hph, ?_⟩
  rw [Registry.retireEntry, he]
  simp [TenantCacheEntry.retiring, hph, (lookup_eq_some_iff h.keys).mpr hm, hout]

theorem discard_eq (hv : s.view id = some (ref, .active)) (hm : ∀ ref, (ref, id) ∉ s.entries) :
    ∃ entry, s.backends[id]? = some entry ∧ entry.ref = ref ∧ entry.phase = .active ∧
    s.retireEntry id = { s.setEntry id { entry with phase := if entry.leases = 0 then .ready else .draining } with
      retired := s.retired ++ [id] } := by
  obtain ⟨entry, he, rfl, hst⟩ := entry_of_view hv
  have hph := status_active.mp hst
  have hout := h.not_retired hv (by decide)
  refine ⟨entry, he, rfl, hph, ?_⟩
  have hl : s.entries.lookup entry.ref ≠ some id := fun hl => hm _ (mem_of_lookup hl)
  rw [Registry.retireEntry, he]
  simp [TenantCacheEntry.retiring, hph, hl, hout, Registry.setEntry]

end

theorem retired_status : ({ entry with phase := if entry.leases = 0 then .ready else .draining } : TenantCacheEntry).status = .retired := by
  simp only [TenantCacheEntry.status]
  by_cases h : entry.leases = 0 <;> simp [h]

theorem view_retired (he : s.backends[id]? = some entry)
    (hs : s'.backends = s.backends.set id { entry with phase := if entry.leases = 0 then .ready else .draining }) :
    s'.view id' = if id = id' then some (entry.ref, .retired) else s.view id' := by
  rw [view_set he hs, retired_status]

theorem retired_concat (h : MapInv s) (hv : s.view id = some (ref, .active))
    (hvi : ∀ id', s'.view id' = if id = id' then some (ref, .retired) else s.view id') (hret : s'.retired = s.retired ++ [id]) :
    (∀ id', id' ∈ s'.retired ↔ ∃ ref, s'.view id' = some (ref, .retired)) ∧ s'.retired.Nodup := by
  constructor
  · grind [h.retired, id]
  · rw [hret]
    have hout := h.not_retired hv (by decide)
    exact nodup_append.mpr ⟨h.nodup, by simp, by simpa using fun x hx => (fun heq => hout (heq ▸ hx) : x ≠ id)⟩

end MapInv

theorem status_ref {ref' status status'} (h : s.view id = some (ref, status)) (h' : s.view id = some (ref', status')) : ref = ref' := by
  rw [h] at h'
  cases h'
  rfl

namespace MapInv

theorem retire (h : MapInv s) (hm : (ref, id) ∈ s.entries) : MapInv (s.retireEntry id) := by
  obtain ⟨entry, he, href, _, hs⟩ := h.retire_eq hm
  have hv := h.active ref id hm
  have hvi : ∀ id', (s.retireEntry id).view id' = if id = id' then some (ref, .retired) else s.view id' := by
    intro id'
    rw [hs, ← href]
    exact view_retired he rfl
  have hent : (s.retireEntry id).entries = s.entries.filter (·.1 ≠ ref) := by rw [hs]
  have hsub : ∀ r id', (r, id') ∈ (s.retireEntry id).entries → (r, id') ∈ s.entries ∧ r ≠ ref := by
    intro r id' hmem
    rw [hent, mem_filter] at hmem
    exact ⟨hmem.1, by simpa using hmem.2⟩
  have hne : ∀ r id', (r, id') ∈ (s.retireEntry id).entries → id ≠ id' := by
    rintro r id' hmem rfl
    exact (hsub r id hmem).2 (status_ref (h.active r id (hsub r id hmem).1) hv)
  have hret := h.retired_concat hv hvi (by rw [hs])
  refine ⟨by rw [hent]; exact nodup_filter_key h.keys, fun r id' hmem => ?_, hret.1, hret.2, fun call hca => ?_, ?_⟩
  · rw [hvi, if_neg (hne r id' hmem)]
    exact h.active r id' (hsub r id' hmem).1
  · rw [(retireEntry_calls id).1] at hca
    have hok := h.calls call hca
    constructor
    · intro id' hh
      rw [hvi]
      split
      · simp
      · exact hok.holds id' hh
    · grind [hok.uncounted, status_ref]
    · grind [hok.verifies]
    · intro r hcl
      rw [hent, lookup_filter_key h.keys]
      split
      · rfl
      · exact hok.cleared r hcl
  · rw [(retireEntry_calls id).1]
    exact h.unique

section

variable (h : MapInv s) (hc : s.calls[c]? = some (.acquire ref (.verifying fingerprint id)))

include h hc

theorem discarded : ∃ entry, s.backends[id]? = some entry ∧ entry.ref = ref ∧ entry.phase = .active ∧ s.discard c ref id =
      { s.unreserve.setEntry id { entry with phase := if entry.leases = 0 then .ready else .draining } with
        retired := s.retired ++ [id] }.goto c (.acquire ref (.discarding id)) := by
  obtain ⟨⟨ref', hr, hv⟩, hout⟩ := (h.calls _ (mem_of_getElem? hc)).verifies id rfl
  cases hr
  have hu : MapInv s.unreserve := h.congr rfl rfl (fun _ => rfl) rfl
  obtain ⟨entry, he, href, hphase, hs⟩ := hu.discard_eq hv hout
  exact ⟨entry, he, href, hphase, by rw [Registry.discard, hs]; rfl⟩

theorem discard : MapInv (s.discard c ref id) := by
  obtain ⟨⟨ref', hr, hv⟩, hout⟩ := (h.calls _ (mem_of_getElem? hc)).verifies id rfl
  cases hr
  obtain ⟨entry, he, href, _, hs⟩ := h.discarded hc
  have hvi : ∀ id', (s.discard c ref id).view id' = if id = id' then some (ref, .retired) else s.view id' := by
    intro id'
    rw [hs, ← href]
    exact view_retired he rfl
  have hent : (s.discard c ref id).entries = s.entries := by rw [hs]; rfl
  have hret := h.retired_concat hv hvi (by rw [hs]; rfl)
  have hcas : (s.discard c ref id).calls = s.calls.set c (.acquire ref (.discarding id)) := by rw [hs]; rfl
  have hat : ∀ c' call, (s.discard c ref id).calls[c']? = some call → call.profile.verifies ≠ none → s.calls[c']? = some call ∧ c ≠ c' := by
    intro c' call hca hver
    rw [hcas, getElem?_set_of hc] at hca
    by_cases heq : c = c'
    · rw [if_pos heq] at hca
      cases hca
      exact absurd rfl hver
    · rw [if_neg heq] at hca
      exact ⟨hca, heq⟩
  refine ⟨hent ▸ h.keys, fun r id' hmem => ?_, hret.1, hret.2, fun call hca => ?_, ?_⟩
  · rw [hent] at hmem
    exact (hvi id').trans ((if_neg (by rintro rfl; exact hout r hmem)).trans (h.active r id' hmem))
  · obtain ⟨c', hc'⟩ := mem_iff_getElem?.mp hca
    rw [hcas] at hca
    rcases mem_or_eq_of_mem_set hca with hmem | rfl
    · have hok := h.calls call hmem
      constructor
      · intro id' hh
        rw [hvi]
        split
        · simp
        · exact hok.holds id' hh
      · grind [hok.uncounted, status_ref]
      · intro id' hver
        obtain ⟨hc₀, hne⟩ := hat c' call hc' (by rw [hver]; simp)
        obtain ⟨⟨r, hr, hvr⟩, hou'⟩ := hok.verifies id' hver
        rw [hent]
        refine ⟨⟨r, hr, ?_⟩, hou'⟩
        rw [hvi, if_neg, hvr]
        rintro rfl
        exact hne (h.unique c c' _ call id hc hc₀ rfl hver)
      · rw [hent]
        exact hok.cleared
    · exact CallOk.plain ⟨rfl, rfl, rfl⟩ (by nofun)
  · grind [h.unique]

end

theorem create (h : MapInv s) (cleanup)
    (hc : s.calls[c]? = some (.acquire ref (.creatingBackend fingerprint))) : MapInv (s.backendCreated c ref fingerprint cleanup) := by
  have hnew : s.view s.backends.length = none := by simp [Registry.view]
  have hvi : ∀ id', (s.backendCreated c ref fingerprint cleanup).view id' =
      if id' = s.backends.length then some (ref, .active) else s.view id' := by
    intro id'
    simp only [Registry.view, Registry.backendCreated, Registry.goto]
    rcases Nat.lt_trichotomy id' s.backends.length with hlt | rfl | hgt
    · rw [getElem?_append_left hlt, if_neg (Nat.ne_of_lt hlt)]
    · simp [TenantCacheEntry.status]
    · grind
  have hold : ∀ {id'}, s.view id' ≠ none → (s.backendCreated c ref fingerprint cleanup).view id' = s.view id' := by
    intro id' hne
    rw [hvi, if_neg]
    rintro rfl
    exact hne hnew
  have hout : ∀ r, (r, s.backends.length) ∉ s.entries := by
    intro r hmem
    rw [h.active r _ hmem] at hnew
    cases hnew
  have hgr : ∀ call, CallOk s call → CallOk (s.backendCreated c ref fingerprint cleanup) call := by
    intro call hok
    constructor
    · intro id' hh
      rw [hold (hok.holds id' hh)]
      exact hok.holds id' hh
    · grind [hok.uncounted]
    · intro id' hver
      obtain ⟨⟨r, hr, hvr⟩, hou'⟩ := hok.verifies id' hver
      exact ⟨⟨r, hr, (hold (by rw [hvr]; simp)).trans hvr⟩, hou'⟩
    · exact hok.cleared
  refine ⟨h.keys, fun r id' hmem => ?_, fun id' => ?_, h.nodup, ?_, ?_⟩
  · have hv := h.active r id' hmem
    exact (hold (by rw [hv]; simp)).trans hv
  · rw [hvi, show (s.backendCreated c ref fingerprint cleanup).retired = s.retired from rfl, h.retired]
    by_cases heq : id' = s.backends.length
    · grind
    · rw [if_neg heq]
  · refine forall_mem_set (fun call hca => hgr call (h.calls call hca)) ⟨?_, ?_, ?_, ?_⟩
    · intro id' hh
      cases hh
    · intro id' hh
      cases hh
    · intro id' hver
      cases hver
      exact ⟨⟨ref, rfl, by rw [hvi, if_pos rfl]⟩, hout⟩
    · intro r hcl
      cases hcl
      exact (h.calls _ (mem_of_getElem? hc)).cleared ref rfl
  · have hat : ∀ (c') (x) (id'), (s.backendCreated c ref fingerprint cleanup).calls[c']? = some x →
        x.profile.verifies = some id' → (c = c' ∧ id' = s.backends.length) ∨ (s.calls[c']? = some x ∧ id' ≠ s.backends.length) := by
      intro c' x id' hx hv
      rw [show (s.backendCreated c ref fingerprint cleanup).calls = s.calls.set c (.acquire ref (.verifying fingerprint s.backends.length)) from rfl,
        getElem?_set_of hc] at hx
      by_cases heq : c = c'
      · rw [if_pos heq] at hx
        cases hx
        cases hv
        exact Or.inl ⟨heq, rfl⟩
      · rw [if_neg heq] at hx
        refine Or.inr ⟨hx, ?_⟩
        rintro rfl
        obtain ⟨⟨r, _, hvr⟩, _⟩ := (h.calls x (mem_of_getElem? hx)).verifies _ hv
        rw [hnew] at hvr
        cases hvr
    intro c₁ c₂ x y id' hx hy hvx hvy
    rcases hat c₁ x id' hx hvx with ⟨rfl, hid⟩ | ⟨hx', hid⟩
    · rcases hat c₂ y id' hy hvy with ⟨rfl, _⟩ | ⟨_, hne⟩
      · rfl
      · exact absurd hid hne
    · grind [h.unique]

theorem install_eq (h : MapInv s) (hc : s.calls[c]? = some (.acquire ref (.verifying fingerprint id))) :
    s.entries.lookup ref = none ∧ s.install c ref id = { s.unreserve with entries := s.entries ++ [(ref, id)] }.goto c (.acquire ref (.installed id)) := by
  have hl := (h.calls _ (mem_of_getElem? hc)).cleared ref rfl
  refine ⟨hl, ?_⟩
  rw [Registry.install, Registry.mapSet, hl]
  rfl

theorem install (hlos : LockInv s) (h : MapInv s)
    (hc : s.calls[c]? = some (.acquire ref (.verifying fingerprint id))) : MapInv (s.install c ref id) := by
  obtain ⟨hl, hs⟩ := h.install_eq hc
  obtain ⟨⟨ref', hr, hv⟩, hout⟩ := (h.calls _ (mem_of_getElem? hc)).verifies id rfl
  cases hr
  have hent : (s.install c ref id).entries = s.entries ++ [(ref, id)] := by rw [hs]; rfl
  have hvi : ∀ id', (s.install c ref id).view id' = s.view id' := fun _ => rfl
  have hcas : (s.install c ref id).calls = s.calls.set c (.acquire ref (.installed id)) := rfl
  have hins : s.Inside c ref := ⟨_, hc, rfl, rfl⟩
  have hat : ∀ (c') (call), (s.install c ref id).calls[c']? = some call →
      (c = c' ∧ call = .acquire ref (.installed id)) ∨ (c ≠ c' ∧ s.calls[c']? = some call) := by
    intro c' call hca
    rw [hcas, getElem?_set_of hc] at hca
    by_cases heq : c = c'
    · rw [if_pos heq] at hca
      cases hca
      exact Or.inl ⟨heq, rfl⟩
    · rw [if_neg heq] at hca
      exact Or.inr ⟨heq, hca⟩
  refine ⟨by rw [hent]; exact nodup_concat_key h.keys hl, fun r id' hmem => ?_, h.retired, h.nodup, fun call hca => ?_, ?_⟩
  · grind [h.active]
  · obtain ⟨c', hc'⟩ := mem_iff_getElem?.mp hca
    rcases hat c' call hc' with ⟨_, rfl⟩ | ⟨hne, hca'⟩
    · refine ⟨nofun, ?_, nofun, nofun⟩
      intro id' hu
      cases hu
      exact ⟨ref, _, rfl, hv⟩
    · have hok := h.calls call (mem_of_getElem? hca')
      refine ⟨hok.holds, hok.uncounted, fun id' hver => ?_, fun r hcl => ?_⟩
      · obtain ⟨hr, hou'⟩ := hok.verifies id' hver
        refine ⟨hr, fun r hmem => ?_⟩
        rw [hent, mem_append, mem_singleton] at hmem
        rcases hmem with hmem | heq
        · exact hou' r hmem
        · cases heq
          exact hne (h.unique c c' _ call id hc hca' rfl hver)
      · rw [hent, lookup_concat_key h.keys hl, if_neg]
        · exact hok.cleared r hcl
        · rintro rfl
          obtain ⟨hun, hin⟩ := Call.cleared_profile hcl
          exact hne (hlos.exclusive hins ⟨call, hca', hun, hin⟩)
  · have hver : ∀ (c' : CallId) (x) (id'), (s.install c ref id).calls[c']? = some x →
        x.profile.verifies = some id' → s.calls[c']? = some x := by
      intro c' x id' hx hv'
      rcases hat c' x hx with ⟨_, rfl⟩ | ⟨_, hx'⟩
      · cases hv'
      · exact hx'
    intro c₁ c₂ x y id' hx hy hvx hvy
    exact h.unique c₁ c₂ x y id' (hver c₁ x id' hx hvx) (hver c₂ y id' hy hvy) hvx hvy

theorem closeDone (h : MapInv s) (id ok) : MapInv (s.closeDone id ok) := by
  rcases closeDone_cases (s := s) id ok with hs | ⟨entry, he, hp, hs | hs⟩
  · rwa [hs]
  · have hold : s.view id = some (entry.ref, .retired) := by
      rw [view_eq he]
      simp [TenantCacheEntry.status, hp]
    have hbs : (s.closeDone id ok).backends = s.backends.set id { entry with phase := .closed } := by rw [hs]; rfl
    have hvi : ∀ id', (s.closeDone id ok).view id' = if id = id' then some (entry.ref, .closed) else s.view id' := fun id' =>
      view_set he hbs
    have hke : ∀ id', s.view id' ≠ some (entry.ref, .retired) ∨ id ≠ id' → (s.closeDone id ok).view id' = s.view id' := by
      rintro id' hne
      rw [hvi, if_neg]
      rintro rfl
      exact hne.elim (fun hn => hn hold) (fun hn => hn rfl)
    have hret : (s.closeDone id ok).retired = s.retired.erase id := by rw [hs]
    have hent : (s.closeDone id ok).entries = s.entries := by rw [hs]; rfl
    have hcalls : (s.closeDone id ok).calls = s.calls := by rw [hs]; rfl
    refine ⟨hent ▸ h.keys, fun r id' hmem => ?_, fun id' => ?_, hret ▸ h.nodup.erase id, fun call hcall => ?_, hcalls ▸ h.unique⟩
    · rw [hent] at hmem
      rw [hke id' (Or.inl (by rw [h.active r id' hmem]; simp))]
      exact h.active r id' hmem
    · grind [h.nodup.mem_erase_iff, h.retired, id]
    · rw [hcalls] at hcall
      have hok := h.calls call hcall
      refine ⟨fun id' hh => ?_, fun id' hu => ?_, fun id' hver => ?_, hent ▸ hok.cleared⟩
      · rw [hvi]
        split
        · simp
        · exact hok.holds id' hh
      · grind [hok.uncounted, status_ref]
      · obtain ⟨⟨r, hr, hvr⟩, hout⟩ := hok.verifies id' hver
        exact ⟨⟨r, hr, (hke id' (Or.inl (by rw [hvr]; simp))).trans hvr⟩, hent ▸ hout⟩
  · rw [hs]
    exact h.congr rfl rfl (view_setEntry he (by simp [TenantCacheEntry.status, hp])) rfl

end MapInv

/-! ## 一手 -/

theorem CallOk.of_profile (h : CallOk s a) (hsa : b.profile = a.profile) (hcl : ∀ ref, b.cleared = some ref → s.entries.lookup ref = none) :
    CallOk s b where
  holds := by simpa [hsa] using h.holds
  uncounted := by simpa [hsa] using h.uncounted
  verifies := by simpa [hsa] using h.verifies
  cleared := hcl

theorem Move.entries {G} (hm : Move G s s') (hl : LockInv s) (h : MapInv s) : MapInv s' := by
  have at_ : ∀ {c a}, s.calls[c]? = some a → CallOk s a := fun hc => h.calls _ (mem_of_getElem? hc)
  have none_ : ∀ {b : Call}, b.cleared = none → ∀ ref, b.cleared = some ref → s.entries.lookup ref = none := by
    intro b hn ref hs
    rw [hn] at hs
    cases hs
  cases hm with
  | tick => exact h.congr rfl rfl (fun _ => rfl) rfl
  | retire hmem => exact h.retire hmem
  | @goto c a b hc hsa hpl hcle => exact h.turn hc ((at_ hc).of_profile hsa.symm hcle) (Or.inr (by rw [hsa]))
  | @enter c ref previous b hc hpr hb hpl hcle =>
    exact h.turn hc (CallOk.plain (by rw [hb]; exact ⟨rfl, rfl, rfl⟩) (none_ hcle)) (Or.inl (by rw [hb]; rfl))
  | @reserve c ref a b hc ha hb hcle hfr =>
    refine MapInv.turn (s := { s with creating := s.creating + 1 }) (h.congr rfl rfl (fun _ => rfl) rfl) hc ?_ (Or.inl (by rw [hb]; rfl))
    refine CallOk.plain (by rw [hb]; exact ⟨rfl, rfl, rfl⟩) fun r hr => ?_
    rw [hcle] at hr
    cases hr
    exact hfr
  | @pass c ref a b hc ha hb hcle =>
    refine h.turn hc (CallOk.plain (by rw [hb]; exact ⟨rfl, rfl, rfl⟩) fun r hr => ?_) (Or.inl (by rw [hb]; rfl))
    exact (at_ hc).cleared r (hcle ▸ hr)
  | @unreserve c ref a b hc ha hb hcle =>
    exact MapInv.turn (s := s.unreserve) (h.congr rfl rfl (fun _ => rfl) rfl) hc
      (CallOk.plain (by rw [hb]; exact ⟨rfl, rfl, rfl⟩) (none_ hcle)) (Or.inl (by rw [hb]; rfl))
  | create cleanup hc => exact h.create cleanup hc
  | discard hc => exact h.discard hc
  | install hc => exact h.install hl hc
  | @share c ref id a b usedAt hc ha hb hpl hcle hmem =>
    have hs : MapInv (s.lease id usedAt) :=
      h.congr (by unfold Registry.lease; split <;> rfl) (by unfold Registry.lease; split <;> rfl) (view_lease id usedAt) (lease_calls id usedAt).1
    have hok := at_ hc
    refine hs.turn (a := a) (by rw [(lease_calls id usedAt).1]; exact hc) ?_ (Or.inr (by rw [hb]))
    have hb' : CallOk s b := by
      refine ⟨fun id' hh => ?_, ?_, ?_, none_ hcle⟩
      · rw [hb] at hh
        cases hh
        rw [h.active ref id hmem]
        simp
      · simpa [hb] using hok.uncounted
      · simpa [hb] using hok.verifies
    exact hb'.congr (by unfold Registry.lease; split <;> rfl) (view_lease id usedAt)
  | @count c ref id hc =>
    have hs : MapInv (s.lease id fun _ => s.now) :=
      h.congr (by unfold Registry.lease; split <;> rfl) (by unfold Registry.lease; split <;> rfl) (view_lease id _) (lease_calls id _).1
    refine hs.turn (by rw [(lease_calls id _).1]; exact hc) ⟨fun id' hh => ?_, nofun, nofun, nofun⟩ (Or.inl rfl)
    cases hh
    obtain ⟨r, status, _, hv⟩ := (at_ hc).uncounted id rfl
    rw [view_lease, hv]
    simp
  | @unlock c ref a b hc ha hb hpl hcle =>
    have hs : MapInv (s.unlock c ref) := h.congr rfl rfl (fun _ => rfl) rfl
    refine hs.turn hc ⟨fun id' hh => ?_, by rw [hb]; nofun, by rw [hb]; nofun, none_ hcle⟩ (Or.inl (by rw [hb]))
    rw [hb] at hh
    exact (at_ hc).holds id' hh
  | @drop c id a b hc ha hb hpl hcle =>
    have hs : MapInv (s.releaseEntry id) :=
      h.congr (by unfold Registry.releaseEntry; split <;> rfl) (by unfold Registry.releaseEntry; split <;> rfl) (view_release id) (releaseEntry_calls id).1
    exact hs.turn (a := a) (by rw [(releaseEntry_calls id).1]; exact hc)
      (CallOk.plain (by rw [hb]; exact ⟨rfl, rfl, rfl⟩) (by rw [hcle]; nofun)) (Or.inl (by rw [hb]))
  | spawn hb hpl hcle => exact h.spawn (by rw [hb]) (CallOk.plain (by rw [hb]; exact ⟨rfl, rfl, rfl⟩) (none_ hcle))
  | shutdown =>
    exact MapInv.spawn (s := { s with shuttingDown := true }) (h.congr rfl rfl (fun _ => rfl) rfl) rfl (CallOk.plain ⟨rfl, rfl, rfl⟩ (by nofun))
  | register hdo =>
    rw [acquire_eq hdo]
    exact (h.spawn rfl (CallOk.plain ⟨rfl, rfl, rfl⟩ (by nofun))).congr rfl rfl (fun _ => rfl) rfl
  | callClose id =>
    rcases callClose_cases (s := s) id with hs | ⟨entry, he, hp, hs⟩
    · rwa [hs]
    · rw [hs]
      exact h.congr rfl rfl (view_setEntry he (by simp [TenantCacheEntry.status, hp])) rfl
  | closeDone id ok => exact h.closeDone id ok

end Supacloud.TenantCache
