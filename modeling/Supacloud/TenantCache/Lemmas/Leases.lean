import Supacloud.TenantCache.Lemmas.Entries

/-! # 枠の数 -/

namespace Supacloud.TenantCache

open Library List

variable {s t : Registry} {c : CallId} {a b : Call} {ref : Ref} {id : EntryId} {entry entry' : TenantCacheEntry} {status : Status} {G : Prop}
  {fingerprint : Fingerprint}

namespace Registry

def reservations (s : Registry) : ℕ := s.calls.countP fun call => call.profile.reserved

def passes (s : Registry) : ℕ := s.calls.countP fun call => call.profile.passed

def verifications (s : Registry) : ℕ := s.calls.countP fun call => call.profile.verifies.isSome

def statusCount (s : Registry) (status : Status) : ℕ := s.backends.countP fun entry => entry.status = status

end Registry

structure CountInv (s : Registry) : Prop where
  creating : s.creating = s.reservations
  active : s.statusCount .active = s.entries.length + s.verifications
  retired : s.statusCount .retired = s.retired.length
  bound : s.entries.length + s.retired.length + s.passes ≤ s.options.maxTenants

/-! ## 数の変わり方 -/

section

variable (hc : s.calls[c]? = some a) (hcas : t.calls = s.calls.set c b)

include hc hcas

theorem reservations_set :
    t.reservations + (if a.profile.reserved then 1 else 0) = s.reservations + (if b.profile.reserved then 1 else 0) := by
  rw [Registry.reservations, hcas]
  exact countP_set_add hc

theorem passes_set : t.passes + (if a.profile.passed then 1 else 0) = s.passes + (if b.profile.passed then 1 else 0) := by
  rw [Registry.passes, hcas]
  exact countP_set_add hc

theorem verifications_set :
    t.verifications + (if a.profile.verifies.isSome then 1 else 0) = s.verifications + (if b.profile.verifies.isSome then 1 else 0) := by
  rw [Registry.verifications, hcas]
  exact countP_set_add hc

end

theorem statusCount_set (status) (h : s.backends[id]? = some entry) (hs : t.backends = s.backends.set id entry') :
    t.statusCount status + (if entry.status = status then 1 else 0) = s.statusCount status + (if entry'.status = status then 1 else 0) := by
  rw [Registry.statusCount, hs]
  simpa [Registry.statusCount] using countP_set_add (p := fun entry => entry.status = status) (b := entry') h

theorem statusCount_setEntry (h : s.backends[id]? = some entry) (hsa : entry'.status = entry.status) :
    (s.setEntry id entry').statusCount status = s.statusCount status := by
  have := statusCount_set status (t := s.setEntry id entry') h rfl
  rw [hsa] at this
  exact Nat.add_right_cancel this

theorem passes_le : s.passes ≤ s.reservations := countP_mono_left fun _ _ h => Call.passed_reserved h

theorem reservations_pos (hc : s.calls[c]? = some a) (ha : a.profile.reserved = true) : 0 < s.reservations :=
  countP_pos_iff.mpr ⟨a, mem_of_getElem? hc, ha⟩

theorem passes_lt (hc : s.calls[c]? = some a) (har : a.profile.reserved = true) (hap : a.profile.passed = false) :
    s.passes < s.reservations := by
  have hres := reservations_set (t := s.goto c .done) hc rfl
  have hpa := passes_set (t := s.goto c .done) hc rfl
  have hdn : Call.done.profile = {} := rfl
  simp only [har, hap, hdn, Bool.false_eq_true, if_true, if_false] at hres hpa
  have hle := passes_le (s := s.goto c .done)
  omega

theorem lease_frame (id usedAt) : (s.lease id usedAt).entries = s.entries ∧ (s.lease id usedAt).options = s.options := by
  unfold Registry.lease
  split <;> exact ⟨rfl, rfl⟩

section

variable (h : CountInv s)

include h

theorem CountInv.congr (hcre : t.creating = s.creating) (hent : t.entries = s.entries) (hret : t.retired = s.retired)
    (hopt : t.options = s.options) (hsts : ∀ status, t.statusCount status = s.statusCount status) (hcas : t.calls = s.calls) :
    CountInv t where
  creating := by
    rw [hcre, h.creating, Registry.reservations, Registry.reservations, hcas]
  active := by
    rw [hsts, hent, h.active, Registry.verifications, Registry.verifications, hcas]
  retired := by rw [hsts, hret, h.retired]
  bound := by
    rw [hent, hret, hopt, Registry.passes, hcas]
    exact h.bound

theorem CountInv.setEntry (he : s.backends[id]? = some entry) (hsa : entry'.status = entry.status) : CountInv (s.setEntry id entry') :=
  h.congr rfl rfl rfl rfl (fun _ => statusCount_setEntry he hsa) rfl

theorem CountInv.lease (id usedAt) : CountInv (s.lease id usedAt) := by
  unfold Registry.lease
  split
  · exact h
  · rename_i entry he
    exact h.setEntry he rfl

theorem CountInv.release (id) : CountInv (s.releaseEntry id) := by
  unfold Registry.releaseEntry
  split
  · exact h
  · rename_i entry he
    exact h.setEntry he (status_release rfl)

theorem CountInv.shift (hc : s.calls[c]? = some a) (hcas : t.calls = s.calls.set c b) (hopt : t.options = s.options)
    (hcre : t.creating + a.profile.reserved.toNat = s.creating + b.profile.reserved.toNat)
    (hact : t.statusCount .active + s.entries.length + a.profile.verifies.isSome.toNat =
      s.statusCount .active + t.entries.length + b.profile.verifies.isSome.toNat)
    (hret : t.statusCount .retired + s.retired.length = s.statusCount .retired + t.retired.length)
    (hbo : t.entries.length + t.retired.length + s.passes + b.profile.passed.toNat ≤ s.options.maxTenants + a.profile.passed.toNat) :
    CountInv t := by
  have hres := reservations_set hc hcas
  have hpa := passes_set hc hcas
  have hver := verifications_set hc hcas
  simp only [Bool.toNat, Bool.cond_eq_ite] at hcre hact hbo
  have hcr := h.creating
  have ha := h.active
  have hr := h.retired
  exact ⟨by omega, by omega, by omega, by rw [hopt]; omega⟩

theorem CountInv.turn (hc : s.calls[c]? = some a) (hres : a.profile.reserved = b.profile.reserved)
    (hpa : a.profile.passed = b.profile.passed) (hver : a.profile.verifies.isSome = b.profile.verifies.isSome) : CountInv (s.goto c b) := by
  refine h.shift hc rfl rfl (by rw [hres]; rfl) (by rw [hver]; rfl) rfl ?_
  rw [hpa]
  exact Nat.add_le_add_right h.bound _

theorem CountInv.spawn (hb : b.profile.reserved = false ∧ b.profile.passed = false ∧ b.profile.verifies = none) :
    CountInv (s.spawn b) := by
  have hres : (s.spawn b).reservations = s.reservations := by simp [Registry.reservations, Registry.spawn, hb.1]
  have hpa : (s.spawn b).passes = s.passes := by simp [Registry.passes, Registry.spawn, hb.2.1]
  have hver : (s.spawn b).verifications = s.verifications := by simp [Registry.verifications, Registry.spawn, hb.2.2]
  exact ⟨hres ▸ h.creating, hver ▸ h.active, h.retired, hpa ▸ h.bound⟩

end

/-! ## 一手 -/

theorem statusCount_retired (he : s.backends[id]? = some entry) (hph : entry.phase = .active)
    (hb : t.backends = s.backends.set id { entry with phase := if entry.leases = 0 then .ready else .draining }) :
    t.statusCount .active + 1 = s.statusCount .active ∧ t.statusCount .retired = s.statusCount .retired + 1 := by
  have h1 := statusCount_set .active he hb
  have h2 := statusCount_set .retired he hb
  simp only [status_active.mpr hph, MapInv.retired_status, if_true, reduceCtorEq, if_false] at h1 h2
  exact ⟨h1, h2⟩

theorem CountInv.retire (h : CountInv s) (hmap : MapInv s) (hm : (ref, id) ∈ s.entries) : CountInv (s.retireEntry id) := by
  obtain ⟨entry, he, href, hph, hs⟩ := hmap.retire_eq hm
  obtain ⟨h1, h2⟩ := statusCount_retired (t := s.retireEntry id) he hph (by rw [hs]; rfl)
  have hent : (s.retireEntry id).entries.length + 1 = s.entries.length := by rw [hs]; exact length_filter_key hmap.keys hm
  have hret : (s.retireEntry id).retired.length = s.retired.length + 1 := by rw [hs]; simp
  have ha := h.active
  have hr := h.retired
  have hb := h.bound
  refine ⟨?_, ?_, by omega, ?_⟩
  · rw [hs]
    exact h.creating
  · have hver : (s.retireEntry id).verifications = s.verifications := by rw [hs]; rfl
    omega
  · have hpa : (s.retireEntry id).passes = s.passes := by rw [hs]; rfl
    have hopt : (s.retireEntry id).options = s.options := by rw [hs]; rfl
    rw [hopt]
    omega

section

variable (h : CountInv s) (hmap : MapInv s) (hc : s.calls[c]? = some (.acquire ref (.verifying fingerprint id)))

include h hmap hc

theorem CountInv.discard : CountInv (s.discard c ref id) := by
  obtain ⟨entry, he, href, hph, hs⟩ := hmap.discarded hc
  obtain ⟨h1, h2⟩ := statusCount_retired (t := s.discard c ref id) he hph (by rw [hs]; rfl)
  have hret : (s.discard c ref id).retired.length = s.retired.length + 1 := by
    rw [hs]
    exact length_append
  have hent : (s.discard c ref id).entries = s.entries := by rw [hs]; rfl
  have hcre : (s.discard c ref id).creating = s.creating - 1 := by rw [hs]; rfl
  have hpos := reservations_pos hc rfl
  have hcr := h.creating
  have hb := h.bound
  refine h.shift hc (b := .acquire ref (.discarding id)) (by rw [hs]; rfl) (by rw [hs]; rfl) ?_ ?_ (by omega) ?_
  · show (s.discard c ref id).creating + 1 = s.creating + 0
    omega
  · show (s.discard c ref id).statusCount .active + s.entries.length + 1 = s.statusCount .active + (s.discard c ref id).entries.length + 0
    rw [hent]
    omega
  · show (s.discard c ref id).entries.length + _ + s.passes + 0 ≤ s.options.maxTenants + 1
    rw [hent]
    omega

theorem CountInv.install : CountInv (s.install c ref id) := by
  have hent : (s.install c ref id).entries.length = s.entries.length + 1 := by
    rw [(hmap.install_eq hc).2]
    exact length_append
  have hpos := reservations_pos hc rfl
  have hcr := h.creating
  have hb := h.bound
  refine h.shift hc rfl rfl ?_ ?_ rfl ?_
  · show s.creating - 1 + 1 = s.creating + 0
    omega
  · show s.statusCount .active + s.entries.length + 1 = s.statusCount .active + (s.install c ref id).entries.length + 0
    omega
  · show (s.install c ref id).entries.length + s.retired.length + s.passes + 0 ≤ s.options.maxTenants + 1
    omega

end

theorem CountInv.create (h : CountInv s) (cleanup)
    (hc : s.calls[c]? = some (.acquire ref (.creatingBackend fingerprint))) : CountInv (s.backendCreated c ref fingerprint cleanup) := by
  have h1 : (s.backendCreated c ref fingerprint cleanup).statusCount .active = s.statusCount .active + 1 := by
    simp [Registry.statusCount, Registry.backendCreated, Registry.goto, TenantCacheEntry.status]
  have h2 : (s.backendCreated c ref fingerprint cleanup).statusCount .retired = s.statusCount .retired := by
    simp [Registry.statusCount, Registry.backendCreated, Registry.goto, TenantCacheEntry.status]
  refine h.shift hc rfl rfl rfl ?_ (by rw [h2]; rfl) (Nat.add_le_add_right h.bound 1)
  rw [h1]
  show s.statusCount .active + 1 + s.entries.length + 0 = s.statusCount .active + s.entries.length + 1
  omega

theorem CountInv.closeDone (h : CountInv s) (hmap : MapInv s) (id ok) : CountInv (s.closeDone id ok) := by
  rcases closeDone_cases (s := s) id ok with hs | ⟨entry, he, hp, hs | hs⟩
  · rwa [hs]
  · have hold : entry.status = .retired := by simp [TenantCacheEntry.status, hp]
    have hmem : id ∈ s.retired := (hmap.retired id).mpr ⟨entry.ref, by rw [view_eq he, hold]⟩
    have hb : (s.setEntry id { entry with phase := .closed }).backends = s.backends.set id { entry with phase := .closed } := rfl
    have h1 := statusCount_set .active he hb
    have h2 := statusCount_set .retired he hb
    have hnew : ({ entry with phase := .closed } : TenantCacheEntry).status = .closed := rfl
    simp only [hold, hnew, if_true, reduceCtorEq, if_false] at h1 h2
    have hlen := length_erase_of_mem hmem
    have hpos := length_pos_of_mem hmem
    have hr := h.retired
    have hb := h.bound
    rw [hs]
    refine ⟨h.creating, h1.trans h.active, ?_, ?_⟩
    · show (s.setEntry id { entry with phase := .closed }).statusCount .retired = (s.retired.erase id).length
      omega
    · show s.entries.length + (s.retired.erase id).length + s.passes ≤ s.options.maxTenants
      omega
  · rw [hs]
    exact h.setEntry he (by simp [TenantCacheEntry.status, hp])

theorem Move.counts (hm : Move G s t) (hmap : MapInv s) (h : CountInv s) : CountInv t := by
  cases hm with
  | tick => exact h.congr rfl rfl rfl rfl (fun _ => rfl) rfl
  | retire hmem => exact h.retire hmap hmem
  | goto hc hsa => exact h.turn hc (by rw [hsa]) (by rw [hsa]) (by rw [hsa])
  | enter hc hpr hb => exact h.turn hc (by rw [hb]; rfl) (by rw [hb]; rfl) (by rw [hb]; rfl)
  | @reserve c ref a b hc ha hb hcl hfr hcap =>
    refine h.shift (a := a) (b := b) hc rfl rfl (by rw [ha, hb]; rfl) (by rw [ha, hb]; rfl) rfl ?_
    rw [ha]
    cases hbp : b.profile.passed with
    | false => exact h.bound
    | true =>
      have hle := passes_le (s := s)
      have hcr := h.creating
      have := hcap hbp
      show s.entries.length + s.retired.length + s.passes + 1 ≤ s.options.maxTenants + 0
      omega
  | @pass c ref a b hc ha hb hcl hcap =>
    refine h.shift (a := a) (b := b) hc rfl rfl (by rw [ha, hb]; rfl) (by rw [ha, hb]; rfl) rfl ?_
    have hlt := passes_lt hc (by rw [ha]) (by rw [ha]; rfl)
    have hcr := h.creating
    rw [ha, hb]
    show s.entries.length + s.retired.length + s.passes + 1 ≤ s.options.maxTenants + 0
    omega
  | @unreserve c ref a b hc ha hb hcl =>
    have hpos := reservations_pos hc (by rw [ha])
    have hcr := h.creating
    refine h.shift (t := s.unreserve.goto c b) hc rfl rfl ?_ (by rw [ha, hb]; rfl) rfl ?_
    · rw [ha, hb]
      show s.creating - 1 + 1 = s.creating + 0
      omega
    · rw [hb]
      exact Nat.le_add_right_of_le h.bound
  | create cleanup hc => exact h.create cleanup hc
  | discard hc => exact h.discard hmap hc
  | install hc => exact h.install hmap hc
  | @share c ref id a b usedAt hc ha hb =>
    exact (h.lease id usedAt).turn (a := a) (by rw [(lease_calls id usedAt).1]; exact hc) (by rw [hb]) (by rw [hb]) (by rw [hb])
  | @count c ref id hc =>
    exact (h.lease id _).turn (a := .acquire ref (.installed id)) (by rw [(lease_calls id _).1]; exact hc) rfl rfl rfl
  | @unlock c ref a b hc ha hb =>
    have hs : CountInv (s.unlock c ref) := h.congr rfl rfl rfl rfl (fun _ => rfl) rfl
    exact hs.turn hc (by rw [ha, hb]; rfl) (by rw [ha, hb]; rfl) (by rw [ha, hb]; rfl)
  | @drop c id a b hc ha hb =>
    exact (h.release id).turn (a := a) (by rw [(releaseEntry_calls id).1]; exact hc) (by rw [ha, hb]) (by rw [ha, hb]) (by rw [ha, hb])
  | spawn hb => exact h.spawn (by rw [hb]; exact ⟨rfl, rfl, rfl⟩)
  | shutdown =>
    have hs : CountInv { s with shuttingDown := true } := h.congr rfl rfl rfl rfl (fun _ => rfl) rfl
    exact hs.spawn ⟨rfl, rfl, rfl⟩
  | register hdo =>
    rw [acquire_eq hdo]
    exact (h.spawn ⟨rfl, rfl, rfl⟩).congr rfl rfl rfl rfl (fun _ => rfl) rfl
  | callClose id =>
    rcases callClose_cases (s := s) id with hs | ⟨entry, he, hp, hs⟩
    · rwa [hs]
    · rw [hs]
      exact h.setEntry he (by simp [TenantCacheEntry.status, hp])
  | closeDone id ok => exact h.closeDone hmap id ok

/-! ## 借り手の数と片付け -/

variable {id' : EntryId}

def Registry.holders (s : Registry) (id : EntryId) : ℕ := s.calls.countP fun call => call.profile.holds = some id

def ClosePhase.called : ClosePhase → Bool
  | .closing | .closed | .failed => true
  | _ => false

structure LeaseInv (s : Registry) : Prop where
  leases : ∀ (id : EntryId) (entry : TenantCacheEntry), s.backends[id]? = some entry → entry.leases = s.holders id
  closes : ∀ (id : EntryId) (entry : TenantCacheEntry), s.backends[id]? = some entry → entry.closeCalls = if entry.phase.called then 1 else 0

/-! ## 数の変わり方 -/

theorem holders_set (id) (hc : s.calls[c]? = some a) (hcas : t.calls = s.calls.set c b) :
    t.holders id + (if a.profile.holds = some id then 1 else 0) = s.holders id + (if b.profile.holds = some id then 1 else 0) := by
  rw [Registry.holders, hcas]
  simpa [Registry.holders] using countP_set_add (p := fun call : Call => call.profile.holds = some id) (b := b) hc

section

variable (h : LeaseInv s)

include h

theorem LeaseInv.held (hmap : MapInv s) (hb : b ∈ s.calls) (hho : b.profile.holds = some id) :
    ∃ entry, s.backends[id]? = some entry ∧ 0 < entry.leases := by
  have hv := (hmap.calls b hb).holds id hho
  cases he : s.backends[id]? with
  | none => simp [Registry.view, he] at hv
  | some entry =>
    have hpos : 0 < s.holders id := countP_pos_iff.mpr ⟨b, hb, by simp [hho]⟩
    exact ⟨entry, rfl, h.leases id entry he ▸ hpos⟩

theorem LeaseInv.congr (hba : t.backends = s.backends) (hcas : t.calls = s.calls) : LeaseInv t where
  leases := by
    intro id entry he
    rw [Registry.holders, hcas]
    exact h.leases id entry (hba ▸ he)
  closes := fun id entry he => h.closes id entry (hba ▸ he)

theorem LeaseInv.turn (hc : s.calls[c]? = some a) (hho : b.profile.holds = a.profile.holds) : LeaseInv (s.goto c b) where
  leases := by
    intro id entry he
    have hset := holders_set id (t := s.goto c b) hc rfl
    rw [hho] at hset
    rw [Nat.add_right_cancel hset]
    exact h.leases id entry he
  closes := h.closes

theorem LeaseInv.spawn (hb : b.profile.holds = none) : LeaseInv (s.spawn b) where
  leases := by
    intro id entry he
    have hh : (s.spawn b).holders id = s.holders id := by simp [Registry.holders, Registry.spawn, hb]
    rw [hh]
    exact h.leases id entry he
  closes := h.closes

theorem LeaseInv.setEntry (he : s.backends[id]? = some entry) (hb : t.backends = s.backends.set id entry')
    (hcas : t.calls = s.calls) (hles : entry'.leases = entry.leases)
    (hcls : entry'.closeCalls + (if entry.phase.called then 1 else 0) = entry.closeCalls + (if entry'.phase.called then 1 else 0)) :
    LeaseInv t := by
  have hold := h.closes id entry he
  constructor
  · intro id' e he'
    have hh : t.holders id' = s.holders id' := by rw [Registry.holders, hcas]; rfl
    rw [hh]
    rw [hb, getElem?_set_of he] at he'
    by_cases heq : id = id'
    · subst heq
      rw [if_pos rfl] at he'
      cases he'
      rw [hles]
      exact h.leases id entry he
    · rw [if_neg heq] at he'
      exact h.leases id' e he'
  · grind [h.closes, getElem?_set_of, id]

theorem LeaseInv.exchange (he : s.backends[id]? = some entry) (hc : s.calls[c]? = some a)
    (hb : t.backends = s.backends.set id entry') (hcas : t.calls = s.calls.set c b)
    (hot : ∀ id', id ≠ id' → (a.profile.holds = some id' ↔ b.profile.holds = some id'))
    (hles : entry'.leases + (if a.profile.holds = some id then 1 else 0) = entry.leases + (if b.profile.holds = some id then 1 else 0))
    (hcls : entry'.closeCalls = entry.closeCalls ∧ entry'.phase.called = entry.phase.called) : LeaseInv t := by
  constructor
  · intro id' e he'
    have hset := holders_set id' hc hcas
    rw [hb, getElem?_set_of he] at he'
    by_cases heq : id = id'
    · subst heq
      rw [if_pos rfl] at he'
      cases he'
      have hold := h.leases id entry he
      omega
    · grind [h.leases]
  · grind [h.closes, getElem?_set_of, id]

end

theorem lease_eq (he : s.backends[id]? = some entry) (usedAt) :
    s.lease id usedAt = s.setEntry id { entry with leases := entry.leases + 1, lastUsedAt := usedAt entry } := by
  rw [Registry.lease, he]

theorem release_eq (he : s.backends[id]? = some entry) : s.releaseEntry id = s.setEntry id { entry with
    leases := entry.leases - 1
    lastUsedAt := s.now
    phase := if entry.leases - 1 = 0 ∧ entry.phase = .draining then .ready else entry.phase } := by
  rw [Registry.releaseEntry, he]

theorem released_called : (if entry.leases - 1 = 0 ∧ entry.phase = .draining then ClosePhase.ready else entry.phase).called = entry.phase.called := by
  by_cases h : entry.leases - 1 = 0 ∧ entry.phase = .draining
  · rw [if_pos h, h.2]
    rfl
  · rw [if_neg h]

theorem retired_called : (if entry.leases = 0 then ClosePhase.ready else .draining).called = false := by
  split <;> rfl

theorem LeaseInv.retire (h : LeaseInv s) (he : s.backends[id]? = some entry) (hph : entry.phase = .active)
    (hb : t.backends = s.backends.set id { entry with phase := if entry.leases = 0 then .ready else .draining }) (hcas : t.calls = s.calls) :
    LeaseInv t := by
  apply h.setEntry he hb hcas rfl
  rw [hph, retired_called]
  rfl

/-! ## 一手 -/

theorem Move.leases (hm : Move G s t) (hmap : MapInv s) (h : LeaseInv s) : LeaseInv t := by
  cases hm with
  | tick => exact h.congr rfl rfl
  | retire hmem =>
    obtain ⟨entry, he, _, hph, hs⟩ := hmap.retire_eq hmem
    exact h.retire he hph (by rw [hs]; rfl) (retireEntry_calls _).1
  | goto hc hsa => exact h.turn hc (by rw [hsa])
  | enter hc hpr hb => exact h.turn hc (by rw [hb]; rfl)
  | @reserve c ref a b hc ha hb =>
    exact LeaseInv.turn (s := { s with creating := s.creating + 1 }) (h.congr rfl rfl) hc (by rw [ha, hb])
  | pass hc ha hb => exact h.turn hc (by rw [ha, hb])
  | @unreserve c ref a b hc ha hb => exact LeaseInv.turn (s := s.unreserve) (h.congr rfl rfl) hc (by rw [ha, hb])
  | @create c ref fingerprint cleanup hc =>
    have hcas : (s.backendCreated c ref fingerprint cleanup).calls =
        s.calls.set c (.acquire ref (.verifying fingerprint s.backends.length)) := rfl
    have hnew : s.holders s.backends.length = 0 := by
      rw [Registry.holders, countP_eq_zero]
      intro call hca hhls
      exact (hmap.calls call hca).holds _ (by simpa using hhls) (by simp [Registry.view])
    have hhos : ∀ id, (s.backendCreated c ref fingerprint cleanup).holders id = s.holders id := by
      intro id
      simpa [Call.profile] using holders_set id hc hcas
    have hat : ∀ id entry, (s.backendCreated c ref fingerprint cleanup).backends[id]? = some entry →
        s.backends[id]? = some entry ∨ (id = s.backends.length ∧ entry.leases = 0 ∧ entry.closeCalls = 0 ∧ entry.phase = .active) := by
      intro id entry he
      rw [Registry.backendCreated, Registry.goto] at he
      rcases Nat.lt_trichotomy id s.backends.length with hlt | rfl | hgt
      · rw [getElem?_append_left hlt] at he
        exact Or.inl he
      · grind
      · rw [getElem?_eq_none_iff.mpr (by rw [length_append]; exact hgt)] at he
        cases he
    constructor
    · grind [h.leases]
    · intro id entry he
      rcases hat id entry he with hold | ⟨_, _, hcc, hp⟩
      · exact h.closes id entry hold
      · rw [hcc, hp]
        rfl
  | discard hc =>
    obtain ⟨entry, he, _, hph, hs⟩ := hmap.discarded hc
    rw [hs]
    exact LeaseInv.turn (h.retire he hph rfl rfl) hc rfl
  | @install c ref fingerprint id hc =>
    exact LeaseInv.turn (s := { s.unreserve with entries := s.mapSet ref id }) (h.congr rfl rfl) hc rfl
  | @share c ref id a b usedAt hc ha hb hpl hcl hmem =>
    obtain ⟨entry, he, _⟩ := entry_of_view (hmap.active ref id hmem)
    rw [lease_eq he]
    refine h.exchange he hc rfl rfl (fun id' hne => ?_) ?_ ⟨rfl, rfl⟩
    · rw [ha, hb]
      simp [hne]
    · rw [ha, hb]
      simp
  | @count c ref id hc =>
    obtain ⟨r, status, _, hv⟩ := (hmap.calls _ (mem_of_getElem? hc)).uncounted id rfl
    obtain ⟨entry, he, _⟩ := entry_of_view hv
    rw [lease_eq he]
    refine h.exchange he hc rfl rfl (fun id' hne => ?_) ?_ ⟨rfl, rfl⟩
    · simp [Call.profile, hne]
    · simp [Call.profile]
  | @unlock c ref a b hc ha hb =>
    exact LeaseInv.turn (s := s.unlock c ref) (h.congr rfl rfl) hc (by rw [hb])
  | @drop c id a b hc ha hb =>
    obtain ⟨entry, he, hpos⟩ := h.held hmap (mem_of_getElem? hc) (by rw [ha])
    rw [release_eq he]
    refine h.exchange he hc rfl rfl (fun id' hne => ?_) ?_ ⟨rfl, released_called⟩
    · rw [ha, hb]
      simp [hne]
    · rw [ha, hb]
      simpa using Nat.sub_add_cancel hpos
  | spawn hb => exact h.spawn (by rw [hb])
  | shutdown => exact LeaseInv.spawn (s := { s with shuttingDown := true }) (h.congr rfl rfl) rfl
  | register hdo =>
    rw [acquire_eq hdo]
    exact (h.spawn rfl).congr rfl rfl
  | callClose id =>
    rcases callClose_cases (s := s) id with hs | ⟨entry, he, hp, hs⟩
    · rwa [hs]
    · rw [hs]
      exact h.setEntry he rfl rfl rfl (by rw [hp]; rfl)
  | closeDone id ok =>
    rcases closeDone_cases (s := s) id ok with hs | ⟨entry, he, hp, hs | hs⟩
    · rwa [hs]
    · rw [hs]
      exact h.setEntry he rfl rfl rfl (by rw [hp]; rfl)
    · rw [hs]
      exact h.setEntry he rfl rfl rfl (by rw [hp]; rfl)

end Supacloud.TenantCache
