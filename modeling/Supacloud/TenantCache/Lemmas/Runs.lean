import Supacloud.TenantCache.Lemmas.Leases

/-!
# 一歩は一手の列

引退が先で、呼び出しの進みが後である。
-/

namespace Supacloud.TenantCache

open Library Relation.ReflTransGen Registry Call List Option

variable {s t u : Registry} {c : CallId} {a b : Call} {ref : Ref} {id id' : EntryId} {ids visited : List EntryId} {entry : TenantCacheEntry}
  {fingerprint : Fingerprint} {G : Prop}

theorem Moves.trans (h : Moves G s t) (h' : Moves G t u) : Moves G s u := Relation.ReflTransGen.trans h h'

theorem Moves.then (h : Moves G s t) (h' : Move G t u) : Moves G s u := tail h h'

theorem mem_liveEntries {e} (h : e ∈ s.liveEntries) : ∃ ref, (ref, e.1) ∈ s.entries := by
  obtain ⟨⟨ref, id⟩, hmem, heq⟩ := mem_filterMap.mp h
  obtain ⟨entry, _, rfl⟩ := map_eq_some_iff.mp heq
  exact ⟨ref, hmem⟩

theorem mem_stale (h : id ∈ s.stale) : ∃ ref, (ref, id) ∈ s.entries := by
  obtain ⟨e, he, rfl⟩ := mem_map.mp h
  exact mem_liveEntries (mem_filter.mp he).1

theorem mem_oldest (h : s.oldest = some id) : ∃ ref, (ref, id) ∈ s.entries := by
  obtain ⟨e, he, rfl⟩ := map_eq_some_iff.mp h
  have hmem := (perm_insertionSort _ _).mem_iff.mp (mem_of_mem_head? he)
  exact mem_liveEntries (mem_filter.mp hmem).1

theorem mem_nextExpiry (h : s.nextExpiry visited = some id) : ∃ ref, (ref, id) ∈ s.entries := by
  obtain ⟨e, he, rfl⟩ := map_eq_some_iff.mp h
  exact mem_liveEntries (mem_of_find?_eq_some he)

theorem existing_some (h : s.existing ref = some (id, entry)) : (ref, id) ∈ s.entries ∧ s.backends[id]? = some entry := by
  obtain ⟨id', hl, heq⟩ := bind_eq_some_iff.mp h
  obtain ⟨entry', he, hp⟩ := map_eq_some_iff.mp heq
  cases hp
  exact ⟨mem_of_lookup hl, he⟩

theorem existing_none (hmap : MapInv s) (h : s.existing ref = none) : s.entries.lookup ref = none := by
  cases hl : s.entries.lookup ref with
  | none => rfl
  | some id =>
    obtain ⟨entry, he, _⟩ := entry_of_view (hmap.active ref id (mem_of_lookup hl))
    simp [existing, hl, he] at h

/-! ## 引退 -/

theorem retireEntry_again {status} (hv : s.view id = some (ref, status)) (hne : status ≠ .active) : s.retireEntry id = s := by
  obtain ⟨entry, he, _, rfl⟩ := entry_of_view hv
  have hph : entry.phase ≠ .active := fun hp => hne (status_active.mpr hp)
  rw [retireEntry, he]
  simp [TenantCacheEntry.retiring, hph]

theorem mem_retired_entries (hmap : MapInv s) (hm : (ref, id) ∈ s.entries) {e} :
    e ∈ (s.retireEntry id).entries ↔ e ∈ s.entries ∧ e.1 ≠ ref := by
  obtain ⟨entry, _, _, _, hs⟩ := hmap.retire_eq hm
  rw [hs]
  simp

theorem lookup_retired (hmap : MapInv s) (hm : (ref, id) ∈ s.entries) {r} :
    (s.retireEntry id).entries.lookup r = if r = ref then none else s.entries.lookup r := by
  obtain ⟨entry, _, _, _, hs⟩ := hmap.retire_eq hm
  rw [hs]
  exact lookup_filter_key hmap.keys

def Registry.Retirable (s : Registry) (id : EntryId) : Prop :=
  (∃ ref, (ref, id) ∈ s.entries) ∨ ∃ ref status, s.view id = some (ref, status) ∧ status ≠ .active

theorem Registry.Retirable.retire (hmap : MapInv s) (hm : (ref, id) ∈ s.entries) (h : s.Retirable id') : (s.retireEntry id).Retirable id' := by
  obtain ⟨entry, he, href, _, hs⟩ := hmap.retire_eq hm
  have hvi : (s.retireEntry id).view id' = if id = id' then some (entry.ref, .retired) else s.view id' := by
    rw [hs]
    exact MapInv.view_retired he rfl
  by_cases heq : id = id'
  · rw [if_pos heq] at hvi
    exact Or.inr ⟨_, _, hvi, by decide⟩
  · rw [if_neg heq] at hvi
    rcases h with ⟨ref', hm'⟩ | ⟨ref', status, hv, hne⟩
    · refine Or.inl ⟨ref', (mem_retired_entries hmap hm).mpr ⟨hm', ?_⟩⟩
      rintro rfl
      exact heq (eq_of_mem_keys hmap.keys hm hm')
    · exact Or.inr ⟨ref', status, hvi.trans hv, hne⟩

theorem retireAll_moves (hmap : MapInv s) (hids : ∀ id ∈ ids, s.Retirable id) : Moves G s (s.retireAll ids) := by
  induction ids generalizing s with
  | nil => exact refl
  | cons id ids ih =>
    show Moves G s ((s.retireEntry id).retireAll ids)
    rcases hids id mem_cons_self with ⟨ref, hm⟩ | ⟨ref, status, hv, hne⟩
    · have hm1 : Move G s (s.retireEntry id) := .retire hm
      refine (Moves.single hm1).trans (ih (hmap.retire hm) fun id' hid' => ?_)
      exact (hids id' (mem_cons_of_mem _ hid')).retire hmap hm
    · grind [retireEntry_again]

theorem retireAll_calls : (s.retireAll ids).calls = s.calls ∧ (s.retireAll ids).tenantLocks = s.tenantLocks ∧
    (s.retireAll ids).shuttingDown = s.shuttingDown := by
  induction ids generalizing s with
  | nil => exact ⟨rfl, rfl, rfl⟩
  | cons id ids ih =>
    obtain ⟨h1, h2, h3⟩ := retireEntry_calls (s := s) id
    obtain ⟨h4, h5, h6⟩ := ih (s := s.retireEntry id)
    exact ⟨h4.trans h1, h5.trans h2, h6.trans h3⟩

theorem stale_moves (hmap : MapInv s) : Moves G s (s.retireAll s.stale) := retireAll_moves hmap fun _ h => Or.inl (mem_stale h)

/-! ## 予約と空き -/

theorem retireEntry_creating (n) : ({ s with creating := n } : Registry).retireEntry id = { s.retireEntry id with creating := n } := by
  unfold retireEntry
  dsimp only
  cases s.backends[id]? with
  | none => rfl
  | some entry =>
    dsimp only
    split <;> rfl

theorem notOver (h : s.overCapacity = false) : s.entries.length + s.retired.length + s.creating ≤ s.options.maxTenants := by
  simpa [overCapacity] using h

theorem reserve_moves (hmap : MapInv s) (hc : s.calls[c]? = some a) (ha : a.profile = .within ref) (hfr : s.entries.lookup ref = none) :
    Moves G s (s.reserve c ref fingerprint) := by
  unfold reserve evictForCapacity
  cases hov : ({ s with creating := s.creating + 1 } : Registry).overCapacity with
  | false =>
    apply Moves.single
    exact .reserve hc ha rfl rfl hfr fun _ => notOver hov
  | true =>
    cases ho : ({ s with creating := s.creating + 1 } : Registry).oldest with
    | none =>
      apply Moves.single
      exact .reserve hc ha rfl rfl hfr nofun
    | some oldest =>
      obtain ⟨r, hm⟩ := mem_oldest ho
      have hret : Move G s (s.retireEntry oldest) := .retire hm
      refine (Moves.single hret).then ?_
      have hfr' : (s.retireEntry oldest).entries.lookup ref = none := by
        rw [lookup_retired hmap hm]
        split
        · rfl
        · exact hfr
      have hco : (s.retireEntry oldest).creating = s.creating := by
        obtain ⟨_, _, _, _, hs⟩ := hmap.retire_eq hm
        rw [hs]
        rfl
      have hgo : Move G (s.retireEntry oldest)
          ({ s.retireEntry oldest with creating := (s.retireEntry oldest).creating + 1 }.goto c (.acquire ref (.evicting fingerprint oldest))) :=
        .reserve (by rw [(retireEntry_calls oldest).1]; exact hc) ha rfl rfl hfr' nofun
      rw [hco] at hgo
      simp only [if_true, retireEntry_creating]
      exact hgo

section

variable (hmap : MapInv s) (hc : s.calls[c]? = some (.acquire ref .loading))

include hmap hc

theorem replaceEntry_moves : Moves G s (s.replaceEntry c ref fingerprint) := by
  unfold replaceEntry
  cases hex : s.existing ref with
  | none => exact reserve_moves hmap hc rfl (existing_none hmap hex)
  | some found =>
    obtain ⟨id, entry⟩ := found
    obtain ⟨hm, _⟩ := existing_some hex
    have hret : Move G s (s.retireEntry id) := .retire hm
    have hc' : (s.retireEntry id).calls[c]? = some (.acquire ref .loading) := by rw [(retireEntry_calls id).1]; exact hc
    have hfr : (s.retireEntry id).entries.lookup ref = none := by rw [lookup_retired hmap hm, if_pos rfl]
    by_cases hles : entry.leases = 0
    · simp only [if_pos hles]
      refine (Moves.single hret).then ?_
      refine .goto hc' rfl rfl ?_
      rintro r heq
      cases heq
      exact hfr
    · simp only [if_neg hles]
      exact (Moves.single hret).trans (reserve_moves (hmap.retire hm) hc' rfl hfr)

theorem configLoaded_moves : Moves G s (s.configLoaded c ref fingerprint) := by
  unfold configLoaded
  by_cases hdo : s.shuttingDown = true
  · rw [if_pos hdo]
    exact Moves.single (.goto hc rfl rfl nofun)
  · rw [if_neg hdo]
    cases hex : s.existing ref with
    | none => exact replaceEntry_moves hmap hc
    | some found =>
      obtain ⟨id, entry⟩ := found
      by_cases hsa : entry.fingerprint = fingerprint ∧ entry.retiring = false
      · simp only [if_pos hsa]
        exact Moves.single (.share _ hc rfl rfl rfl rfl (existing_some hex).1)
      · simp only [if_neg hsa]
        exact replaceEntry_moves hmap hc

end

theorem evictForCapacity_moves {oldest} (hmap : MapInv s) (hc : s.calls[c]? = some (.acquire ref (.evicting fingerprint oldest))) :
    Moves G s (s.evictForCapacity c ref fingerprint) := by
  have hfr := (hmap.calls _ (mem_of_getElem? hc)).cleared ref rfl
  unfold evictForCapacity
  cases hov : s.overCapacity with
  | false => exact Moves.single (.pass hc rfl rfl rfl (notOver hov))
  | true =>
    cases ho : s.oldest with
    | none =>
      apply Moves.single
      refine .goto hc rfl rfl ?_
      rintro r heq
      cases heq
      exact hfr
    | some next =>
      obtain ⟨r, hm⟩ := mem_oldest ho
      refine (Moves.single (.retire hm)).then ?_
      refine .goto (a := .acquire ref (.evicting fingerprint oldest)) (by rw [(retireEntry_calls next).1]; exact hc) rfl rfl ?_
      rintro r' heq
      cases heq
      rw [lookup_retired hmap hm]
      split
      · rfl
      · exact hfr

/-! ## 呼び出しの一歩 -/

theorem awaitClosed_moves {rejected next} (hr : Moves G s rejected) (hn : Moves G s next) :
    Moves G s (s.awaitClosed ids rejected next) := by
  unfold awaitClosed
  split
  · exact hr
  · split
    · exact hn
    · exact refl

theorem enterOperation_moves {previous} (hmap : MapInv s) (hc : s.calls[c]? = some (.acquire ref (.waiting previous)))
    (hpr : previous.all s.lockReleased = true) : Moves G s (s.enterOperation c ref) := by
  unfold enterOperation
  cases hdo : s.shuttingDown with
  | true => exact Moves.single (.enter hc hpr rfl rfl rfl)
  | false =>
    have hrel : ∀ p, (s.retireAll s.stale).lockReleased p = s.lockReleased p := by
      intro p
      simp [lockReleased, retireAll_calls.1]
    apply (stale_moves hmap).then
    apply Move.enter (by rw [retireAll_calls.1]; exact hc) _ rfl rfl rfl
    simpa [funext hrel] using hpr

def Call.settling : Call → Bool
  | .acquire _ (.installed _) | .acquire _ (.counted _) | .acquire _ .failing => true
  | _ => false

theorem resumeAcquire_moves {pc outcome} (hmap : MapInv s) (hc : s.calls[c]? = some (.acquire ref pc))
    (hG : (Call.acquire ref pc).settling = true → G) : Moves G s (s.resumeAcquire c ref pc outcome) := by
  have hst : Moves G s s := refl
  cases pc with
  | waiting previous =>
    show Moves G s (if previous.all s.lockReleased then s.enterOperation c ref else s)
    split
    · rename_i hpr
      exact enterOperation_moves hmap hc hpr
    · exact hst
  | sweeping stale =>
    exact awaitClosed_moves (Moves.single (.goto hc rfl rfl nofun)) (Moves.single (.goto hc rfl rfl nofun))
  | loading =>
    cases outcome with
    | config fingerprint => exact configLoaded_moves hmap hc
    | rejected => exact Moves.single (.goto hc rfl rfl nofun)
    | _ => exact hst
  | awaitingExisting fingerprint existing =>
    exact awaitClosed_moves (Moves.single (.goto hc rfl rfl nofun))
      (reserve_moves hmap hc rfl ((hmap.calls _ (mem_of_getElem? hc)).cleared ref rfl))
  | evicting fingerprint oldest =>
    have hfr := (hmap.calls _ (mem_of_getElem? hc)).cleared ref rfl
    refine awaitClosed_moves (Moves.single (.goto hc rfl rfl ?_)) (evictForCapacity_moves hmap hc)
    rintro r heq
    cases heq
    exact hfr
  | evicted fingerprint =>
    apply Moves.single
    refine .goto hc rfl rfl ?_
    rintro r heq
    cases heq
    exact (hmap.calls _ (mem_of_getElem? hc)).cleared ref rfl
  | evictFailed => exact Moves.single (.unreserve hc rfl rfl rfl)
  | creatingBackend fingerprint =>
    cases outcome with
    | backend cleanup => exact Moves.single (.create cleanup hc)
    | rejected => exact Moves.single (.unreserve hc rfl rfl rfl)
    | _ => exact hst
  | verifying fingerprint id =>
    cases outcome with
    | config latest =>
      show Moves G s (if latest ≠ fingerprint ∨ s.shuttingDown then s.discard c ref id else s.install c ref id)
      split
      · exact Moves.single (.discard hc)
      · exact Moves.single (.install hc)
    | rejected => exact Moves.single (.discard hc)
    | _ => exact hst
  | discarding id =>
    have hfa : Moves G s (s.goto c (.acquire ref .failing)) := Moves.single (.goto hc rfl rfl nofun)
    exact awaitClosed_moves hfa hfa
  | installed id => exact Moves.single (.count hc (hG rfl))
  | counted id | failing => exact Moves.single (.unlock hc rfl rfl rfl rfl (hG rfl))
  | unlocked id =>
    show Moves G s (if s.shuttingDown then (s.releaseEntry id).goto c (.acquire ref .finished) else s.goto c (.acquire ref (.leased id)))
    split
    · exact Moves.single (.drop hc rfl rfl rfl rfl)
    · exact Moves.single (.goto hc rfl rfl nofun)
  | _ => exact hst

/-! ## 掃除と終了 -/

theorem expireNext_moves (visited) (hc : s.calls[c]? = some .done) : Moves G s (s.expireNext c visited) := by
  unfold expireNext
  cases hn : s.nextExpiry visited with
  | none => exact Moves.single (.goto hc rfl rfl nofun)
  | some id =>
    obtain ⟨ref, hm⟩ := mem_nextExpiry hn
    exact Moves.single (.share _ hc rfl rfl rfl rfl hm)

theorem expireNext_goto : (s.goto c a).expireNext c visited = s.expireNext c visited := by
  have hn : (s.goto c a).nextExpiry visited = s.nextExpiry visited := rfl
  unfold expireNext
  rw [hn]
  cases s.nextExpiry visited with
  | none => simp [goto]
  | some id =>
    cases he : s.backends[id]? <;> simp [lease, goto, setEntry, he]

theorem shutdownRetire_moves {locks} (hmap : MapInv s) (hc : s.calls[c]? = some (.shutdownLocks locks)) : Moves G s (s.shutdownRetire c) := by
  unfold shutdownRetire
  refine Moves.then (t := s.retireAll (s.entries.map Prod.snd ++ s.retired)) ?_ (.goto (a := .shutdownLocks locks) (by rw [retireAll_calls.1]; exact hc) rfl rfl nofun)
  refine retireAll_moves hmap fun id hid => ?_
  rcases mem_append.mp hid with hid | hid
  · obtain ⟨e, he, rfl⟩ := mem_map.mp hid
    exact Or.inl ⟨e.1, he⟩
  · obtain ⟨ref, hv⟩ := (hmap.retired id).mp hid
    exact Or.inr ⟨ref, _, hv, by decide⟩

/-! ## 出来事 -/

def Registry.settles (s : Registry) : Event → Bool
  | .resume c _ => (s.calls[c]?).any Call.settling
  | .callClose _ => true
  | _ => false

theorem step_moves {e} (hmap : MapInv s) (hG : s.settles e = true → G) : Moves G s (step s e) := by
  have hst : Moves G s s := refl
  cases e with
  | tick now => exact Moves.single (.tick now)
  | acquire ref =>
    cases hdo : s.shuttingDown with
    | false => exact Moves.single (.register hdo)
    | true =>
      show Moves G s (s.acquire ref)
      rw [Registry.acquire, if_pos hdo]
      exact hst
  | resume c outcome =>
    show Moves G s (s.resume c outcome)
    cases hc : s.calls[c]? with
    | none => simpa [resume, hc] using hst
    | some call =>
      simp only [resume, hc]
      cases call with
      | acquire ref pc => exact resumeAcquire_moves hmap hc fun hse => hG (by simpa [settles, hc] using hse)
      | idleSweep stale | shutdownClose all =>
        have hdn : Moves G s (s.goto c .done) := Moves.single (.goto hc rfl rfl nofun)
        exact awaitClosed_moves hdn hdn
      | expirySweep visited current =>
        have hdr : Move G s ((s.releaseEntry current).goto c .done) := .drop hc rfl rfl rfl rfl
        have hlt := (List.getElem?_eq_some_iff.mp hc).1
        have hc' : ((s.releaseEntry current).goto c .done).calls[c]? = some .done := by
          rw [goto, (releaseEntry_calls current).1, getElem?_set_self hlt]
        have hnx := expireNext_moves (G := G) (current :: visited) hc'
        rw [expireNext_goto] at hnx
        exact (Moves.single hdr).trans hnx
      | shutdownLocks locks =>
        dsimp only
        split
        · exact shutdownRetire_moves hmap hc
        · exact hst
      | done => exact hst
  | release c =>
    show Moves G s (s.release c)
    unfold release
    split
    · rename_i hc
      exact Moves.single (.drop hc rfl rfl rfl rfl)
    · exact hst
  | sweepIdle => exact (stale_moves hmap).then (.spawn rfl rfl rfl)
  | sweepExpired =>
    have hc : (s.spawn .done).calls[s.calls.length]? = some .done := by simp [spawn]
    exact (Moves.single (.spawn rfl rfl rfl)).trans (expireNext_moves [] hc)
  | shutdown => exact Moves.single .shutdown
  | callClose id => exact Moves.single (.callClose id (hG rfl))
  | closeDone id ok => exact Moves.single (.closeDone id ok)

/-! ## 走行 -/

structure RegistryInv (options : TenantCacheRegistryOptions) (s : Registry) : Prop where
  options : s.options = options
  locks : LockInv s
  entries : MapInv s
  counts : CountInv s
  leases : LeaseInv s

variable {options : TenantCacheRegistryOptions} {now : ℤ}

/-! ## 一手で保たれる -/

theorem retireEntry_options (id) : (s.retireEntry id).options = s.options := by
  unfold retireEntry
  split
  · rfl
  · split <;> rfl

theorem Move.options_eq (hm : Move G s t) : t.options = s.options := by
  cases hm with
  | retire | discard => exact retireEntry_options _
  | share | count => exact (lease_frame _ _).2
  | @drop c id =>
    show (s.releaseEntry id).options = s.options
    unfold releaseEntry
    split <;> rfl
  | register hdo => rw [acquire_eq hdo]; rfl
  | callClose id =>
    rcases callClose_cases (s := s) id with hs | ⟨_, _, _, hs⟩
    · rw [hs]
    · rw [hs]; rfl
  | closeDone id ok =>
    rcases closeDone_cases (s := s) id ok with hs | ⟨_, _, _, hs | hs⟩
    · rw [hs]
    · rw [hs]; rfl
    · rw [hs]; rfl
  | _ => rfl

theorem Move.inv (hm : Move G s t) (h : RegistryInv options s) : RegistryInv options t where
  options := hm.options_eq.trans h.options
  locks := hm.locks h.locks
  entries := hm.entries h.locks h.entries
  counts := hm.counts h.entries h.counts
  leases := hm.leases h.entries h.leases

theorem Moves.inv (hm : Moves G s t) (h : RegistryInv options s) : RegistryInv options t := by
  induction hm with
  | refl => exact h
  | tail _ hste ih => exact hste.inv ih

/-! ## 走行で保たれる -/

theorem RegistryInv.step {e} (h : RegistryInv options s) : RegistryInv options (step s e) :=
  (step_moves (G := True) h.entries fun _ => trivial).inv h

theorem RegistryInv.start : RegistryInv options (.start options now) where
  options := rfl
  locks := by
    constructor
    · rintro c c' ref _ ⟨call, hc, _⟩
      cases hc
    · intro ref l hl
      cases hl
    · rintro ref _ c ⟨call, hc, _⟩
      cases hc
    · intro locks hmem
      cases hmem
  entries := by
    constructor
    · exact nodup_nil
    · intro ref id hmem
      cases hmem
    · intro id
      constructor
      · nofun
      · rintro ⟨ref, hv⟩
        cases hv
    · exact nodup_nil
    · nofun
    · intro c c' a b id hc
      cases hc
  counts := ⟨rfl, rfl, rfl, Nat.zero_le _⟩
  leases := by
    constructor
    · intro id entry he
      cases he
    · intro id entry he
      cases he

theorem RegistryInv.reached {es} : RegistryInv options (run TenantCache.step (.start options now) es) :=
  run_invariant (fun _ _ => RegistryInv.step) .start

theorem closeCalls_le (h : LeaseInv s) (hmem : entry ∈ s.backends) : entry.closeCalls ≤ 1 := by
  obtain ⟨id, he⟩ := mem_iff_getElem?.mp hmem
  rw [h.closes id entry he]
  split <;> simp

/-! ## 枠 -/

theorem reserving_eq : b.reserving = b.profile.reserved := by
  cases b with
  | acquire ref pc => cases pc <;> rfl
  | _ => rfl

theorem reservationHolders_eq : s.reservationHolders = s.reservations :=
  congrArg (fun p => s.calls.countP p) (funext fun _ => reserving_eq)

theorem open_backends : (s.backends.countP fun entry => entry.phase ≠ .closed) = s.statusCount .active + s.statusCount .retired := by
  simp only [statusCount]
  induction s.backends with
  | nil => rfl
  | cons entry backends ih =>
    simp only [countP_cons, ih]
    cases hp : entry.phase <;> simp [TenantCacheEntry.status, hp] <;> omega

theorem building_verifying : s.calls.countP building + s.verifications ≤ s.passes :=
  countP_add_le (fun _ => building_passed) fun a ha => by
    obtain ⟨id, hid⟩ := isSome_iff_exists.mp ha
    exact verifies_passed hid

theorem liveBackends_le (h : CountInv s) : s.liveBackends ≤ s.options.maxTenants := by
  have hop := open_backends (s := s)
  have hbu := building_verifying (s := s)
  have ha := h.active
  have hr := h.retired
  have hb := h.bound
  rw [liveBackends, hop]
  omega

theorem liveBackends_quiet (h : CountInv s) (hqu : ∀ call ∈ s.calls, call.inProgress = false) :
    s.entries.length + s.retired.length + s.creating = s.liveBackends := by
  have hidl : ∀ call : Call, call.inProgress = false → call.building = false ∧ call.profile.reserved = false ∧ call.profile.verifies = none := by
    intro call hca
    cases call with
    | acquire ref pc => cases pc <;> simp_all [inProgress, building, profile]
    | _ => simp_all [inProgress, building, profile]
  have hbu : s.calls.countP building = 0 :=
    countP_eq_zero.mpr fun call hca => by simp [(hidl call (hqu call hca)).1]
  have hres : s.reservations = 0 := countP_eq_zero.mpr fun call hca => by simp [(hidl call (hqu call hca)).2.1]
  have hver : s.verifications = 0 := countP_eq_zero.mpr fun call hca => by simp [(hidl call (hqu call hca)).2.2]
  have hc := h.creating
  have ha := h.active
  have hr := h.retired
  rw [liveBackends, open_backends]
  omega

end Supacloud.TenantCache
