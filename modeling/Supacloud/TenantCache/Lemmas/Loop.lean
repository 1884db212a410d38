import Supacloud.TenantCache.Lemmas.Runs

/-!
# 待ち行列と貸し出し

引退して片付けの続きを待つ項目の借り手は、錠を放す続きを待ち、その続きは `close()` を呼ぶ続きより後に並ぶ。
-/

namespace Supacloud.TenantCache

open Library Registry Call List

variable {s t u : Registry} {c : CallId} {a b : Call} {ref : Ref} {id : EntryId} {entry entry' : TenantCacheEntry} {e : Event}
  {options : TenantCacheRegistryOptions} {now : ℤ}

/-! ## 項目と借り手の残り方 -/

structure EntriesKept (s t : Registry) : Prop where
  closes : ∀ (id : EntryId) entry, s.backends[id]? = some entry →
    ∃ entry', t.backends[id]? = some entry' ∧ entry'.closeCalls = entry.closeCalls
  ready : ∀ id, t.phaseIs .ready id = true → s.phaseIs .ready id = true ∨ ∃ entry, t.backends[id]? = some entry ∧ entry.leases = 0

theorem phaseIs_iff {phase} : s.phaseIs phase id = true ↔ ∃ entry, s.backends[id]? = some entry ∧ entry.phase = phase := by
  simp [phaseIs, Option.any_eq_true]

theorem EntriesKept.of_eq (h : t.backends = s.backends) : EntriesKept s t where
  closes _ entry he := ⟨entry, h ▸ he, rfl⟩
  ready id hr := .inl (by simpa [phaseIs, h] using hr)

theorem EntriesKept.set (he : s.backends[id]? = some entry) (hb : t.backends = s.backends.set id entry')
    (hcl : entry'.closeCalls = entry.closeCalls) (hph : entry'.phase = .ready → entry.phase = .ready ∨ entry'.leases = 0) :
    EntriesKept s t where
  closes := by
    intro id' entry₀ he₀
    rw [hb, getElem?_set_of he]
    split
    · rename_i heq
      subst heq
      cases he.symm.trans he₀
      exact ⟨entry', rfl, hcl⟩
    · exact ⟨entry₀, he₀, rfl⟩
  ready := by
    intro id' hr
    obtain ⟨entry₀, he₀, hp₀⟩ := phaseIs_iff.mp hr
    simp only [hb, getElem?_set_of he] at he₀ ⊢
    split at he₀
    · rename_i heq
      subst heq
      cases he₀
      exact (hph hp₀).imp (fun hp => phaseIs_iff.mpr ⟨entry, he, hp⟩) fun h0 => ⟨entry', by simp, h0⟩
    · exact .inl (phaseIs_iff.mpr ⟨entry₀, he₀, hp₀⟩)

theorem EntriesKept.retire (he : s.backends[id]? = some entry)
    (hb : t.backends = s.backends.set id { entry with phase := if entry.leases = 0 then .ready else .draining }) : EntriesKept s t := by
  refine .set he hb rfl fun hp => .inr ?_
  by_contra hne
  simp [hne] at hp

def HoldersKept (s t : Registry) : Prop :=
  ∀ (c : CallId) b id, t.calls[c]? = some b → b.profile.holds = some id →
    (∃ a, s.calls[c]? = some a ∧ a.profile.holds = some id ∧ (a.profile.inside = true → b.profile.inside = true)) ∨
      ∃ ref, (ref, id) ∈ s.entries

theorem HoldersKept.of_eq (h : t.calls = s.calls) : HoldersKept s t := fun _ b _ hb hh => .inl ⟨b, h ▸ hb, hh, fun hi => hi⟩

theorem HoldersKept.set (hc : s.calls[c]? = some a) (hcas : t.calls = s.calls.set c b)
    (hb : ∀ id, b.profile.holds = some id →
      a.profile.holds = some id ∧ (a.profile.inside = true → b.profile.inside = true) ∨ ∃ ref, (ref, id) ∈ s.entries) :
    HoldersKept s t := by
  intro c' b' id hb' hh
  rw [hcas, getElem?_set_of hc] at hb'
  split at hb'
  · rename_i heq
    subst heq
    cases hb'
    exact (hb id hh).imp_left fun h => ⟨a, hc, h⟩
  · exact .inl ⟨b', hb', hh, fun hi => hi⟩

theorem HoldersKept.spawn (hcas : t.calls = s.calls ++ [b]) (hb : b.profile.holds = none) : HoldersKept s t := by
  intro c' b' id hb' hh
  rw [hcas] at hb'
  rcases Nat.lt_or_ge c' s.calls.length with hlt | hge
  · exact .inl ⟨b', by rwa [getElem?_append_left hlt] at hb', hh, fun hi => hi⟩
  · rw [getElem?_append_right hge] at hb'
    rw [mem_singleton.mp (mem_of_getElem? hb'), hb] at hh
    cases hh

/-! ## 静かな一手 -/

structure Quiet (s t : Registry) : Prop where
  closes : ∀ (id : EntryId) entry, s.backends[id]? = some entry →
    ∃ entry', t.backends[id]? = some entry' ∧ entry'.closeCalls = entry.closeCalls
  held : ∀ (c : CallId) b id, t.calls[c]? = some b → b.profile.holds = some id → t.phaseIs .ready id = true →
    s.phaseIs .ready id = true ∧
      ∃ a, s.calls[c]? = some a ∧ a.profile.holds = some id ∧ (a.profile.inside = true → b.profile.inside = true)

theorem Quiet.refl : Quiet s s where
  closes _ entry he := ⟨entry, he, rfl⟩
  held _ b _ hb hh hr := ⟨hr, b, hb, hh, fun hi => hi⟩

theorem Quiet.trans (h : Quiet s t) (h' : Quiet t u) : Quiet s u where
  closes := by
    intro id entry he
    obtain ⟨entry₁, he₁, hc₁⟩ := h.closes id entry he
    obtain ⟨entry₂, he₂, hc₂⟩ := h'.closes id entry₁ he₁
    exact ⟨entry₂, he₂, hc₂.trans hc₁⟩
  held := by
    intro c b id hb hh hr
    obtain ⟨hr₁, a₁, ha₁, hh₁, hi₁⟩ := h'.held c b id hb hh hr
    obtain ⟨hr₂, a₂, ha₂, hh₂, hi₂⟩ := h.held c a₁ id ha₁ hh₁ hr₁
    exact ⟨hr₂, a₂, ha₂, hh₂, fun hi => hi₁ (hi₂ hi)⟩

theorem holder_leased (h : LeaseInv s) (hb : s.calls[c]? = some b) (hh : b.profile.holds = some id) (he : s.backends[id]? = some entry) :
    0 < entry.leases := by
  rw [h.leases id entry he]
  exact countP_pos_iff.mpr ⟨b, mem_of_getElem? hb, by simp [hh]⟩

theorem active_not_ready (hmap : MapInv s) (hm : (ref, id) ∈ s.entries) : s.phaseIs .ready id = false := by
  obtain ⟨entry, he, -, hst⟩ := entry_of_view (hmap.active ref id hm)
  simp [phaseIs, he, status_active.mp hst]

theorem Quiet.of_kept (hl : LeaseInv t) (hmap : MapInv s) (he : EntriesKept s t) (hh : HoldersKept s t) : Quiet s t where
  closes := he.closes
  held := by
    intro c b id hb hho hr
    have hrs : s.phaseIs .ready id = true := by
      refine (he.ready id hr).resolve_right ?_
      rintro ⟨entry, hen, h0⟩
      exact Nat.ne_of_gt (holder_leased hl hb hho hen) h0
    refine ⟨hrs, (hh c b id hb hho).resolve_right ?_⟩
    rintro ⟨ref, hm⟩
    rw [active_not_ready hmap hm] at hrs
    cases hrs

theorem Move.quiet (hm : Move False s t) (hmap : MapInv s) (hl : LeaseInv s) : Quiet s t := by
  have hlt := hm.leases hmap hl
  cases hm with
  | tick => exact .of_kept hlt hmap (.of_eq rfl) (.of_eq rfl)
  | @retire ref id hmem =>
    obtain ⟨entry, he, -, -, hs⟩ := hmap.retire_eq hmem
    exact .of_kept hlt hmap (.retire he (by rw [hs]; rfl)) (.of_eq (retireEntry_calls id).1)
  | goto hc hsa => exact .of_kept hlt hmap (.of_eq rfl) (.set hc rfl fun id hh => .inl (by rw [hsa]; exact ⟨hh, fun hi => hi⟩))
  | enter hc _ hb | reserve hc _ hb | pass hc _ hb | unreserve hc _ hb =>
    refine .of_kept hlt hmap (.of_eq rfl) (.set hc rfl fun _ hh => ?_)
    rw [hb] at hh
    cases hh
  | @create c ref fingerprint cleanup hc =>
    refine .of_kept hlt hmap ⟨fun id entry he => ⟨entry, ?_, rfl⟩, fun id hr => .inl ?_⟩ (.set hc rfl fun _ hh => ?_)
    · rw [backendCreated, Registry.goto, getElem?_append_left (List.getElem?_eq_some_iff.mp he).1]
      exact he
    · obtain ⟨entry, he, hp⟩ := phaseIs_iff.mp hr
      refine phaseIs_iff.mpr ⟨entry, ?_, hp⟩
      rw [backendCreated, Registry.goto, getElem?_append] at he
      split at he
      · exact he
      · rw [mem_singleton.mp (mem_of_getElem? he)] at hp
        cases hp
    · cases hh
  | discard hc =>
    obtain ⟨entry, he, -, -, hs⟩ := hmap.discarded hc
    refine .of_kept hlt hmap (.retire he (by rw [hs]; rfl)) (.set hc (by rw [hs]; rfl) fun _ hh => ?_)
    cases hh
  | install hc =>
    refine .of_kept hlt hmap (.of_eq rfl) (.set hc rfl fun _ hh => ?_)
    cases hh
  | @share c ref id a b usedAt hc _ hb _ _ hmem =>
    obtain ⟨entry, he, -⟩ := entry_of_view (hmap.active ref id hmem)
    rw [lease_eq he] at hlt ⊢
    have hen : EntriesKept s ((s.setEntry id { entry with leases := entry.leases + 1, lastUsedAt := usedAt entry }).goto c b) :=
      .set he rfl rfl .inl
    refine .of_kept hlt hmap hen (.set hc rfl fun id' hh => .inr ⟨ref, ?_⟩)
    rw [hb] at hh
    cases hh
    exact hmem
  | @drop c id a b hc ha hb =>
    obtain ⟨entry, he, -⟩ := hl.held hmap (mem_of_getElem? hc) (by rw [ha])
    rw [release_eq he] at hlt ⊢
    refine .of_kept hlt hmap (EntriesKept.set he rfl ?_ fun hp => ?_) (.set hc rfl fun _ hh => ?_)
    · rfl
    · by_cases hz : entry.leases - 1 = 0 ∧ entry.phase = .draining
      · exact .inr hz.1
      · exact .inl (by simpa [hz] using hp)
    · rw [hb] at hh
      cases hh
  | spawn hb => exact .of_kept hlt hmap (.of_eq rfl) (.spawn rfl (by rw [hb]))
  | shutdown => exact .of_kept hlt hmap (.of_eq rfl) (.spawn rfl rfl)
  | register hdo =>
    rw [acquire_eq hdo] at hlt ⊢
    exact .of_kept hlt hmap (.of_eq rfl) (.spawn rfl rfl)
  | closeDone id ok =>
    rcases closeDone_cases (s := s) id ok with hs | ⟨entry, he, hp, hs | hs⟩ <;> rw [hs] at hlt ⊢
    · exact .refl
    all_goals
      refine .of_kept hlt hmap (EntriesKept.set he rfl rfl fun hp => ?_) (.of_eq rfl)
      cases hp
  | count _ hG | unlock _ _ _ _ _ hG | callClose _ hG => exact hG.elim

theorem Moves.quiet (hm : Moves False s t) (h : RegistryInv options s) : Quiet s t := by
  induction hm with
  | refl => exact .refl
  | tail hini hste ih =>
    have hi := Moves.inv hini h
    exact ih.trans (hste.quiet hi.entries hi.leases)

theorem step_quiet (h : RegistryInv options s) (hq : s.settles e = false) : Quiet s (step s e) :=
  (step_moves h.entries (by simp [hq])).quiet h

/-! ## 一歩 -/

theorem settles_resume {o} (h : s.settles (.resume c o) = true) : ∃ call, s.calls[c]? = some call ∧ call.settling = true := by
  simpa [settles, Option.any_eq_true] using h

theorem step_settling {o} (h : RegistryInv options s) (hq : s.settles (.resume c o) = true) : ∃ b, (step s (.resume c o)).calls = s.calls.set c b ∧
    (∀ (id : EntryId) entry, s.backends[id]? = some entry →
      ∃ entry', (step s (.resume c o)).backends[id]? = some entry' ∧ entry'.closeCalls = entry.closeCalls ∧ entry'.phase = entry.phase) ∧
    (∀ id : EntryId, s.backends[id]? = none → (step s (.resume c o)).backends[id]? = none) ∧
    ∀ id, b.profile.holds = some id → b.profile.inside = true ∨ ∃ a, s.calls[c]? = some a ∧ a.profile.holds = some id := by
  obtain ⟨call, hc, hse⟩ := settles_resume hq
  cases call with
  | acquire ref pc =>
    cases pc with
    | installed id =>
      obtain ⟨r, status, -, hv⟩ := (h.entries.calls _ (mem_of_getElem? hc)).uncounted id rfl
      obtain ⟨entry, he, -⟩ := entry_of_view hv
      have hst : step s (.resume c o) = (s.lease id fun _ => s.now).goto c (.acquire ref (.counted id)) := by
        simp [step, resume, hc, resumeAcquire]
      rw [hst, lease_eq he]
      refine ⟨_, rfl, fun id' entry' he' => ?_, fun id' hn => ?_, fun _ _ => .inl rfl⟩ <;>
        simp only [Registry.goto, setEntry, getElem?_set_of he]
      · split
        · rename_i heq
          subst heq
          cases he.symm.trans he'
          exact ⟨_, rfl, rfl, rfl⟩
        · exact ⟨entry', he', rfl, rfl⟩
      · split
        · rename_i heq
          subst heq
          cases he.symm.trans hn
        · exact hn
    | counted id =>
      have hst : step s (.resume c o) = (s.unlock c ref).goto c (.acquire ref (.unlocked id)) := by simp [step, resume, hc, resumeAcquire]
      rw [hst]
      exact ⟨_, rfl, fun _ entry he => ⟨entry, he, rfl, rfl⟩, fun _ hn => hn, fun _ hh => .inr ⟨_, hc, hh⟩⟩
    | failing =>
      have hst : step s (.resume c o) = (s.unlock c ref).goto c (.acquire ref .finished) := by simp [step, resume, hc, resumeAcquire]
      rw [hst]
      refine ⟨_, rfl, fun _ entry he => ⟨entry, he, rfl, rfl⟩, fun _ hn => hn, fun _ hh => ?_⟩
      cases hh
    | _ => cases hse
  | _ => cases hse

theorem step_closes (h : RegistryInv options s) (he : s.backends[id]? = some entry) (hne : e ≠ .callClose id) :
    ∃ entry', (step s e).backends[id]? = some entry' ∧ entry'.closeCalls = entry.closeCalls := by
  cases hq : s.settles e with
  | false => exact (step_quiet h hq).closes id entry he
  | true =>
    cases e with
    | resume c o =>
      obtain ⟨b, -, hba, -⟩ := step_settling h hq
      obtain ⟨entry', he', hcl, -⟩ := hba id entry he
      exact ⟨entry', he', hcl⟩
    | callClose id' =>
      show ∃ entry', (s.callClose id').backends[id]? = some entry' ∧ _
      rcases callClose_cases (s := s) id' with hs | ⟨entry₁, he₁, -, hs⟩ <;> rw [hs]
      · exact ⟨entry, he, rfl⟩
      · exact ⟨entry, by rw [setEntry, getElem?_set_of he₁, if_neg (by rintro rfl; exact hne rfl), he], rfl⟩
    | _ => cases hq

theorem callClose_not_ready : (s.callClose id).phaseIs .ready id = false := by
  rcases callClose_cases (s := s) id with hs | ⟨entry, he, -, hs⟩
  · cases hr : s.phaseIs .ready id with
    | false => rw [hs, hr]
    | true =>
      obtain ⟨entry, he, hp⟩ := phaseIs_iff.mp hr
      simp [callClose, he, hp, phaseIs, setEntry, getElem?_set_of he]
  · simp [hs, phaseIs, setEntry, getElem?_set_of he]

theorem step_held (h : RegistryInv options s) (hb : (step s e).calls[c]? = some b) (hho : b.profile.holds = some id)
    (hr : (step s e).phaseIs .ready id = true) : s.phaseIs .ready id = true ∧
      ((∃ a, s.calls[c]? = some a ∧ a.profile.holds = some id ∧ ((∀ o, e ≠ .resume c o) → a.profile.inside = true → b.profile.inside = true)) ∨
        (∃ o, e = .resume c o) ∧ b.profile.inside = true) := by
  cases hq : s.settles e with
  | false =>
    obtain ⟨hrs, a, ha, hha, hi⟩ := (step_quiet h hq).held c b id hb hho hr
    exact ⟨hrs, .inl ⟨a, ha, hha, fun _ => hi⟩⟩
  | true =>
    cases e with
    | resume c' o =>
      obtain ⟨b', hcas, hba, hno, hb'⟩ := step_settling h hq
      constructor
      · obtain ⟨entry', he', hp'⟩ := phaseIs_iff.mp hr
        cases hen : s.backends[id]? with
        | none => cases he'.symm.trans (hno id hen)
        | some entry =>
          obtain ⟨entry₁, he₁, -, hp₁⟩ := hba id entry hen
          cases he'.symm.trans he₁
          exact phaseIs_iff.mpr ⟨entry, hen, hp₁.symm.trans hp'⟩
      · obtain ⟨call, hc, -⟩ := settles_resume hq
        rw [hcas, getElem?_set_of hc] at hb
        split at hb
        · rename_i heq
          subst heq
          cases hb
          rcases hb' id hho with hi | ⟨a, ha, hha⟩
          · exact .inr ⟨⟨o, rfl⟩, hi⟩
          · exact .inl ⟨a, ha, hha, fun hne => absurd rfl (hne o)⟩
        · exact .inl ⟨b, hb, hho, fun _ hi => hi⟩
    | callClose id' =>
      have hne : id' ≠ id := by
        rintro rfl
        rw [show step s (.callClose id') = s.callClose id' from rfl, callClose_not_ready] at hr
        cases hr
      have hs : (step s (.callClose id')).calls = s.calls ∧ (step s (.callClose id')).backends[id]? = s.backends[id]? := by
        show (s.callClose id').calls = s.calls ∧ (s.callClose id').backends[id]? = s.backends[id]?
        rcases callClose_cases (s := s) id' with hs | ⟨entry, he, -, hs⟩ <;> rw [hs]
        · exact ⟨rfl, rfl⟩
        · exact ⟨rfl, by rw [setEntry, getElem?_set_of he, if_neg hne]⟩
      rw [phaseIs, hs.2] at hr
      exact ⟨hr, .inl ⟨b, hs.1 ▸ hb, hho, fun _ hi => hi⟩⟩
    | _ => cases hq

/-! ## 待ち行列 -/

def Ahead (id : EntryId) (c : CallId) : List Job → Prop
  | [] => True
  | job :: jobs => job = .callClose id ∨ job.call ≠ some c ∧ Ahead id c jobs

variable {jobs more : List Job} {job : Job}

theorem Ahead.of_forall (h : ∀ job ∈ jobs, job.call ≠ some c) : Ahead id c jobs := by
  induction jobs with
  | nil => trivial
  | cons job jobs ih => exact .inr ⟨h job mem_cons_self, ih fun job' hj => h job' (mem_cons_of_mem _ hj)⟩

theorem Ahead.append (h : Ahead id c jobs) (hm : .callClose id ∈ jobs) : Ahead id c (jobs ++ more) := by
  induction jobs with
  | nil => cases hm
  | cons job jobs ih =>
    rcases h with rfl | ⟨hne, h⟩
    · exact .inl rfl
    · rcases mem_cons.mp hm with rfl | hm
      · exact .inl rfl
      · exact .inr ⟨hne, ih h hm⟩

structure LoopInv (options : TenantCacheRegistryOptions) (w : Loop) : Prop where
  registry : RegistryInv options w.registry
  single : (w.jobs.filterMap Job.call).Nodup
  queued : ∀ id, w.registry.phaseIs .ready id = true → .callClose id ∈ w.jobs
  ahead : ∀ (c : CallId) b id, w.registry.calls[c]? = some b → b.profile.holds = some id → w.registry.phaseIs .ready id = true →
    b.profile.inside = true ∧ Ahead id c w.jobs

theorem mem_drained (h : RegistryInv options t) (hr : t.phaseIs .ready id = true) (hs : s.phaseIs .ready id = false) : id ∈ s.drained t := by
  obtain ⟨entry, he, hp⟩ := phaseIs_iff.mp hr
  have hmem : id ∈ t.retired := (h.entries.retired id).mpr ⟨entry.ref, by rw [view_eq he, TenantCacheEntry.status, hp]⟩
  simp [drained, hmem, hr, hs]

theorem LoopInv.perform {w : Loop} {f} (h : RegistryInv options w.registry)
    (hqu : ∀ id, w.registry.phaseIs .ready id = true → (TenantCache.step w.registry e).phaseIs .ready id = true → .callClose id ∈ w.jobs)
    (hah : ∀ (c : CallId) a id, w.registry.calls[c]? = some a → a.profile.holds = some id → w.registry.phaseIs .ready id = true →
      (TenantCache.step w.registry e).phaseIs .ready id = true → a.profile.inside = true ∧ (∀ o, e ≠ .resume c o) ∧ Ahead id c w.jobs)
    (hac : ∀ c o, e = .resume c o → ∀ job ∈ w.jobs, job.call ≠ some c)
    (hnx : ((w.jobs ++ f (TenantCache.step w.registry e)).filterMap Job.call).Nodup) : LoopInv options (w.perform e f) where
  registry := h.step
  single := by
    have hdr : ∀ ids : List EntryId, (ids.map Job.callClose).filterMap Job.call = [] := by
      intro ids
      simp [filterMap_map, Job.call, Function.comp_def]
    simpa [Loop.perform, hdr] using hnx
  queued := by
    intro id hr
    simp only [Loop.perform, mem_append]
    cases hs : w.registry.phaseIs .ready id with
    | true => exact .inl (.inl (hqu id hs hr))
    | false => exact .inl (.inr (mem_map_of_mem (mem_drained h.step hr hs)))
  ahead := by
    intro c b id hb hho hr
    obtain ⟨hrs, ⟨a, ha, hha, hi⟩ | ⟨⟨o, heq⟩, hi⟩⟩ := step_held h hb hho hr
    · obtain ⟨hin, hne, hA⟩ := hah c a id ha hha hrs hr
      exact ⟨hi hne hin, (hA.append (hqu id hrs hr)).append (mem_append_left _ (hqu id hrs hr))⟩
    · have hA : Ahead id c w.jobs := .of_forall (hac c o heq)
      exact ⟨hi, (hA.append (hqu id hrs hr)).append (mem_append_left _ (hqu id hrs hr))⟩

variable {w : Loop}

theorem LoopInv.host (h : LoopInv options w) (hho : e.hosted = true) : LoopInv options (w.perform e fun _ => []) := by
  refine .perform h.registry (fun id hr _ => h.queued id hr) (fun c a id ha hha hr _ => ?_) ?_ (by simpa using h.single)
  · obtain ⟨hin, hA⟩ := h.ahead c a id ha hha hr
    refine ⟨hin, ?_, hA⟩
    rintro o rfl
    cases hho
  · rintro c o rfl
    cases hho

theorem LoopInv.push (h : LoopInv options w) (hn : ((w.jobs ++ more).filterMap Job.call).Nodup) :
    LoopInv options { w with jobs := w.jobs ++ more } where
  registry := h.registry
  single := hn
  queued id hr := mem_append_left _ (h.queued id hr)
  ahead c b id hb hho hr := (h.ahead c b id hb hho hr).imp_right fun hA => hA.append (h.queued id hr)

theorem nodup_push (h : (jobs.filterMap Job.call).Nodup) (hno : ∀ job ∈ jobs, job.call ≠ some c) (hm : more.filterMap Job.call = [c]) :
    ((jobs ++ more).filterMap Job.call).Nodup := by
  rw [filterMap_append, hm]
  refine h.append (nodup_singleton c) ?_
  rintro c' hc' hmem
  rw [mem_singleton.mp hmem] at hc'
  obtain ⟨job, hj, hjc⟩ := mem_filterMap.mp hc'
  exact hno job hj hjc

theorem LoopInv.pop (h : LoopInv options w) (hj : w.jobs = job :: jobs) : LoopInv options ({ w with jobs }.runJob job) := by
  have hsi := h.single
  rw [hj] at hsi
  have hre : (jobs.filterMap Job.call).Nodup := hsi.sublist ((sublist_cons_self _ _).filterMap _)
  have hqu : ∀ id, job ≠ .callClose id → w.registry.phaseIs .ready id = true → .callClose id ∈ jobs := by
    intro id hne hr
    have hmem := h.queued id hr
    rw [hj] at hmem
    exact (mem_cons.mp hmem).resolve_left (Ne.symm hne)
  have hah : ∀ (c : CallId) a id, w.registry.calls[c]? = some a → a.profile.holds = some id → job ≠ .callClose id →
      w.registry.phaseIs .ready id = true → a.profile.inside = true ∧ job.call ≠ some c ∧ Ahead id c jobs := by
    intro c a id ha hha hne hr
    obtain ⟨hin, hA⟩ := h.ahead c a id ha hha hr
    rw [hj] at hA
    exact ⟨hin, hA.resolve_left hne⟩
  have hno : ∀ c, job.call = some c → ∀ job' ∈ jobs, job'.call ≠ some c := by
    intro c hc job' hmem hc'
    rw [filterMap_cons_some hc] at hsi
    exact (nodup_cons.mp hsi).1 (mem_filterMap.mpr ⟨job', hmem, hc'⟩)
  cases job with
  | resume c o =>
    refine LoopInv.perform (w := { w with jobs }) (e := .resume c o) (f := fun t => (t.calls[c]?).elim [] (Call.continuation c)) h.registry
      (fun id hr _ => hqu id nofun hr) (fun c' a id ha hha hr _ => ?_) ?_ ?_
    · obtain ⟨hin, hne, hA⟩ := hah c' a id ha hha nofun hr
      refine ⟨hin, ?_, hA⟩
      rintro o' heq
      cases heq
      exact hne rfl
    · rintro c' o' heq
      cases heq
      exact hno c rfl
    · cases hc : (TenantCache.step w.registry (.resume c o)).calls[c]? with
      | none => simpa [hc] using hre
      | some call =>
        have hco : (call.continuation c).filterMap Job.call = [c] ∨ call.continuation c = [] := by
          unfold Call.continuation
          split <;> simp [Job.call]
        rcases hco with hco | hco
        · simpa [hc] using nodup_push hre (hno c rfl) hco
        · simpa [hc, hco] using hre
  | adopt c =>
    have hpo : LoopInv options { w with jobs } :=
      ⟨h.registry, hre, fun id => hqu id nofun, fun c' a id ha hha hr => (hah c' a id ha hha nofun hr).imp_right And.right⟩
    exact hpo.push (nodup_push hre (hno c rfl) rfl)
  | callClose id =>
    have hne : ∀ id', (TenantCache.step w.registry (.callClose id)).phaseIs .ready id' = true → Job.callClose id ≠ .callClose id' := by
      rintro id' hr heq
      cases heq
      rw [show TenantCache.step w.registry (.callClose id) = w.registry.callClose id from rfl, callClose_not_ready] at hr
      cases hr
    refine LoopInv.perform (w := { w with jobs }) (f := fun _ => []) h.registry (fun id' hr hr' => hqu id' (hne id' hr') hr)
      (fun c a id' ha hha hr hr' => ?_) (by rintro c o ⟨⟩) ?_
    · obtain ⟨hin, -, hA⟩ := hah c a id' ha hha (hne id' hr') hr
      exact ⟨hin, nofun, hA⟩
    · simpa using hre
  | closeDone id ok =>
    refine LoopInv.perform (w := { w with jobs }) (f := fun _ => []) h.registry (fun id' hr _ => hqu id' nofun hr)
      (fun c a id' ha hha hr _ => ?_) (by rintro c o ⟨⟩) ?_
    · obtain ⟨hin, -, hA⟩ := hah c a id' ha hha nofun hr
      exact ⟨hin, nofun, hA⟩
    · simpa using hre

theorem LoopInv.step {x : Signal} (h : LoopInv options w) : LoopInv options (w.step x) := by
  cases x with
  | host e =>
    simp only [Loop.step]
    split
    · exact h.host ‹_›
    · exact h
  | settle c o =>
    simp only [Loop.step]
    split
    · rename_i haw
      simp only [Loop.awaits, Bool.and_eq_true, all_eq_true, decide_eq_true_eq] at haw
      exact h.push (nodup_push h.single haw.2 rfl)
    · exact h
  | settleClose id ok =>
    simp only [Loop.step]
    split
    · exact h.push (by rw [filterMap_append]; exact (append_nil _).symm ▸ h.single)
    · exact h
  | microtask =>
    simp only [Loop.step]
    split
    · exact h
    · exact h.pop ‹_›

theorem LoopInv.reached {signals : List Signal} : LoopInv options (run Loop.step (.start options now) signals) := by
  refine run_invariant (fun _ _ => LoopInv.step) ⟨.start, nodup_nil, fun id hr => ?_, fun c b id hb => ?_⟩
  · cases hr
  · cases hb

theorem LoopInv.leased {x : Signal} (h : LoopInv options w) (hc : w.registry.calls[c]? = some (.acquire ref (.leased id)))
    (he : w.registry.backends[id]? = some entry) :
    ∃ entry', (w.step x).registry.backends[id]? = some entry' ∧ entry'.closeCalls = entry.closeCalls := by
  have hsa : ∃ entry', w.registry.backends[id]? = some entry' ∧ entry'.closeCalls = entry.closeCalls := ⟨entry, he, rfl⟩
  cases x with
  | host e =>
    simp only [Loop.step]
    split
    · exact step_closes h.registry he (by rintro rfl; contradiction)
    · exact hsa
  | settle | settleClose =>
    simp only [Loop.step]
    split <;> exact hsa
  | microtask =>
    simp only [Loop.step]
    split
    · exact hsa
    · rename_i job jobs _
      cases job with
      | adopt => exact hsa
      | resume | closeDone => exact step_closes h.registry he nofun
      | callClose id' =>
        by_cases heq : id' = id
        · subst heq
          -- 片付けの続きを待つ項目の借り手は、まだ錠の中にいる。
          have hnr : w.registry.callClose id' = w.registry := by
            refine (callClose_cases id').resolve_right ?_
            rintro ⟨entry₁, he₁, hp, -⟩
            have hin := (h.ahead c _ id' hc rfl (phaseIs_iff.mpr ⟨entry₁, he₁, hp⟩)).1
            cases hin
          show ∃ entry', (w.registry.callClose id').backends[id']? = some entry' ∧ _
          rw [hnr]
          exact hsa
        · exact step_closes h.registry he (by simpa using heq)

end Supacloud.TenantCache
