import Supacloud.EdgeRuntime.Lemmas.Slots

/-!
# 土台の不変条件

部品を合わせた `Base` と、その一手ごとの保存。
-/

namespace Supacloud.EdgeRuntime

open Library Pool List Bool

structure Base (c : Config) (x : Stage) : Prop where
  places : Places x.1.idle x.1.activeWorkers x.1.parkedWorkers x.1.retiredWorkers x.1.metadata x.1.nextWorker x.2.loose
    x.2.unchecked x.2.transit
  owned : Owned (owners x.1.idle x.1.inFlight x.1.preheats x.1.bulk x.2.loose) x.1.inFlight x.1.activeWorkers x.1.metadata
    x.1.nextWorker x.1.draining
  keys : Keys x.1.queue x.1.inFlight x.1.nextKey x.2.pending x.2.fresh
  jobs : Jobs x.1.preheats x.1.nextPreheat x.1.bulk x.1.bulkWaiting
  hands : Hands x.1.handlers x.1.metadata x.1.inFlight x.1.preheats x.1.nextPreheat
  bounds : Bounds c x.1.activeWorkers x.1.parkedWorkers x.1.draining x.2.vacant x.2.overflow
  quiet : x.1.draining = true ∨ x.1.admissionBlocked = true → ∀ p, x.1.queue.at p = []
  tainted_lt : ∀ w, x.1.tainted w = true → w < x.1.nextWorker
  generation_le : ∀ w md, x.1.metadata w = some md → md.generation ≤ x.1.workerGeneration
  below : x.1.book.Below x.1.nextWorker
  accepts : ∀ b, x.1.bulk = some b → ∀ w ∈ reserved x.1.bulk, x.1.workerAcceptsProject w b.request.projectRef = true

/-! ## 一手 -/

namespace Base

variable {c : Config} {s : Pool} {g : Ghost} {w : Worker} (h : Base c (s, g))

include h

theorem upper : s.activeWorkers.length + g.vacant.toNat ≤ c.maxConcurrentExecutions := h.bounds.upper

theorem lower (hd : s.draining = false) : c.size ≤ s.activeWorkers.length + g.vacant.toNat := h.bounds.lower hd

theorem active_lt (hw : w ∈ s.activeWorkers) : w < s.nextWorker := h.places.known_lt w (h.places.active_known hw)

theorem loose_owners (hw : w ∈ g.loose) :
    s.idle.count w + (s.inFlight.map (·.worker)).count w + (held s.preheats).count w + (reserved s.bulk).count w = 0 ∧
      g.loose.count w = 1 := by
  have h1 := h.owned.le_one w (h.places.active_known (h.places.loose_active w hw))
  have h2 : 0 < g.loose.count w := count_pos_iff.mpr hw
  simp only [owners] at h1
  omega

theorem loose_not_idle (hw : w ∈ g.loose) : w ∉ s.idle := by
  rw [← count_eq_zero]
  have := (h.loose_owners hw).1
  omega

theorem idle_owners (hw : w ∈ s.idle) :
    (s.inFlight.map (·.worker)).count w + (held s.preheats).count w + (reserved s.bulk).count w + g.loose.count w = 0 ∧
      s.idle.count w = 1 := by
  have h1 := h.owned.le_one w (h.places.active_known (h.places.idle_active w hw))
  have h2 : 0 < s.idle.count w := count_pos_iff.mpr hw
  simp only [owners] at h1
  omega

theorem takeIdle (hw : w ∈ s.idle) {calm} : Base c ({ s with idle := setDelete s.idle w },
      { g with loose := w :: g.loose, unchecked := g.unchecked.filter (· ≠ w), calm }) :=
  { h with
    places := h.places.takeIdle hw
    owned := h.owned.withOwners fun x => by
      have := h.idle_owners hw
      simp only [owners, count_setDelete, count_cons]
      by_cases hx : x = w
      · subst hx
        simp
        omega
      · simp [hx, Ne.symm hx] }

theorem putIdle (hw : w ∈ g.loose) : Base c (s.pushIdle w, { g with loose := g.loose.filter (· ≠ w), credit := none, calm := false }) :=
  { h with
    places := h.places.putIdle hw
    owned := h.owned.withOwners fun x => by
      have := h.loose_owners hw
      simp only [owners, count_filter_ne, pushIdle, count_append, count_cons, count_nil]
      by_cases hx : x = w
      · subst hx
        simp
        omega
      · simp [hx, Ne.symm hx] }

theorem accepts_assign {p md} (hm : s.metadata w = some md)
    (hw : w ∈ g.loose ∨ g.transit = some w ∨ (w ∈ reserved s.bulk ∧ ∀ b, s.bulk = some b → b.request.projectRef = p)) :
    ∀ b, s.bulk = some b → ∀ x ∈ reserved s.bulk, (s.assignTo w p md).workerAcceptsProject x b.request.projectRef = true := by
  intro b hb x hx
  by_cases he : x = w
  · subst he
    have hr : b.request.projectRef = p := by grind [→ h.loose_owners, → h.owned.outside, → h.places.transit_out, owners]
    simp [workerAcceptsProject, workerProjectRef, assignTo, record, hr]
  · have := h.accepts b hb x hx
    simpa [workerAcceptsProject, workerProjectRef, assignTo, record, he] using this

theorem assign {credit p md} (hm : s.metadata w = some md)
    (hw : w ∈ g.loose ∨ g.transit = some w ∨ (w ∈ reserved s.bulk ∧ ∀ b, s.bulk = some b → b.request.projectRef = p)) :
    Base c (s.assignTo w p md, { g with credit }) := by
  have hno : ∀ x, (s.assignTo w p md).metadata x = none ↔ s.metadata x = none := by
    intro x
    by_cases hx : x = w
    · simp [assignTo, record, hx, hm]
    · simp [assignTo, record, hx]
  exact { h with
    places := h.places.withMetadata hno
    owned := h.owned.withMetadata hno
    hands := h.hands.withMetadata fun x => (hno x).mp
    generation_le := fun x md' hx => by
      by_cases he : x = w
      · subst he
        simp only [assignTo, record, Function.update_self, Option.some.injEq] at hx
        subst hx
        exact h.generation_le x md hm
      · exact h.generation_le x md' (by simpa [assignTo, record, he] using hx)
    accepts := h.accepts_assign hm hw }

theorem drop {credit} (tracked) (hw : w ∈ s.activeWorkers ∨ w ∈ s.parkedWorkers) (hun : w ∉ g.unchecked) {loose}
    (hl : ∀ x, x ≠ w → loose.count x = g.loose.count x) (hlw : w ∉ loose) {vacant overflow calm}
    (hb : Bounds c (setDelete s.activeWorkers w) (setDelete s.parkedWorkers w) s.draining vacant overflow) :
    Base c (s.leaveWorker w tracked, { g with loose, vacant, overflow, calm, credit }) := by
  have hlt : w < s.nextWorker := h.places.known_lt w ((h.places.known w).mpr (hw.elim .inl (.inr ∘ .inl)))
  have hpl := h.places.remove hw hun fun x (hx : x ∈ loose) => by
    have hne : x ≠ w := fun he => hlw (he ▸ hx)
    exact ⟨count_pos_iff.mp (hl x hne ▸ count_pos_iff.mpr hx), hne⟩
  exact { h with
    places := by
      cases tracked with
      | false => exact hpl
      | true => exact hpl.track hlt (Function.update_self ..)
    owned := h.owned.remove (fun x hx => by
      simp [owners, leaveWorker, dropWorker, removeWorkerReferences, hx, hl x hx]) hlt
    hands := h.hands.remove
    bounds := hb
    tainted_lt := fun x hx => by
      by_cases he : x = w
      · simp [leaveWorker, dropWorker, removeWorkerReferences, he] at hx
      · exact h.tainted_lt x (by simpa [leaveWorker, dropWorker, removeWorkerReferences, he] using hx)
    generation_le := fun x md hx => by
      by_cases he : x = w
      · simp [leaveWorker, dropWorker, removeWorkerReferences, he] at hx
      · exact h.generation_le x md (by simpa [leaveWorker, dropWorker, removeWorkerReferences, he] using hx)
    accepts := fun b hb x hx => by
      by_cases he : x = w
      · simp [workerAcceptsProject, workerProjectRef, leaveWorker, dropWorker, removeWorkerReferences, he]
      · have := h.accepts b hb x hx
        simpa [workerAcceptsProject, workerProjectRef, leaveWorker, dropWorker, removeWorkerReferences, he] using this }

theorem create (ht : g.transit = none) (hv : g.vacant = true ∨ s.activeWorkers.length < c.maxConcurrentExecutions) :
    Base c ({ s.createWorker.1 with activeWorkers := setAdd s.activeWorkers s.nextWorker },
      { g with loose := s.nextWorker :: g.loose, vacant := false }) := by
  have hnew : s.nextWorker ∉ s.activeWorkers := fun ha => Nat.lt_irrefl _ (h.active_lt ha)
  have hlen : (setAdd s.activeWorkers s.nextWorker).length = s.activeWorkers.length + 1 := by
    rw [setAdd_of_not_mem hnew]
    simp
  exact { h with
    places := h.places.create ht
    owned := h.owned.create (fun x hx => by simp [owners, createWorker, record, Ne.symm hx])
      (by simp [owners, createWorker, record]; omega)
    hands := h.hands.withMetadata fun x hx => by
      by_cases he : x = s.nextWorker
      · simp [createWorker, record, he] at hx
      · simpa [createWorker, record, he] using hx
    bounds :=
      { upper := by
          have := h.upper
          simp only [hlen, toNat_false]
          rcases hv with hv | hv
          · simp only [hv, toNat_true] at this
            omega
          · omega
        lower := fun hd => by
          have := h.lower hd
          have : g.vacant.toNat ≤ 1 := toNat_le _
          simp only [hlen, toNat_false]
          omega
        parked := h.bounds.parked }
    tainted_lt := fun x hx => Nat.lt_succ_of_lt (h.tainted_lt x hx)
    generation_le := fun x md hx => by
      by_cases he : x = s.nextWorker
      · subst he
        simp only [createWorker, record, Function.update_self, Option.some.injEq] at hx
        subst hx
        exact Nat.le_refl _
      · exact h.generation_le x md (by simpa [createWorker, record, he] using hx)
    below := fun ws hws x hx => Nat.lt_succ_of_lt (h.below ws hws x hx)
    accepts := fun b hb x hx => by
      have hco : 0 < (reserved s.bulk).count x := count_pos_iff.mpr hx
      have hlt := h.owned.lt x (by simp only [owners]; omega)
      have he : x ≠ s.nextWorker := Nat.ne_of_lt hlt
      have := h.accepts b hb x hx
      simpa [workerAcceptsProject, workerProjectRef, createWorker, record, he] using this }

theorem park (hw : w ∈ g.loose) (hv : g.vacant = false) : Base c ({ s with
        activeWorkers := setDelete s.activeWorkers w
        idle := setDelete s.idle w
        parkedWorkers := setAdd s.parkedWorkers w },
      { g with loose := g.loose.filter (· ≠ w), vacant := true, overflow := true }) := by
  have ha := h.places.loose_active w hw
  have hlen : (setDelete s.activeWorkers w).length + 1 = s.activeWorkers.length := length_setDelete h.places.active_nodup ha
  exact { h with
    places := h.places.park ha (h.loose_not_idle hw)
    owned := h.owned.park (fun x hx => by simp [owners, hx]) (by
      have := (h.loose_owners hw).1
      simp only [owners, count_setDelete, count_filter_ne, if_true]
      omega)
    bounds :=
      { upper := by
          have := h.upper
          simp only [toNat_true]
          omega
        lower := fun hd => by
          have := h.lower hd
          simp only [hv, toNat_false, toNat_true] at this ⊢
          omega
        parked := fun ho => by cases ho } }

theorem activate (ht : g.transit = some w) (hv : g.vacant = true) : Base c ({ s with activeWorkers := setAdd s.activeWorkers w },
      { g with transit := none, loose := w :: g.loose, vacant := false }) := by
  have hk : s.metadata w ≠ none := (h.places.known w).mpr (.inr (.inr ht))
  have ha := (h.places.transit_out w ht).1
  have hlen : (setAdd s.activeWorkers w).length = s.activeWorkers.length + 1 := by
    rw [setAdd_of_not_mem ha]
    simp
  exact { h with
    places := h.places.activate ht
    owned := h.owned.activate (fun x hx => by simp [owners, Ne.symm hx]) (by simp [owners]; omega) hk ha
      (h.places.known_lt w hk)
    bounds :=
      { upper := by
          have := h.upper
          simp only [hv, hlen, toNat_false, toNat_true] at this ⊢
          omega
        lower := fun hd => by
          have := h.lower hd
          simp only [hv, hlen, toNat_false, toNat_true] at this ⊢
          omega
        parked := h.bounds.parked } }

theorem begin_ok (w d) : ∀ e ∈ s.inFlight ++ [{ dispatch := d, worker := w }], e.Ok := by
  intro e he
  rcases mem_append.mp he with he | he
  · exact h.keys.ok e he
  · rw [mem_singleton] at he
    subst he
    exact ⟨nofun, nofun, nofun, nofun, fun h => absurd rfl h⟩

theorem begin {d q fresh} (hw : w ∈ g.loose) (hk : Keys q (s.inFlight ++ [{ dispatch := d, worker := w }]) s.nextKey g.pending fresh)
    (hq : s.draining = true ∨ s.admissionBlocked = true → ∀ p, q.at p = []) :
    Base c (({ s with queue := q }).beginExecution w d, { g with loose := g.loose.filter (· ≠ w), fresh, calm := false }) := by
  have hown := h.loose_owners hw
  exact { h with
    places := { h.places with loose_active := fun x hx => h.places.loose_active x (mem_of_mem_filter hx) }
    owned :=
      { h.owned.withOwners (fun x => by
          simp only [owners, beginExecution, record, map_append, count_append, map_cons, map_nil,
            count_cons, count_nil, count_filter_ne]
          by_cases hx : x = w
          · subst hx
            simp
            omega
          · simp [hx, Ne.symm hx]) with
        workers_nodup := by
          simp only [beginExecution, record, map_append, map_cons, map_nil]
          rw [nodup_append]
          refine ⟨h.owned.workers_nodup, nodup_singleton _, fun x hx y hy he => ?_⟩
          rw [mem_singleton] at hy
          have hx : 0 < (s.inFlight.map (·.worker)).count w := count_pos_iff.mpr (hy ▸ he ▸ hx)
          omega }
    keys := hk
    hands := h.hands.begin (e := { dispatch := d, worker := w })
      (h.places.active_known (h.places.loose_active w hw))
    quiet := hq }

theorem finish {e} (he : e ∈ s.inFlight) : Base c (s.cleanup e, { g with
      loose := if e.worker ∈ s.activeWorkers then e.worker :: g.loose else g.loose
      pending := if e.resolved then g.pending else e.key :: g.pending
      calm := false }) := by
  have hn := h.keys.inFlight_nodup
  have hpe := perm_cons_filter hn he
  have hco : ∀ x, (s.inFlight.map (·.worker)).count x =
      ((s.inFlight.filter fun y => y.key ≠ e.key).map (·.worker)).count x + if e.worker = x then 1 else 0 := by
    intro x
    rw [(hpe.map _).count_eq x, map_cons, count_cons]
    simp
  refine { h with
    places := { h.places with
      loose_active := fun x hx => ?_ }
    owned := { (?_ : Owned _ s.inFlight s.activeWorkers s.metadata s.nextWorker s.draining) with
      workers_nodup := ?_ }
    keys := ?_
    hands := h.hands.finish he hn }
  · dsimp only at hx
    split at hx
    · rename_i ha
      rcases mem_cons.mp hx with rfl | hx
      · exact ha
      · exact h.places.loose_active x hx
    · exact h.places.loose_active x hx
  · by_cases ha : e.worker ∈ s.activeWorkers
    · grind [h.owned.withOwners, owners, cleanup]
    · refine h.owned.release (w := e.worker) (fun x hx => ?_) ?_ fun hc => absurd hc ha
      · grind [owners, cleanup]
      · have := hco e.worker
        simp only [owners, cleanup, ha, if_false]
        omega
  · exact ((hpe.map (·.worker)).nodup h.owned.workers_nodup).of_cons
  · have hke := (hpe.map Execution.key).count_eq
    cases hr : e.resolved with
    | true =>
      refine h.keys.fewer [e.key] ?_ (fun x hx => h.keys.ok x (mem_of_mem_filter hx)) h.keys.refs
      rw [perm_iff_count]
      intro x
      have := hke x
      simp only [liveKeys, cleanup, map_cons, count_append, count_cons, count_nil, if_true] at this ⊢
      omega
    | false =>
      refine h.keys.fewer [] ?_ (fun x hx => h.keys.ok x (mem_of_mem_filter hx)) h.keys.refs
      rw [perm_iff_count]
      intro x
      have := hke x
      simp only [liveKeys, cleanup, map_cons, count_append, count_cons, count_nil, false_eq_true,
        if_false] at this ⊢
      omega

theorem update {e e'} (he : e ∈ s.inFlight) (hd : e'.dispatch = e.dispatch) (hw : e'.worker = e.worker)
    (hok : e'.Ok) : Base c (s.updateExecution e', g) := by
  have hn := h.keys.inFlight_nodup
  have hwos := updated_worker hn he hd hw
  exact { h with
    owned :=
      { h.owned.withOwners (fun x => by simp [owners, updateExecution, hwos]) with
        workers_nodup := by
          simp only [updateExecution, hwos]
          exact h.owned.workers_nodup }
    keys := h.keys.fewer [] (by simp only [liveKeys, updateExecution, updated_key, nil_append]; exact .refl _)
      (updated_ok h.keys.ok hok) h.keys.refs
    hands := h.hands.update hn he hd hw }

theorem preheatStart {j} (hid : j.id = s.nextPreheat) (hw : (j.owner = .single ∧ j.worker ∈ g.loose) ∨
      (j.owner = .bulk ∧ j.worker ∈ reserved s.bulk ∧ ∀ b, s.bulk = some b → b.phase = .running)) :
    Base c (({ s with preheats := s.preheats ++ [j], nextPreheat := s.nextPreheat + 1 }).record
        (.preheatStarted j.worker j.projectRef),
      { g with loose := if j.owner = .single then g.loose.filter (· ≠ j.worker) else g.loose, calm := false }) := by
  refine { h with
    places := { h.places with loose_active := fun x hx => ?_ }
    owned := h.owned.withOwners fun x => ?_
    jobs :=
      { ids_nodup := ?_
        ids_lt := ?_
        reserved_worker := ?_
        rejected := ?_
        members := h.jobs.members }
    hands :=
      { h.hands with
        preheat_lt := fun x id hx => Nat.lt_succ_of_lt (h.hands.preheat_lt x id hx)
        preheat := ?_ } }
  · dsimp only at hx
    split at hx
    · exact h.places.loose_active x (mem_of_mem_filter hx)
    · exact h.places.loose_active x hx
  · rcases hw with ⟨ho, hw⟩ | ⟨ho, -⟩
    · have := h.loose_owners hw
      simp only [owners, record, held, ho, if_true, filter_append, map_append, count_append,
        count_filter_ne, decide_true, filter_cons_of_pos, filter_nil, map_cons, map_nil,
        count_cons, count_nil, beq_iff_eq]
      by_cases hx : x = j.worker
      · subst hx
        simp only [held] at this
        simp
        omega
      · simp [hx, Ne.symm hx]
    · simp [owners, record, held, ho]
  · simp only [record, map_append, map_cons, map_nil, nodup_append]
    refine ⟨h.jobs.ids_nodup, nodup_singleton _, fun x hx y hy => ?_⟩
    obtain ⟨i, hi, rfl⟩ := mem_map.mp hx
    rw [mem_singleton] at hy
    rw [hy, hid]
    exact Nat.ne_of_lt (h.jobs.ids_lt i hi)
  · intro i hi
    rcases mem_append.mp hi with hi | hi
    · exact Nat.lt_succ_of_lt (h.jobs.ids_lt i hi)
    · rw [mem_singleton] at hi
      rw [hi, hid]
      exact Nat.lt_succ_self _
  · intro i hi hb
    rcases mem_append.mp hi with hi | hi
    · exact h.jobs.reserved_worker i hi hb
    · rw [mem_singleton] at hi
      subst hi
      rcases hw with ⟨ho, -⟩ | ⟨-, hw, -⟩
      · rw [ho] at hb
        cases hb
      · exact hw
  · intro b hb hrej i hi
    rcases mem_append.mp hi with hi | hi
    · exact h.jobs.rejected b hb hrej i hi
    · rw [mem_singleton] at hi
      subst hi
      rcases hw with ⟨ho, -⟩ | ⟨-, -, hrun⟩
      · rw [ho]
        exact PreheatOwner.noConfusion
      · rw [hrun b hb] at hrej
        cases hrej
  · intro x id hx i hi hii
    rcases mem_append.mp hi with hi | hi
    · exact h.hands.preheat x id hx i hi hii
    · rw [mem_singleton] at hi
      have := h.hands.preheat_lt x id hx
      rw [← hii, hi, hid] at this
      exact absurd this (Nat.lt_irrefl _)

theorem withJobs {js} (hhe : held js = held s.preheats)
    (hsub : ∀ j ∈ js, ∃ j' ∈ s.preheats, j'.id = j.id ∧ j'.worker = j.worker ∧ (j'.owner = j.owner ∨ j.owner = .orphan))
    (hids : (js.map (·.id)).Sublist (s.preheats.map (·.id))) : Base c ({ s with preheats := js }, g) :=
  { h with
    owned := h.owned.withOwners fun x => by simp [owners, hhe]
    jobs :=
      { ids_nodup := h.jobs.ids_nodup.sublist hids
        ids_lt := fun j hj => by
          obtain ⟨j', hj', hid, -⟩ := hsub j hj
          exact hid ▸ h.jobs.ids_lt j' hj'
        reserved_worker := fun j hj hb => by
          obtain ⟨j', hj', -, hw, ho⟩ := hsub j hj
          rcases ho with ho | ho
          · exact hw ▸ h.jobs.reserved_worker j' hj' (ho.trans hb)
          · rw [ho] at hb
            cases hb
        rejected := fun b hb hrej j hj => by
          obtain ⟨j', hj', -, -, ho⟩ := hsub j hj
          rcases ho with ho | ho
          · exact ho ▸ h.jobs.rejected b hb hrej j' hj'
          · rw [ho]
            exact PreheatOwner.noConfusion
        members := h.jobs.members }
    hands := h.hands.fewerJobs fun j hj => by
      obtain ⟨j', hj', hid, hw, -⟩ := hsub j hj
      exact ⟨j', hj', hid, hw⟩ }

theorem endJob {j} (hj : j ∈ s.preheats) (ho : j.owner = .single) :
    Base c ({ s with preheats := s.preheats.filter fun x => x.id ≠ j.id }, { g with
      loose := if s.draining = false ∧ j.worker ∈ s.activeWorkers then j.worker :: g.loose else g.loose
      calm := false }) := by
  have hco : ∀ x, (held s.preheats).count x =
      (held (s.preheats.filter fun y => y.id ≠ j.id)).count x + if j.worker = x then 1 else 0 := by
    intro x
    have hpe := perm_cons_filter h.jobs.ids_nodup hj
    have := (((hpe.filter fun y => y.owner = .single)).map (·.worker)).count_eq x
    rw [filter_cons_of_pos (by simpa using ho), map_cons, count_cons] at this
    simpa [held] using this
  refine { h with
    places := { h.places with loose_active := fun x hx => ?_ }
    owned := ?_
    jobs :=
      { h.jobs with
        ids_nodup := h.jobs.ids_nodup.sublist (filter_sublist.map _)
        ids_lt := fun i hi => h.jobs.ids_lt i (mem_of_mem_filter hi)
        reserved_worker := fun i hi => h.jobs.reserved_worker i (mem_of_mem_filter hi)
        rejected := fun b hb hrej i hi => h.jobs.rejected b hb hrej i (mem_of_mem_filter hi) }
    hands := h.hands.fewerJobs fun i hi => ⟨i, mem_of_mem_filter hi, rfl, rfl⟩ }
  · grind [h.places.loose_active]
  · by_cases ha : s.draining = false ∧ j.worker ∈ s.activeWorkers
    · grind [h.owned.withOwners, owners]
    · refine h.owned.release (w := j.worker) (fun x hx => ?_) ?_ fun hc => ?_
      · have := hco x
        simp only [Ne.symm hx, if_false] at this
        simp only [owners, ha, if_false]
        omega
      · have := hco j.worker
        simp only [owners, ha, if_false]
        omega
      · by_contra hd
        exact ha ⟨by simpa using hd, hc⟩

theorem bulkTake {b} (hs : reserved s.bulk = []) (hw : b.workers.Perm g.loose)
    (hj : ∀ j ∈ s.preheats, j.owner ≠ .bulk) (hp : b.phase = .running)
    (ha : ∀ w ∈ b.workers, s.workerAcceptsProject w b.request.projectRef = true) :
    Base c ({ s with bulk := some b }, { g with loose := [], calm := false }) :=
  { h with
    places := { h.places with loose_active := fun x hx => by simp at hx }
    owned := h.owned.withOwners fun x => by
      have hb : reserved (some b) = b.workers := by simp [reserved, hp]
      simp only [owners, hb, hs, hw.count_eq x, count_nil]
      omega
    jobs :=
      { h.jobs with
        reserved_worker := fun j hm ho => absurd ho (hj j hm)
        rejected := fun _ _ _ => hj }
    accepts := fun x hx w hw => by
      cases hx
      simp only [reserved, hp, reduceCtorEq, if_false] at hw
      exact ha w hw }

theorem bulkUpdate {b} (hb : reserved b = reserved s.bulk)
    (hj : ∀ x, b = some x → x.phase = .rejected → ∀ j ∈ s.preheats, j.owner ≠ .bulk)
    (ha : ∀ x, b = some x → ∀ w ∈ reserved b, s.workerAcceptsProject w x.request.projectRef = true) : Base c ({ s with bulk := b }, g) :=
  { h with
    owned := h.owned.withOwners fun x => by simp [owners, hb]
    jobs :=
      { h.jobs with
        reserved_worker := fun j hm ho => hb ▸ h.jobs.reserved_worker j hm ho
        rejected := hj }
    accepts := ha }

theorem bulkRelease {b} (hb : reserved b = []) (hj : ∀ j ∈ s.preheats, j.owner ≠ .bulk) (hl : g.loose = []) :
    Base c ({ s with bulk := b }, { g with
      loose := if s.draining then [] else (reserved s.bulk).filter (· ∈ s.activeWorkers)
      calm := false }) := by
  have hco : ∀ x, ((reserved s.bulk).filter (· ∈ s.activeWorkers)).count x =
      if x ∈ s.activeWorkers then (reserved s.bulk).count x else 0 := by
    intro x
    by_cases hx : x ∈ s.activeWorkers
    · rw [if_pos hx, count_filter (by simpa using hx)]
    · rw [if_neg hx, count_eq_zero]
      simp [hx]
  have hn : ∀ x, owners s.idle s.inFlight s.preheats b
      (if s.draining then [] else (reserved s.bulk).filter (· ∈ s.activeWorkers)) x ≤
      owners s.idle s.inFlight s.preheats s.bulk g.loose x := by
    intro x
    have := hco x
    cases s.draining
    · simp only [owners, hb, hl, count_nil, false_eq_true, if_false, this]
      split <;> omega
    · simp only [owners, hb, hl, count_nil, if_true]
      omega
  exact { h with
    places := { h.places with
      loose_active := fun x hx => by
        dsimp only at hx
        split at hx
        · simp at hx
        · simpa using (mem_filter.mp hx).2 }
    owned :=
      { h.owned with
        le_one := fun x hx => (hn x).trans (h.owned.le_one x hx)
        outside := fun x hx ha => Nat.le_zero.mp ((hn x).trans (Nat.le_of_eq (h.owned.outside x hx ha)))
        pos := fun x hx hd => by
          have h1 := h.owned.pos x hx hd
          have h2 := hco x
          dsimp only at hx hd
          simp only [owners, hl, hd, hb, count_nil, false_eq_true, if_false, h2, hx, if_true] at h1 ⊢
          omega
        lt := fun x hx => h.owned.lt x fun h0 => hx (Nat.le_zero.mp (h0 ▸ hn x)) }
    jobs :=
      { h.jobs with
        reserved_worker := fun j hm ho => absurd ho (hj j hm)
        rejected := fun _ _ _ => hj }
    accepts := fun x hx w hw => by simp [hb] at hw }

end Base

theorem Move.base {c m x y} (hm : Move c m x y) (h : Base c x) : Base c y := by
  cases hm with
  | aux s g book recovering waiting hb hw =>
    exact { h with
      jobs := { h.jobs with
        members := fun r hr => (hw r hr).elim (h.jobs.members r) id }
      below := hb }
  | newKey s g => exact { h with keys := h.keys.newKey }
  | refuse s g k r hk => exact { h with keys := h.keys.noFresh }
  | settle s g k r hk | lose s g k hk => exact { h with keys := h.keys.settled hk }
  | unqueue s g ds q r hall hsub =>
    rw [settleAll_eq]
    exact { h with
      keys := h.keys.fewer (ds.map (·.key)) (by
        rw [perm_iff_count]
        intro x
        have := (hall.map (·.key)).count_eq x
        simp only [liveKeys, map_append, count_append] at this ⊢
        omega) h.keys.ok fun p d hd => h.keys.refs p d ((hsub p).subset hd)
      quiet := fun hf p => sublist_nil.mp (h.quiet hf p ▸ hsub p) }
  | flags s g draining blocked hd hq =>
    exact { h with
      owned := { h.owned with pos := fun x hx hdr => h.owned.pos x hx (by grind) }
      bounds := { h.bounds with lower := fun hdr => h.bounds.lower (by grind) }
      quiet := fun hf => hq (by grind) }
  | enqueue s g d hk hd hb hca hun hq =>
    exact { h with
      keys := h.keys.more hk (by
        rw [perm_iff_count]
        intro x
        have := ((MultiQueue.all_push (q := s.queue) (k := d.projectRef) (a := d)).map (·.key)).count_eq x
        simp only [liveKeys, enqueueQueued, record, map_cons, count_append, count_cons] at this ⊢
        omega) h.keys.ok (by
        intro p x hx
        simp only [enqueueQueued, record, MultiQueue.at_push] at hx
        split at hx
        · grind [h.keys.refs]
        · exact h.keys.refs p x hx)
      quiet := fun hf => by
        rcases hf with hf | hf
        · exact absurd (hd.symm.trans hf) false_ne_true
        · exact absurd (hb.symm.trans hf) false_ne_true }
  | uncheck s g => exact { h with places := { h.places with unchecked_idle := fun _ hx => hx } }
  | checked s g hq => exact { h with places := { h.places with unchecked_idle := fun _ hx => by simp at hx } }
  | takeIdle s g w calm hw => exact h.takeIdle hw
  | putIdle s g w hw => exact h.putIdle hw
  | assign s g w p md hm ha hw hc => exact h.assign hm hw
  | create s g hv ht => exact h.create ht hv
  | drop s g w tracked hw hu hv hc hun =>
    have hp : w ∉ s.parkedWorkers := fun hp => h.places.parked_active w hp hw
    have hlen : (setDelete s.activeWorkers w).length + 1 = s.activeWorkers.length :=
      length_setDelete h.places.active_nodup hw
    refine h.drop tracked (.inl hw) hun (fun x hx => by simp [hx]) (by simp) ?_
    rw [setDelete_of_not_mem hp]
    exact {
      upper := by
        have := h.upper
        simp only [hv, toNat_false, toNat_true] at this ⊢
        omega
      lower := fun hd => by
        have := h.lower hd
        simp only [hv, toNat_false, toNat_true] at this ⊢
        omega
      parked := h.bounds.parked }
  | shrink s g w hw hu hun hs hq =>
    have hp : w ∉ s.parkedWorkers := fun hp => h.places.parked_active w hp hw
    have hlen : (setDelete s.activeWorkers w).length + 1 = s.activeWorkers.length :=
      length_setDelete h.places.active_nodup hw
    refine h.drop true (.inl hw) hun (fun x hx => by simp [hx]) (by simp) ?_
    rw [setDelete_of_not_mem hp]
    exact {
      upper := by
        have := h.upper
        omega
      lower := fun _ => by omega
      parked := h.bounds.parked }
  | dropParked s g w tracked hw =>
    have ha : w ∉ s.activeWorkers := h.places.parked_active w hw
    have hl : w ∉ g.loose := fun hl => ha (h.places.loose_active w hl)
    have hu : w ∉ g.unchecked := fun hu => ha (h.places.idle_active w (h.places.unchecked_idle w hu))
    refine h.drop tracked (.inr hw) hu (fun _ _ => rfl) hl ?_
    rw [setDelete_of_not_mem ha]
    exact { h.bounds with parked := fun ho => length_setDelete_le.trans (h.bounds.parked ho) }
  | abandon s g hd =>
    exact { h with
      bounds := { h.bounds with
        upper := by
          have := h.upper
          simp only [toNat_false]
          omega
        lower := fun hf => absurd (hd.symm.trans hf) false_ne_true.symm } }
  | untrack s g w => exact { h with places := h.places.untrack }
  | scrub s g w hm =>
    have hi : w ∉ s.idle := fun hi => h.places.active_known (h.places.idle_active w hi) hm
    have hp : w ∉ s.parkedWorkers := fun hp => h.places.parked_known hp hm
    have hme : Function.update s.metadata w none = s.metadata := hm ▸ Function.update_eq_self w s.metadata
    exact { h with
      places := h.places.scrub hm
      owned := by
        simp only [removeWorkerReferences, setDelete_of_not_mem hi, hme]
        exact h.owned
      hands := h.hands.remove
      bounds := by
        simp only [removeWorkerReferences, setDelete_of_not_mem hp]
        exact h.bounds
      tainted_lt := fun x hx => by
        by_cases he : x = w
        · simp [removeWorkerReferences, he] at hx
        · exact h.tainted_lt x (by simpa [removeWorkerReferences, he] using hx)
      generation_le := fun x md hx => h.generation_le x md (by simpa [removeWorkerReferences, hme] using hx)
      accepts := by
        simp only [removeWorkerReferences, workerAcceptsProject, workerProjectRef, hme]
        exact h.accepts }
  | park s g w hw hv => exact h.park hw hv
  | unpark s g w hw ht =>
    exact { h with
      places := h.places.unpark hw ht
      bounds := { h.bounds with parked := fun ho => length_setDelete_le.trans (h.bounds.parked ho) } }
  | activate s g w ht hv => exact h.activate ht hv
  | trim s g ho => exact { h with bounds := { h.bounds with parked := fun _ => ho } }
  | startQueued s g w d q hw hq =>
    have hall := (MultiQueue.popFor_some hq).2.2
    have hsub := MultiQueue.popFor_sublist hq
    refine h.begin hw (h.keys.fewer [] ?_ (h.begin_ok w d) fun p x hx => h.keys.refs p x ((hsub p).subset hx)) fun hf p =>
      sublist_nil.mp (h.quiet hf p ▸ hsub p)
    rw [perm_iff_count]
    intro x
    have := (hall.map (·.key)).count_eq x
    simp only [liveKeys, Execution.key, map_append, map_cons, map_nil, count_append, count_cons,
      count_nil] at this ⊢
    omega
  | startFresh s g w d md hw hk hd hb hca hm =>
    have hem : g.loose.filter (· ≠ w) = [] := by simp [hw]
    have hre : Base c (s.record (.admitted d.key d.projectRef), g) := { h with }
    have hass : Base c ((s.record (.admitted d.key d.projectRef)).assignTo w d.projectRef md, g) :=
      hre.assign hm (.inl (hw ▸ mem_singleton_self w))
    refine hem ▸ hass.begin (hw ▸ mem_singleton_self w) ?_ h.quiet
    refine h.keys.more hk ?_ (h.begin_ok w d) h.keys.refs
    rw [perm_iff_count]
    intro x
    simp only [liveKeys, assignTo, record, Execution.key, map_append, map_cons, map_nil, count_append,
      count_cons, count_nil]
    omega
  | finish s g e he => exact h.finish he
  | update s g e e' he hd hw hr hok => exact h.update he hd hw hok
  | resolve s g e e' r he hd hw hu hr hok => exact { h.update he hd hw hok with }
  | taint s g t ht hlt => exact { h with tainted_lt := hlt }
  | rotateBegin s g ws =>
    exact { h with generation_le := fun x md hx => Nat.le_succ_of_le (h.generation_le x md hx) }
  | rotateNext s g w rest | rotateEnd s g | succeed s g w | threw s g w | invalidated s g p => exact { h with }
  | preheatStart s g j hid hp hpr hw => exact h.preheatStart hid hw
  | jobs s g js hhe hsub hids => grind [h.withJobs]
  | endJob s g j hj ho => exact h.endJob hj ho
  | setHandler s g j hj hm =>
    exact { h with
      hands :=
        { gone := fun x hx => by
            have hne : x ≠ j.worker := fun he => hm (he ▸ hx)
            exact (Function.update_of_ne hne _ _).trans (h.hands.gone x hx)
          execution := fun x k hx => by
            by_cases he : x = j.worker
            · simp [he] at hx
            · exact h.hands.execution x k (by simpa [he] using hx)
          preheat_lt := fun x id hx => by
            by_cases he : x = j.worker
            · grind [→ h.jobs.ids_lt]
            · exact h.hands.preheat_lt x id (by simpa [he] using hx)
          preheat := fun x id hx i hi hid => by
            by_cases he : x = j.worker
            · simp only [he, Function.update_self, Option.some.injEq, Handler.preheat.injEq] at hx
              have : i = j := inj_on_of_nodup_map h.jobs.ids_nodup hi hj (hid.trans hx.symm)
              rw [this, he]
            · exact h.hands.preheat x id (by simpa [he] using hx) i hi hid } }
  | clearHandler s g w id hh =>
    have hne : ∀ {x a}, Function.update s.handlers w none x = some a → s.handlers x = some a := by
      intro x a hx
      by_cases he : x = w
      · simp [he] at hx
      · simpa [he] using hx
    exact { h with
      hands :=
        { gone := fun x hx => by
            by_cases he : x = w
            · simp [he]
            · simpa [he] using h.hands.gone x hx
          execution := fun x k hx => h.hands.execution x k (hne hx)
          preheat_lt := fun x id hx => h.hands.preheat_lt x id (hne hx)
          preheat := fun x id hx => h.hands.preheat x id (hne hx) } }
  | bulkTake s g b hs hw hj hp ha => exact h.bulkTake hs hw hj hp ha
  | bulkUpdate s g b hb hj ha => exact h.bulkUpdate hb hj ha
  | bulkRelease s g b hb hj hl => exact h.bulkRelease hb hj hl

theorem Moves.base {c m x y} (hm : Moves c m x y) (h : Base c x) : Base c y := by
  induction hm with
  | refl => exact h
  | tail _ hst ih => exact hst.base ih

end Supacloud.EdgeRuntime
