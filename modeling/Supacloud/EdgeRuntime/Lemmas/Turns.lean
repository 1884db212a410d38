import Supacloud.EdgeRuntime.Lemmas.Retirement

/-! # 割り当ての手番 -/

namespace Supacloud.EdgeRuntime

open Library Pool MultiQueue Function List Option

variable {c : Config} {m : Mode} {s s' : Pool} {g : Ghost} {w r : Worker} {p : ProjectRef} {credit : Option ProjectRef}
  {d : Dispatch} {x : Stage}

theorem targetProject_none (h : targetProject c s w = none) (hp : s.queue.at p ≠ []) :
    projectWithinFunctionCap c s p (some w) = false := by
  have hmem : p ∈ s.queue.order := mem_order.mpr hp
  have hfi : s.queue.order.find? (fun p => projectWithinFunctionCap c s p (some w)) = none := by grind [targetProject]
  simpa using find?_eq_none.mp hfi p hmem

theorem targetProject_some (h : targetProject c s w = some p) : s.queue.at p ≠ [] ∧ projectWithinFunctionCap c s p (some w) = true := by
  have hfi : ∀ {q}, s.queue.order.find? (fun p => projectWithinFunctionCap c s p (some w)) = some q →
      s.queue.at q ≠ [] ∧ projectWithinFunctionCap c s q (some w) = true := fun hq =>
    ⟨mem_order.mp (mem_of_find?_eq_some hq), by simpa using find?_some hq⟩
  simp only [targetProject, or_eq_some_iff] at h
  rcases h with h | ⟨-, h⟩
  · have hp := find?_some h
    simp only [Bool.and_eq_true] at hp
    exact ⟨mem_order.mp (mem_of_find?_eq_some h), hp.1.2⟩
  · split at h
    · split at h
      · rename_i ha
        cases h
        simp only [Bool.and_eq_true] at ha
        exact ⟨has_iff.mp ha.1.2, ha.2⟩
      · exact hfi h
    · exact hfi h

/-! ## 実行の終わり -/

theorem finish_moves {e} (hg : g.Rest) (he : e ∈ s.inFlight) (r) : Moves c m (s, g) ((s.cleanup e).resolveOnce e r,
      { g with loose := if e.worker ∈ s.activeWorkers then e.worker :: g.loose else g.loose }) := by
  have h1 := Move.finish (c := c) (m := m) s g e he
  have hgh : ∀ loose pending, ({ g with loose, pending, calm := false } : Ghost) = { g with loose, pending } := by
    intro loose pending
    rw [← hg.calm]
  rw [hgh] at h1
  unfold resolveOnce
  cases hr : e.resolved with
  | true =>
    simp only [hr, if_true] at h1 ⊢
    exact .single h1
  | false =>
    simp only [hr, Bool.false_eq_true, if_false] at h1 ⊢
    have h2 := Move.settle (c := c) (m := m) (s.cleanup e)
      { g with
        loose := if e.worker ∈ s.activeWorkers then e.worker :: g.loose else g.loose
        pending := e.key :: g.pending } e.key r mem_cons_self
    simp only [erase_cons_head] at h2
    exact .tail (.single h1) h2

theorem retireWorker_untaint (ha : w ∈ s.activeWorkers) :
    retireWorker c { s with tainted := update s.tainted w false } w true = retireWorker c s w true := by
  have h1 := retireWorker_active (c := c) (s := { s with tainted := update s.tainted w false }) ha true
  have h2 := retireWorker_active (c := c) ha true
  have hd : ({ s with tainted := update s.tainted w false }).dropWorker w = s.dropWorker w := by
    simp [dropWorker, removeWorkerReferences]
  rw [h1, h2, hd]

theorem recycle_turn (hg : g.Rest) {l} (h : Base c (s, { g with loose := l })) (hun : w ∉ g.unchecked)
    (hl : l = if w ∈ s.activeWorkers then w :: g.loose else g.loose) :
    TurnOk c m (s, { g with loose := l }) g (recycle c s w) := by
  unfold recycle
  by_cases ha : w ∈ s.activeWorkers
  · rw [if_pos ha] at hl
    subst hl
    rw [if_neg (by simpa using ha)]
    split
    · rw [retireWorker_untaint ha]
      exact retireWorker_turn hg h (h.filter_loose rfl) (fun _ => .inr (.inl mem_cons_self)) hun
    · exact ⟨g.credit, .refl, .inl hg.credit⟩
  · rw [if_neg ha] at hl
    subst hl
    rw [if_pos (by simpa using ha)]
    exact .of_none hg .refl

theorem recycle_some (ha : w ∈ s.activeWorkers) (ht : s.tainted w = false) : recycle c s w = (s, some w) := by
  simp [recycle, ha, ht]

theorem finish_turn {e} (hg : g.Rest) (h : Base c (s, g)) (he : e ∈ s.inFlight) (hun : e.worker ∉ g.unchecked)
    (r) : TurnOk c m (s, g) g (recycle c ((s.cleanup e).resolveOnce e r) e.worker) := by
  have h1 := finish_moves (c := c) (m := m) hg he r
  have hac : ((s.cleanup e).resolveOnce e r).activeWorkers = s.activeWorkers := by
    unfold resolveOnce
    split <;> rfl
  exact .head h1 (recycle_turn hg (h1.base h) hun (by rw [hac]))

theorem retireWithFailure_turn {e} (hg : g.Rest) (h : Base c (s, g)) (he : e ∈ s.inFlight)
    (hun : e.worker ∉ g.unchecked) (r) : TurnOk c m (s, g) g (retireWithFailure c s e r) := by
  have h1 := finish_moves (c := c) (m := m) hg he r
  have hb := h1.base h
  refine .head h1 (retireWorker_turn hg hb ?_ ?_ hun)
  · grind [hb.filter_loose, h.places.loose_active, filter_ne_of_not_mem]
  · intro ha
    have hac : ((s.cleanup e).resolveOnce e r).activeWorkers = s.activeWorkers := by
      unfold resolveOnce
      split <;> rfl
    rw [hac] at ha
    rw [if_pos ha]
    exact .inr (.inl mem_cons_self)

/-! ## 実行の始まり -/

def turnMeasure : Pool × Option Worker → Nat
  | (_, none) => 0
  | (s, some w) => 2 * s.queue.count + if s.tainted w then 2 else 1

theorem assignTo_same {md} (hm : s.metadata w = some md) (hp : md.projectRef = some p) :
    s.assignTo w p md = s.record (.assigned w p) := by
  have : update s.metadata w (some { md with projectRef := some p }) = s.metadata := by
    rw [← hp, ← hm, update_eq_self]
  unfold assignTo
  rw [this]

theorem started_turn {t} (hg : g.Rest) (h : Base c (s.beginExecution w d, g)) (hw : w ∈ s.activeWorkers)
    (ht : s.tainted w = false) (hun : w ∉ g.unchecked) (he : t = match d.startFailure with
      | none => (s.beginExecution w d, none)
      | some f => recycle c (((s.beginExecution w d).cleanup { dispatch := d, worker := w }).resolveOnce
          { dispatch := d, worker := w } f.response) w) :
    TurnOk c m (s.beginExecution w d, g) g t ∧ t.1.queue = s.queue ∧ (∀ r, t.2 = some r → t.1.tainted r = false) := by
  subst he
  cases d.startFailure with
  | none => exact ⟨.of_none hg .refl, rfl, nofun⟩
  | some f =>
    refine ⟨finish_turn (e := { dispatch := d, worker := w }) hg h (by simp [beginExecution, record]) hun _, ?_⟩
    have hr : recycle c (((s.beginExecution w d).cleanup { dispatch := d, worker := w }).resolveOnce
        { dispatch := d, worker := w } f.response) w =
        (((s.beginExecution w d).cleanup { dispatch := d, worker := w }).settle d.key f.response, some w) :=
      recycle_some hw ht
    simp only [hr]
    refine ⟨rfl, fun r he => ?_⟩
    cases he
    exact ht

theorem MultiQueue.count_popFor {q q' : MultiQueue ProjectRef Dispatch} (h : q.popFor p = some (d, q')) : q.count = q'.count + 1 := by
  have := (popFor_some h).2.2.length_eq
  rw [length_cons] at this
  rw [q.count_eq, q'.count_eq]
  exact this

theorem execute_turn (hg : g.Rest) {q b} (h : Base c (s, { g with loose := w :: g.loose })) (hb : s.book.Keeps b)
    (hp : s.workerProjectRef w = some p) (hq : s.queue.popFor p = some (d, q)) (ht : s.tainted w = false)
    (hd : s.draining = false) (hcap : projectWithinFunctionCap c s p (some w) = true) (hun : w ∉ g.unchecked) :
    TurnOk c m (s, { g with loose := w :: g.loose }) g (execute c { s with queue := q, book := b } w d) ∧
      turnMeasure (execute c { s with queue := q, book := b } w d) < 2 * s.queue.count := by
  obtain ⟨md, hmd, hpd⟩ := workerProjectRef_eq_some.mp hp
  have hdp : d.projectRef = p := h.keys.refs p d ((MultiQueue.popFor_some hq).1 ▸ mem_cons_self)
  subst hdp
  have hwa : w ∈ s.activeWorkers := h.places.loose_active w mem_cons_self
  have h1 := h.book (m := m) b hb
  have h2 := Move.assign (c := c) (m := m) { s with book := b } { g with loose := w :: g.loose } w d.projectRef md hmd
    (.inr hpd) (.inl mem_cons_self) (.inl hg.credit)
  have hsa : ({ s with book := b }).assignTo w d.projectRef md =
      ({ s with book := b }).record (.assigned w d.projectRef) := assignTo_same hmd hpd
  have h3 := Move.startQueued (c := c) (m := m) (({ s with book := b }).record (.assigned w d.projectRef))
    { g with loose := w :: g.loose, credit := none } w d q mem_cons_self hq hd hp ht hcap rfl
  have hgh : ({ g with loose := (w :: g.loose).filter (· ≠ w), credit := none, calm := false } : Ghost) = g := by
    rw [h.filter_loose rfl, ← hg.credit, ← hg.calm]
  dsimp only at h2 h3
  rw [hsa] at h2
  rw [hgh] at h3
  have hmos := ((Relation.ReflTransGen.single h1).tail h2).tail h3
  have hex : execute c { s with queue := q, book := b } w d = match d.startFailure with
      | none => (({ ({ s with book := b }).record (.assigned w d.projectRef) with queue := q }).beginExecution w d, none)
      | some f => recycle c (((({ ({ s with book := b }).record (.assigned w d.projectRef) with
          queue := q }).beginExecution w d).cleanup { dispatch := d, worker := w }).resolveOnce
            { dispatch := d, worker := w } f.response) w := by
    unfold execute
    rw [assignWorkerProject_eq (s := { s with queue := q, book := b }) hmd (.inr hpd),
      assignTo_same (s := { s with queue := q, book := b }) hmd hpd]
    rfl
  obtain ⟨htu, hqu, hta⟩ := started_turn (m := m) hg (Moves.base hmos h) hwa ht hun hex
  refine ⟨.head hmos htu, ?_⟩
  have hco := MultiQueue.count_popFor hq
  generalize execute c { s with queue := q, book := b } w d = t at hqu hta
  obtain ⟨s', o⟩ := t
  cases o with
  | none =>
    simp only [turnMeasure]
    omega
  | some r => grind [turnMeasure]

/-! ## 一回分 -/

theorem putIdle_turn (hg : g.Rest) {calm} (h : Base c (s, { g with loose := w :: g.loose, credit, calm }))
    (hq : s.draining = true ∨ s.admissionBlocked = true ∨ (calm = true ∧ w :: g.loose = [w]) ∨
      ∀ p, s.queue.at p ≠ [] → projectWithinFunctionCap c s p (some w) = false) :
    Moves c m (s, { g with loose := w :: g.loose, credit, calm }) (s.pushIdle w, g) := by
  have h1 := Move.putIdle (c := c) (m := m) s { g with loose := w :: g.loose, credit, calm } w mem_cons_self hq
  have hgh : ({ g with loose := (w :: g.loose).filter (· ≠ w), credit := none, calm := false } : Ghost) = g := by
    rw [h.filter_loose rfl, ← hg.credit, ← hg.calm]
  dsimp only at h1
  rw [hgh] at h1
  exact .single h1

theorem runNext_turn (hg : g.Rest) (h : Base c (s, { g with loose := w :: g.loose }))
    (hp : s.workerProjectRef w = some p) (ht : s.tainted w = false) (hun : w ∉ g.unchecked)
    (hq : s.draining = true ∨ (s.queue.at p ≠ [] ∧ projectWithinFunctionCap c s p (some w) = true)) :
    TurnOk c m (s, { g with loose := w :: g.loose }) g (runNext c s w) ∧
      (turnMeasure (runNext c s w) = 0 ∨ turnMeasure (runNext c s w) < 2 * s.queue.count) := by
  unfold runNext dequeueQueuedForWorker
  rw [hp]
  dsimp only
  cases hpop : s.queue.popFor p with
  | none =>
    have hd : s.draining = true := hq.resolve_right fun h => h.1 (popFor_eq_none.mp hpop)
    exact ⟨.of_none hg (putIdle_turn hg h (.inl hd)), .inl rfl⟩
  | some x =>
    obtain ⟨d, q⟩ := x
    have hne : s.queue.at p ≠ [] := by
      rw [(popFor_some hpop).1]
      exact cons_ne_nil _ _
    have hd : s.draining = false := by
      by_contra hd
      exact hne (h.quiet (.inl (by simpa using hd)) p)
    have hcap := (hq.resolve_left (by simp [hd])).2
    obtain ⟨htu, hlt⟩ := execute_turn (m := m) (b := { s.book with lastDispatchedProjectRef := some d.projectRef }) hg h
      ⟨rfl, fun _ h => h⟩
      hp hpop ht hd hcap hun
    exact ⟨htu, .inr hlt⟩

theorem Switched.withinCap {calm} (hs : Switched c m s g w p calm s' r) (hn : s'.activeWorkers.Nodup)
    (hcap : projectWithinFunctionCap c s p (some w) = true) : projectWithinFunctionCap c s' p (some r) = true := by
  have hle : s'.executingCount p (some r) ≤ s.executingCount p (some w) := by
    unfold executingCount
    refine (subperm_of_subset (hn.filter _) fun x hx => ?_).length_le
    simp only [mem_filter, decide_eq_true_eq, ne_eq, some.injEq] at hx ⊢
    obtain ⟨hxa, hxr, hxi, hxp⟩ := hx
    obtain ⟨ha, hw, hmt⟩ := hs.active x hxa hxr
    refine ⟨ha, hw, fun hi => hxi ?_, ?_⟩
    · rw [hs.idle]
      exact mem_setDelete.mpr ⟨hi, hw⟩
    · rw [← hxp]
      simp [workerProjectRef, hmt]
  unfold projectWithinFunctionCap at hcap ⊢
  cases hb : tenantBudget c p with
  | unlimited => rfl
  | invalid => simp [hb] at hcap
  | limited b =>
    simp only [hb, decide_eq_true_eq] at hcap ⊢
    omega

theorem retireWorker_measure (h : Base c (s, g)) (ha : w ∈ s.activeWorkers) :
    turnMeasure (retireWorker c s w true) ≤ 2 * s.queue.count + 1 := by
  rw [retireWorker_active ha]
  obtain ⟨retired, queue, draining, log, book, he, hq⟩ := trackRetiredWorker_halts (c := c) (s := s.dropWorker w) (w := w)
  rw [he]
  split
  · rename_i hd
    have hqu : queue = s.queue := by
      rcases hq with hq | hq
      · exact absurd (hq.symm.trans hd.1) Bool.false_ne_true.symm
      · exact hq.1
    obtain ⟨b, hb, -⟩ := recordWorkerReplacement_eq (c := c)
      (s := { s.dropWorker w with retiredWorkers := retired, queue, draining, log, book })
    have hnew : (s.dropWorker w).tainted s.nextWorker = false := by
      have hne : s.nextWorker ≠ w := fun he => Nat.lt_irrefl _ (he ▸ h.active_lt ha)
      exact (update_of_ne hne _ _).trans h.new_untainted
    have hm : turnMeasure (replaceWorker c
        { s.dropWorker w with retiredWorkers := retired, queue, draining, log, book }) =
        2 * queue.count + if (s.dropWorker w).tainted s.nextWorker then 2 else 1 := by
      unfold replaceWorker
      rw [hb]
      rfl
    rw [hm, hnew, hqu]
    simp
  · simp [turnMeasure]

theorem Base.loose_not_unchecked (h : Base c (s, g)) (hw : w ∈ g.loose) : w ∉ g.unchecked := fun hu =>
  h.loose_not_idle hw (h.places.unchecked_idle w hu)

theorem shouldRetireSurplusWorker_true (h : shouldRetireSurplusWorker c s = true) :
    c.size < s.activeWorkers.length ∧ ∀ p, s.queue.at p = [] := by
  simp only [shouldRetireSurplusWorker, Bool.and_eq_true, decide_eq_true_eq, beq_iff_eq] at h
  exact ⟨h.1.2, count_eq_zero.mp h.2⟩

theorem workerAcceptsProject_true {md} (hm : s.metadata w = some md) (h : s.workerAcceptsProject w p = true) :
    md.projectRef = none ∨ md.projectRef = some p := by
  unfold workerAcceptsProject workerProjectRef at h
  rw [hm] at h
  dsimp only [bind_some] at h
  cases hp : md.projectRef with
  | none => exact .inl rfl
  | some q =>
    rw [hp] at h
    exact .inr (congrArg some (by simpa using h))

section

variable (hg : g.Rest) (h : Base c (s, { g with loose := w :: g.loose, credit })) (hcr : credit = none ∨ (s.workerProjectRef w = none ∧ s.tainted w = false))

include hg h hcr

theorem target_turn {t} (ht : s.tainted w = false) (hp : s.queue.at p ≠ []) (hcap : projectWithinFunctionCap c s p (some w) = true)
    (he : t = if !s.workerAcceptsProject w p then
        match switchProjectSlot c s w p with
        | (s, none) => (s, none)
        | (s, some r) => runNext c s r
      else
        match s.assignWorkerProject w p with
        | (s, false) => (s, none)
        | (s, true) => runNext c s w) :
    TurnOk c m (s, { g with loose := w :: g.loose, credit }) g t ∧ turnMeasure t ≤ 2 * s.queue.count := by
  subst he
  split
  · rename_i hacc
    -- 枠を渡すのは、割り当て済みの実行者だけである。
    have hacc : ∃ q, s.workerProjectRef w = some q ∧ q ≠ p := by grind [workerAcceptsProject]
    obtain ⟨q, hq, hqp⟩ := hacc
    have hcr : credit = none := hcr.resolve_right fun hu => by simp [hq] at hu
    have hgh : ({ g with loose := w :: g.loose, credit } : Ghost) = { g with loose := w :: g.loose } := by
      rw [hcr, ← hg.credit]
    rw [hgh] at h ⊢
    have hpa : CanPark c s { g with loose := w :: g.loose } w :=
      .inr (.inr (.inr ⟨p, hp, by simpa [hq] using hqp, hcap⟩))
    obtain ⟨s', r, he, hs⟩ := switchProjectSlot_spec (m := m) (p := p) hg h hpa
    rw [he]
    have hb := hs.moves.base h
    have hrun := runNext_turn (m := m) hg hb hs.project hs.tainted (hb.loose_not_unchecked mem_cons_self) (by
      rcases hs.queue with hd | ⟨hqq, -⟩
      · exact .inl hd
      · exact .inr ⟨hqq ▸ hp, hs.withinCap hb.places.active_nodup hcap⟩)
    refine ⟨.head hs.moves hrun.1, ?_⟩
    dsimp only
    rcases hs.queue with hd | ⟨hqq, -⟩
    · have : s'.queue.count = 0 := count_eq_zero.mpr (hb.quiet (.inl hd))
      omega
    · rw [hqq] at hrun
      omega
  · rename_i hacc
    have hmt : s.metadata w ≠ none := h.places.active_known (h.places.loose_active w mem_cons_self)
    obtain ⟨md, hmd⟩ := ne_none_iff_exists'.mp hmt
    have ha := workerAcceptsProject_true hmd (by simpa using hacc)
    have hpr : s.workerProjectRef w = md.projectRef := by simp [workerProjectRef, hmd]
    have h1 := Move.assign (c := c) (m := m) s { g with loose := w :: g.loose, credit } w p md hmd ha
      (.inl mem_cons_self)
      (hcr.imp id fun hu => ⟨mem_cons_self, hpr ▸ hu.1, hp, hcap⟩)
    have hgh : ({ g with loose := w :: g.loose, credit := none } : Ghost) = { g with loose := w :: g.loose } := by
      rw [← hg.credit]
    dsimp only at h1
    rw [hgh] at h1
    have hb := h1.base h
    rw [assignWorkerProject_eq hmd ha]
    have hca' : projectWithinFunctionCap c (s.assignTo w p md) p (some w) = true := by
      have hco : (s.assignTo w p md).executingCount p (some w) = s.executingCount p (some w) := by
        unfold executingCount
        refine congrArg length (filter_congr fun x _ => ?_)
        by_cases hx : x = w
        · simp [hx]
        · simp [assignTo, record, workerProjectRef, hx]
      unfold projectWithinFunctionCap at hcap ⊢
      rwa [hco]
    have hrun := runNext_turn (m := m) hg hb (p := p) (by simp [workerProjectRef, assignTo, record]) ht
      (hb.loose_not_unchecked mem_cons_self) (.inr ⟨hp, hca'⟩)
    refine ⟨.head (.single h1) hrun.1, ?_⟩
    have hq : (s.assignTo w p md).queue = s.queue := rfl
    rw [hq] at hrun
    dsimp only
    omega

theorem scheduleStep_turn : TurnOk c m (s, { g with loose := w :: g.loose, credit }) g (scheduleStep c s w) ∧
      turnMeasure (scheduleStep c s w) < turnMeasure (s, some w) := by
  have h1 : Move c m (s, { g with loose := w :: g.loose, credit })
      (s.clearSurplusTimer w, { g with loose := w :: g.loose, credit }) := h.book _ ⟨rfl, fun _ h => h⟩
  have hb := h1.base h
  have hcr : credit = none ∨ ((s.clearSurplusTimer w).workerProjectRef w = none ∧ (s.clearSurplusTimer w).tainted w = false) :=
    hcr
  have hme : turnMeasure (s, some w) = turnMeasure (s.clearSurplusTimer w, some w) := rfl
  rw [hme]
  unfold scheduleStep
  dsimp only
  generalize s.clearSurplusTimer w = s₁ at h1 hb hcr ⊢
  have hwa : w ∈ s₁.activeWorkers := hb.places.loose_active w mem_cons_self
  have hun : w ∉ g.unchecked := hb.loose_not_unchecked mem_cons_self
  have hpos : 0 < turnMeasure (s₁, some w) := by
    simp only [turnMeasure]
    split <;> omega
  have hidl : ∀ {s'}, TurnOk c m (s₁, { g with loose := w :: g.loose, credit }) g (s', none) →
      TurnOk c m (s, { g with loose := w :: g.loose, credit }) g (s', none) ∧
        turnMeasure (s', none) < turnMeasure (s₁, some w) := fun ht => ⟨.head (.single h1) ht, hpos⟩
  split
  · rename_i ht
    have hcr : credit = none := hcr.resolve_right fun hu => by simp [ht] at hu
    have hgh : ({ g with loose := w :: g.loose, credit } : Ghost) = { g with loose := w :: g.loose } := by
      rw [hcr, ← hg.credit]
    refine ⟨.head (.single h1) ?_, ?_⟩
    · rw [hgh] at hb ⊢
      exact retireWorker_turn hg hb (hb.filter_loose rfl) (fun _ => .inr (.inl mem_cons_self)) hun
    · have := retireWorker_measure hb hwa
      simp only [turnMeasure, ht, if_true] at this ⊢
      omega
  · rename_i ht
    have ht : s₁.tainted w = false := by simpa using ht
    split
    · rename_i hsur
      obtain ⟨hsi, hem⟩ := shouldRetireSurplusWorker_true hsur
      split
      · exact hidl (.of_none hg (retireSurplusWorker_moves hg hb (hb.filter_loose rfl) hwa (.inr (.inl mem_cons_self))
          hun hsi hem))
      · have h2 := putIdle_turn (m := m) hg hb (.inr (.inr (.inr fun p hp => absurd (hem p) hp)))
        exact hidl (.of_none hg (h2.tail ((h2.base hb).book _ ⟨rfl, fun _ h => h⟩)))
    · split
      · rename_i hd
        have hd : s₁.draining = true ∨ s₁.admissionBlocked = true := by simpa using hd
        exact hidl (.of_none hg (putIdle_turn hg hb (hd.imp id .inl)))
      · split
        · rename_i htr
          exact hidl (.of_none hg (putIdle_turn hg hb (.inr (.inr (.inr fun p hp => targetProject_none htr hp)))))
        · rename_i p htr
          obtain ⟨hp, hcap⟩ := targetProject_some htr
          obtain ⟨htu, hle⟩ := target_turn (m := m) hg hb hcr ht hp hcap rfl
          refine ⟨.head (.single h1) htu, ?_⟩
          simp only [turnMeasure, ht, Bool.false_eq_true, if_false] at hle ⊢
          exact Nat.lt_succ_of_le hle

end

/-! ## 手番の終わりまで -/

theorem TurnOk.moves (hg : g.Rest) (h : TurnOk c m x g (s, none)) : Moves c m x (s, g) := by
  obtain ⟨credit, hm, hc⟩ := h
  have hcre : credit = none := hc.resolve_right (by simp)
  have hgh : ({ g with loose := [] ++ g.loose, credit } : Ghost) = g := by
    rw [nil_append, hcre, ← hg.credit]
  exact hgh ▸ hm

theorem scheduleLoop_moves {t} (hg : g.Rest) (n) (hx : Base c x)
    (h : TurnOk c m x g t) (hn : turnMeasure t ≤ n) : Moves c m x (scheduleLoop c n t, g) := by
  induction n generalizing t with
  | zero =>
    obtain ⟨s, o⟩ := t
    cases o with
    | none => exact h.moves hg
    | some w =>
      simp only [turnMeasure] at hn
      split at hn <;> omega
  | succ n ih =>
    obtain ⟨s, o⟩ := t
    cases o with
    | none => exact h.moves hg
    | some w =>
      obtain ⟨credit, hm, hc⟩ := h
      have hcr : credit = none ∨ (s.workerProjectRef w = none ∧ s.tainted w = false) := by
        rcases hc with hc | ⟨r, hr, hu⟩
        · exact .inl hc
        · cases hr
          exact .inr hu
      obtain ⟨htu, hlt⟩ := scheduleStep_turn (m := m) (s := s) hg (hm.base hx) hcr
      exact ih (htu.head hm) (by omega)

theorem finishTurn_moves {t} (hg : g.Rest) (hx : Base c x) (h : TurnOk c m x g t) : Moves c m x (finishTurn c t, g) := by
  refine scheduleLoop_moves hg _ hx h ?_
  obtain ⟨s, o⟩ := t
  cases o with
  | none => simp [turnMeasure]
  | some w =>
    simp only [turnMeasure]
    split <;> omega

theorem schedule_moves (hg : g.Rest) (h : Base c (s, { g with loose := w :: g.loose })) :
    Moves c m (s, { g with loose := w :: g.loose }) (schedule c s w, g) :=
  finishTurn_moves hg h ⟨g.credit, .refl, .inl hg.credit⟩

/-! ## 受け付けの手番 -/

theorem Ghost.rest_empty {fresh unchecked rotating} : ({ fresh, unchecked, rotating } : Ghost).Rest := ⟨rfl, rfl, rfl, rfl, rfl⟩

/-! ## 空いた枠を探す -/

theorem ensureWorkerForQueuedProject_moves (hg : g.Rest) {ws} (hn : ws.Nodup) (h : Base c (s, { g with unchecked := ws })) :
    Moves c m (s, { g with unchecked := ws }) (ensureWorkerForQueuedProject c ws s, { g with unchecked := [] }) := by
  induction ws generalizing s with
  | nil => exact .refl
  | cons w rest ih =>
    unfold ensureWorkerForQueuedProject
    split
    · rename_i hc
      exact .single (.checked s _ (count_eq_zero.mp hc))
    · have hw : w ∈ s.idle := h.places.unchecked_idle w mem_cons_self
      have h1 := Move.takeIdle (c := c) (m := m) s { g with unchecked := w :: rest } w false hw nofun
      rw [nodup_cons] at hn
      have hgh : ({ g with unchecked := (w :: rest).filter (· ≠ w), loose := w :: g.loose, calm := false } : Ghost) =
          { g with unchecked := rest, loose := w :: g.loose } := by
        rw [filter_cons_of_neg (by simp), filter_ne_of_not_mem hn.1, ← hg.calm]
      dsimp only at h1
      rw [hgh] at h1
      have hb := h1.base h
      have hrs : ({ g with unchecked := rest } : Ghost).Rest := { hg with }
      have h2 := schedule_moves (m := m) hrs hb
      exact .trans (.trans (.single h1) h2) (ih hn.2 (h2.base hb))

theorem Base.idle_nodup (h : Base c (s, g)) : s.idle.Nodup :=
  nodup_iff_count_le_one.mpr fun w => by
    by_cases hw : w ∈ s.idle
    · exact Nat.le_of_eq (h.idle_owners hw).2
    · rw [count_eq_zero_of_not_mem hw]
      exact Nat.zero_le _

theorem ensureCapacityForQueuedWork_moves (hg : g.Rest) (h : Base c (s, { g with unchecked := s.idle })) :
    Moves c m (s, { g with unchecked := s.idle }) (ensureCapacityForQueuedWork c s, { g with unchecked := [] }) := by
  have h1 := ensureWorkerForQueuedProject_moves (m := m) hg h.idle_nodup h
  have hb := h1.base h
  unfold ensureCapacityForQueuedWork
  generalize ensureWorkerForQueuedProject c s.idle s = s₁ at h1 hb
  dsimp only
  split
  · exact h1
  · split
    · exact h1
    · split
      · exact h1
      · rename_i hmax
        split
        · exact h1
        · split
          · exact h1
          · have h2 := Move.create (c := c) (m := m) s₁ { g with unchecked := [] } (.inr (by omega)) hg.transit
            have hgh : ({ g with unchecked := [], loose := s₁.nextWorker :: g.loose, vacant := false } : Ghost) =
                { g with unchecked := [], loose := s₁.nextWorker :: g.loose } := by
              rw [← hg.vacant]
            dsimp only at h2
            rw [hgh] at h2
            have hrs : ({ g with unchecked := [] } : Ghost).Rest := { hg with }
            exact .trans (.tail h1 h2) (schedule_moves hrs (h2.base hb))

/-! ## 受け付け -/

theorem findLast_some {l q} (h : findLast l q = some w) : w ∈ l ∧ q w = true :=
  ⟨mem_reverse.mp (mem_of_find?_eq_some h), find?_some h⟩

theorem takeIdleWorker_some (h : s.takeIdleWorker p = some (w, s')) :
    w ∈ s.idle ∧ s.tainted w = false ∧ s.workerAcceptsProject w p = true ∧
      s' = clearSurplusTimer { s with idle := setDelete s.idle w } w := by
  unfold takeIdleWorker at h
  split at h
  · cases h
  · rename_i x hx
    cases h
    rw [or_eq_some_iff] at hx
    rcases hx with hx | ⟨-, hx⟩
    · obtain ⟨hmem, hq⟩ := findLast_some hx
      grind [workerAcceptsProject]
    · obtain ⟨hmem, hq⟩ := findLast_some hx
      grind

theorem withinCap_takeIdle (hw : w ∈ s.idle) (h : projectWithinFunctionCap c s p none = true) :
    projectWithinFunctionCap c { s with idle := setDelete s.idle w } p (some w) = true := by
  have hco : ({ s with idle := setDelete s.idle w }).executingCount p (some w) = s.executingCount p none := by
    unfold executingCount
    refine congrArg length (filter_congr fun x _ => ?_)
    by_cases hx : x = w
    · simp [hx, hw]
    · simp [hx, workerProjectRef]
  unfold projectWithinFunctionCap at h ⊢
  rwa [hco]

section

variable (h : Base c (s, { fresh := some d.key })) (hd : s.draining = false)

include h hd

theorem delay_moves (hb : s.admissionBlocked = false)
    (hq : ∀ b, tenantBudget c d.projectRef = .limited b → (s.queue.at d.projectRef).length + 1 ≤ b.queue) :
    Moves c m (s, { fresh := some d.key }) (delay c s d, {}) := by
  have h1 := Move.uncheck (c := c) (m := m) s { fresh := some d.key }
  have h2 := Move.enqueue (c := c) (m := m) s { fresh := some d.key, unchecked := s.idle } d rfl hd hb rfl rfl hq
  have h3 := ensureCapacityForQueuedWork_moves (m := m) (s := (s.record (.admitted d.key d.projectRef)).enqueueQueued d)
    (g := {}) Ghost.rest_empty (h2.base (h1.base h))
  exact .trans (.tail (.single h1) h2) h3

theorem runNow_moves (hb : s.admissionBlocked = false) (ht : s.takeIdleWorker d.projectRef = some (w, s'))
    (hcap : projectWithinFunctionCap c s d.projectRef none = true) : Moves c m (s, { fresh := some d.key }) (runNow c s' w d, {}) := by
  obtain ⟨hw, hta, hacc, rfl⟩ := takeIdleWorker_some ht
  have hwa : w ∈ s.activeWorkers := h.places.idle_active w hw
  obtain ⟨md, hmd⟩ := ne_none_iff_exists'.mp (h.places.active_known hwa)
  have ha := workerAcceptsProject_true hmd hacc
  have h1 := Move.takeIdle (c := c) (m := m) s { fresh := some d.key } w true hw fun _ => ⟨rfl, rfl, nofun⟩
  have hb1 := h1.base h
  have h2 := hb1.book (m := m) { s.book with
    surplusTimer := update s.book.surplusTimer w false
    lastDispatchedProjectRef := some d.projectRef } ⟨rfl, fun _ h => h⟩
  let s₁ : Pool := { s with
    idle := setDelete s.idle w
    book := { s.book with
      surplusTimer := update s.book.surplusTimer w false
      lastDispatchedProjectRef := some d.projectRef } }
  have h3 := Move.startFresh (c := c) (m := m) s₁ { fresh := some d.key, loose := [w], calm := true } w d md rfl rfl hd hb rfl
    hmd ha hta (withinCap_takeIdle hw hcap) rfl
  have hmos : Moves c m (s, { fresh := some d.key })
      (((s₁.record (.admitted d.key d.projectRef)).assignTo w d.projectRef md).beginExecution w d, {}) :=
    .tail (.tail (.single h1) h2) h3
  have hb3 := hmos.base h
  have hex : execute c (s₁.record (.admitted d.key d.projectRef)) w d = match d.startFailure with
      | none => (((s₁.record (.admitted d.key d.projectRef)).assignTo w d.projectRef md).beginExecution w d, none)
      | some f => recycle c (((((s₁.record (.admitted d.key d.projectRef)).assignTo w d.projectRef md).beginExecution w
          d).cleanup { dispatch := d, worker := w }).resolveOnce { dispatch := d, worker := w } f.response) w := by
    unfold execute
    rewrite [assignWorkerProject_eq (s := s₁.record (.admitted d.key d.projectRef)) hmd ha]
    rfl
  obtain ⟨htu, -⟩ := started_turn (m := m) Ghost.rest_empty hb3 hwa hta nofun hex
  exact .trans hmos (finishTurn_moves Ghost.rest_empty hb3 htu)

theorem enqueue_moves : Moves c m (s, { fresh := some d.key }) (enqueue c s d, {}) := by
  have hre : ∀ r, Moves c m (s, { fresh := some d.key }) (s.refuse d r, {}) := fun r =>
    .single (.refuse s { fresh := some d.key } d.key r rfl)
  unfold enqueue
  split
  · exact hre _
  · rename_i hrej
    have hb : s.admissionBlocked = false := by
      simp only [rejectAdmission, Bool.or_eq_true, not_or, Bool.not_eq_true] at hrej
      exact hrej.1
    split
    · exact hre _
    · dsimp only
      split
      · exact hre _
      · rename_i budget hbu
        have hde : (s.queue.at d.projectRef).length + 1 ≤ budget.queue → Moves c m (s, { fresh := some d.key }) (delay c s d, {}) := by
          intro hq
          refine delay_moves h hd hb fun b hb' => ?_
          rw [hbu] at hb'
          cases hb'
          exact hq
        split
        · exact hre _
        · rename_i hadm
          exact hde (edgeTenantAdmission_delay hadm)
        · rename_i hadm
          have hcap : projectWithinFunctionCap c s d.projectRef none = true := by
            simpa [projectWithinFunctionCap, hbu] using edgeTenantAdmission_run hadm
          split
          next ht => exact runNow_moves h hd hb ht hcap
          next =>
            split
            next hq => exact hde (edgeTenantQueueAdmission_true hq)
            next => exact hre _
      · rename_i hbu
        split
        next ht => exact runNow_moves h hd hb ht (by simp [projectWithinFunctionCap, hbu])
        next => exact delay_moves h hd hb fun b hb' => nomatch hbu.symm.trans hb'

end

theorem dispatch_moves (h : Base c (s, {})) {cancelKey maxHeapBytes startFailure} :
    Moves c m (s, {}) (s.dispatch c p cancelKey maxHeapBytes startFailure, {}) := by
  let d : Dispatch := { key := s.nextKey, projectRef := p, cancelKey, maxHeapBytes, startFailure }
  have h1 := Move.newKey (c := c) (m := m) s {}
  have hb := h1.base h
  have hre : ∀ r, Moves c m (s, {}) (({ s with nextKey := s.nextKey + 1 }).refuse d r, {}) := fun r =>
    .tail (.single h1) (.refuse { s with nextKey := s.nextKey + 1 } { fresh := some s.nextKey } s.nextKey r rfl)
  unfold dispatch
  dsimp only
  split
  · exact hre _
  · rename_i hd
    split
    · exact hre _
    · exact .trans (.single h1) (enqueue_moves (d := d) hb (by simpa using hd))

end Supacloud.EdgeRuntime
