import Supacloud.EdgeRuntime.Lemmas.Executions

/-! # 割り当ての間に変わらない項目 -/

namespace Supacloud.EdgeRuntime

open Library Pool Ghost Move List

variable {c : Config} {s s' : Pool} {w : Worker} {t : Pool × Option Worker}

structure Still (s s' : Pool) : Prop where
  preheats : s'.preheats = s.preheats
  bulk : s'.bulk = s.bulk
  workerGeneration : s'.workerGeneration = s.workerGeneration
  admissionBlocked : s'.admissionBlocked = s.admissionBlocked
  placed : ∀ x, Placed s x → Placed s' x

theorem Still.refl (s) : Still s s := ⟨rfl, rfl, rfl, rfl, fun _ h => h⟩

theorem Still.trans {s₁ s₂ s₃} (h : Still s₁ s₂) (h' : Still s₂ s₃) : Still s₁ s₃ :=
  ⟨h'.preheats.trans h.preheats, h'.bulk.trans h.bulk, h'.workerGeneration.trans h.workerGeneration,
    h'.admissionBlocked.trans h.admissionBlocked, fun x hx => h'.placed x (h.placed x hx)⟩

theorem Still.after {s₁ s₂ s₃} (h' : Still s₂ s₃) (h : Still s₁ s₂) : Still s₁ s₃ := h.trans h'

theorem clearQueue_still {r} : Still s (s.clearQueue r) := by
  unfold clearQueue
  rw [settleAll_eq]
  exact ⟨rfl, rfl, rfl, rfl, fun _ h => h⟩

theorem trackRetiredWorker_still : Still s (trackRetiredWorker c s w) := by
  have h : Still s { s with retiredWorkers := setAdd s.retiredWorkers w } :=
    ⟨rfl, rfl, rfl, rfl, fun x hx => hx.imp_right fun hx => mem_setAdd.mpr (.inl hx)⟩
  unfold trackRetiredWorker triggerRetirementFailSafe
  dsimp only
  split
  · split
    · exact h
    · exact h.trans (clearQueue_still.after ⟨rfl, rfl, rfl, rfl, fun _ h => h⟩)
  · exact h

theorem trackRetiredWorker_retired : w ∈ (trackRetiredWorker c s w).retiredWorkers := by
  have h : w ∈ setAdd s.retiredWorkers w := mem_setAdd.mpr (.inr rfl)
  unfold trackRetiredWorker triggerRetirementFailSafe
  dsimp only
  split
  · split
    · exact h
    · simp only [stopDispatching, clearQueue, settleAll_eq]
      exact h
  · exact h

theorem checkWorkerRecycleBudget_still : Still s (checkWorkerRecycleBudget c s) := by
  unfold checkWorkerRecycleBudget
  split <;> exact ⟨rfl, rfl, rfl, rfl, fun _ h => h⟩

theorem recordWorkerReplacement_still : Still s (recordWorkerReplacement c s) := by
  unfold recordWorkerReplacement
  exact checkWorkerRecycleBudget_still.after ⟨rfl, rfl, rfl, rfl, fun _ h => h⟩

theorem createWorker_still : Still s s.createWorker.1 := by
  refine ⟨rfl, rfl, rfl, rfl, fun x hx => hx.imp_left fun hx => ?_⟩
  by_cases he : x = s.nextWorker
  · simp [createWorker, record, he]
  · simpa [createWorker, record, he] using hx

theorem replaceWorker_still : Still s (replaceWorker c s).1 := by
  have h := createWorker_still.after (recordWorkerReplacement_still (c := c) (s := s))
  exact { h with }

theorem retireWorker_still {b} : Still s (retireWorker c s w b).1 := by
  unfold retireWorker
  dsimp only
  split
  · exact ⟨rfl, rfl, rfl, rfl, fun _ h => h⟩
  · have h := trackRetiredWorker_still (c := c) (w := w)
      (s := removeWorkerReferences { s with activeWorkers := setDelete s.activeWorkers w } w)
    have h : Still s (trackRetiredWorker c
        (removeWorkerReferences { s with activeWorkers := setDelete s.activeWorkers w } w) w) := by
      refine ⟨h.preheats, h.bulk, h.workerGeneration, h.admissionBlocked, fun x hx => ?_⟩
      by_cases he : x = w
      · exact .inr (he ▸ trackRetiredWorker_retired)
      · refine h.placed x (hx.imp_left fun hx => ?_)
        simpa [removeWorkerReferences, he] using hx
    split
    · exact h.trans replaceWorker_still
    · exact h

theorem retireSurplusWorker_still : Still s (retireSurplusWorker c s w) := by
  unfold retireSurplusWorker
  exact checkWorkerRecycleBudget_still.after (retireWorker_still.after ⟨rfl, rfl, rfl, rfl, fun _ h => h⟩)

theorem evictParkedWorker_still : Still s (evictParkedWorker c s w) := by
  unfold evictParkedWorker
  split
  · exact retireWorker_still
  · exact .refl s

theorem parkWorker_still : Still s (parkWorker c s w) := by
  unfold parkWorker
  dsimp only
  split
  · exact ⟨rfl, rfl, rfl, rfl, fun _ h => h⟩
  · split
    · exact evictParkedWorker_still.after ⟨rfl, rfl, rfl, rfl, fun _ h => h⟩
    · exact ⟨rfl, rfl, rfl, rfl, fun _ h => h⟩

theorem evictOverflow_still (n) : Still s (evictOverflow c n s) := by
  induction n generalizing s with
  | zero => exact .refl s
  | succ n ih =>
    unfold evictOverflow
    split
    · split
      · exact .refl s
      · exact evictParkedWorker_still.trans ih
    · exact .refl s

theorem assignWorkerProject_still {p} : Still s (s.assignWorkerProject w p).1 := by
  unfold assignWorkerProject
  split
  · exact ⟨rfl, rfl, rfl, rfl, fun _ h => h⟩
  · split
    · exact ⟨rfl, rfl, rfl, rfl, fun _ h => h⟩
    · refine ⟨rfl, rfl, rfl, rfl, fun x hx => hx.imp_left fun hx => ?_⟩
      by_cases he : x = w
      · simp [record, he]
      · simpa [record, he] using hx

theorem switchProjectSlot_still {p} : Still s (switchProjectSlot c s w p).1 := by
  have hass : ∀ {s t : Pool} {r ok}, s.assignWorkerProject r p = (t, ok) → ∀ active, Still s { t with activeWorkers := active } := by
    intro s t r ok he active
    have h := assignWorkerProject_still (s := s) (w := r) (p := p)
    rw [he] at h
    exact { h with }
  unfold switchProjectSlot
  cases s.cachedWorker p with
  | none =>
    dsimp only
    split
    · exact (hass (by assumption) _).after (createWorker_still.after (recordWorkerReplacement_still.after
        ((evictOverflow_still _).after parkWorker_still)))
    · exact (hass (by assumption) _).after (createWorker_still.after (recordWorkerReplacement_still.after
        ((evictOverflow_still _).after parkWorker_still)))
  | some r =>
    have hun : Still s (s.unparkWorker r) := ⟨rfl, rfl, rfl, rfl, fun _ h => h⟩
    dsimp only
    split
    · exact (hass (by assumption) _).after ((evictOverflow_still _).after (parkWorker_still.after hun))
    · exact (hass (by assumption) _).after ((evictOverflow_still _).after (parkWorker_still.after hun))

/-! ## 手番 -/

theorem recycle_still : Still s (recycle c s w).1 := by
  unfold recycle
  split
  · exact .refl s
  · split
    · exact retireWorker_still.after ⟨rfl, rfl, rfl, rfl, fun _ h => h⟩
    · exact .refl s

theorem resolveOnce_still {e r} : Still s (s.resolveOnce e r) := by
  unfold resolveOnce
  split <;> exact ⟨rfl, rfl, rfl, rfl, fun _ h => h⟩

theorem execute_still {d} : Still s (execute c s w d).1 := by
  have h := assignWorkerProject_still (s := s) (w := w) (p := d.projectRef)
  unfold execute
  split
  · rename_i he
    rw [he] at h
    exact { h with }
  · rename_i s₁ he
    rw [he] at h
    dsimp only at h ⊢
    have h : Still s (s₁.beginExecution w d) := { h with }
    split
    · exact h
    · exact recycle_still.after (resolveOnce_still.after { h with })

theorem runNext_still : Still s (runNext c s w).1 := by
  unfold runNext
  split
  · exact ⟨rfl, rfl, rfl, rfl, fun _ h => h⟩
  · rename_i d s₁ hq
    simp only [dequeueQueuedForWorker, Option.map_eq_some_iff, Prod.mk.injEq] at hq
    obtain ⟨x, -, -, rfl⟩ := hq
    exact execute_still.after ⟨rfl, rfl, rfl, rfl, fun _ h => h⟩

theorem scheduleStep_still : Still s (scheduleStep c s w).1 := by
  have h0 : Still s (s.clearSurplusTimer w) := ⟨rfl, rfl, rfl, rfl, fun _ h => h⟩
  unfold scheduleStep
  dsimp only
  generalize s.clearSurplusTimer w = s₁ at h0
  refine h0.trans ?_
  split
  · exact retireWorker_still
  · split
    · split
      · exact retireSurplusWorker_still
      · exact ⟨rfl, rfl, rfl, rfl, fun _ h => h⟩
    · split
      · exact ⟨rfl, rfl, rfl, rfl, fun _ h => h⟩
      · split
        · exact ⟨rfl, rfl, rfl, rfl, fun _ h => h⟩
        · rename_i p _
          split
          · have h := switchProjectSlot_still (c := c) (s := s₁) (w := w) (p := p)
            split
            · rename_i he
              rw [he] at h
              exact h
            · rename_i he
              rw [he] at h
              exact h.trans runNext_still
          · have h := assignWorkerProject_still (s := s₁) (w := w) (p := p)
            split
            · rename_i he
              rw [he] at h
              exact h
            · rename_i he
              rw [he] at h
              exact h.trans runNext_still

theorem scheduleLoop_still (n) : Still t.1 (scheduleLoop c n t) := by
  induction n generalizing t with
  | zero =>
    obtain ⟨s, o⟩ := t
    cases o <;> exact .refl s
  | succ n ih =>
    obtain ⟨s, o⟩ := t
    cases o with
    | none => exact .refl s
    | some w => exact scheduleStep_still.trans ih

theorem finishTurn_still : Still t.1 (finishTurn c t) := scheduleLoop_still _

/-! ## 予熱と世代の交代の手番 -/

variable {m : Mode} {g : Ghost} {j j' : PreheatJob}

theorem findPreheat_some {id} (h : s.findPreheat id = some j) : j ∈ s.preheats ∧ j.id = id :=
  ⟨mem_of_find?_eq_some h, by simpa using find?_some h⟩

/-! ## 予熱の変数の書き換え -/

theorem mem_updatePreheat (hj : j ∈ s.preheats) (hid : j'.id = j.id) : j' ∈ (s.updatePreheat j').preheats := by
  refine mem_map.mpr ⟨j, hj, ?_⟩
  rw [if_pos hid.symm]

theorem updatePreheat_move (h : Base c (s, g)) (hj : j ∈ s.preheats) (hid : j'.id = j.id) (hw : j'.worker = j.worker)
    (ho : j'.owner = j.owner) : Move c m (s, g) (s.updatePreheat j', g) := by
  have hsa : ∀ x ∈ s.preheats, x.id = j'.id → x = j := fun x hx hxid =>
    inj_on_of_nodup_map h.jobs.ids_nodup hx hj (hxid.trans hid)
  refine .jobs s g _ ?_ (fun i hi => ?_) ?_
  · have hmap : ∀ l, (∀ x ∈ l, x ∈ s.preheats) → held (l.map fun x => if x.id = j'.id then j' else x) = held l := by
      intro l hl
      induction l with
      | nil => rfl
      | cons x l ih =>
        have ih := ih fun y hy => hl y (mem_cons_of_mem _ hy)
        unfold held at ih ⊢
        rw [map_cons]
        split
        · grind
        · grind
    exact hmap s.preheats fun _ hx => hx
  · grind
  · rw [map_map]
    have : s.preheats.map ((fun x => x.id) ∘ fun x => if x.id = j'.id then j' else x) = s.preheats.map (·.id) := by
      refine map_congr_left fun x _ => ?_
      by_cases hx : x.id = j'.id
      · simp [hx]
      · simp [hx]
    rw [this]

theorem finishPreheat_moves (h : Base c (s, g)) (hj : j ∈ s.preheats) {success attested} :
    Moves c m (s, g) (s.finishPreheat j success attested, g) := by
  have h1 : Move c m (s, g) (s.updatePreheat { j with phase := .done success attested }, g) :=
    updatePreheat_move h hj rfl rfl rfl
  unfold finishPreheat
  dsimp only
  split
  · rename_i hh
    exact .tail (.single h1) (.clearHandler _ g j.worker j.id hh)
  · exact .single h1

theorem retireWorker_gone_after (hw : w ∈ s.activeWorkers ∨ w ∈ s.parkedWorkers) (hlt : w < s.nextWorker) :
    Gone (retireWorker c s w true).1 w := by
  obtain ⟨retired, queue, draining, log, book, he, -⟩ := trackRetiredWorker_halts (c := c) (s := s.dropWorker w) (w := w)
  have hgo := dropWorker_gone hlt
  by_cases ha : w ∈ s.activeWorkers
  · rw [retireWorker_active ha, he]
    split
    · obtain ⟨b, hb, -⟩ := recordWorkerReplacement_eq (c := c)
        (s := { s.dropWorker w with retiredWorkers := retired, queue, draining, log, book })
      unfold replaceWorker
      rw [hb]
      exact ⟨(Function.update_of_ne (Nat.ne_of_lt hlt) _ _).trans hgo.1, Nat.lt_succ_of_lt hlt⟩
    · exact hgo
  · rw [retireWorker_parked ha (hw.resolve_left ha), he]
    exact hgo

theorem finishTurn_gone (hg : g.Rest) {x} (hx : Base c x) (h : TurnOk c m x g t) (hgo : Gone t.1 w) : Gone (finishTurn c t) w := by
  obtain ⟨credit, hm, hc⟩ := h
  exact (finishTurn_moves (m := m) hg (hm.base hx) ⟨credit, .refl, hc⟩).gone hgo

section

variable (hg : g.Rest) (h : Base c (s, g)) (hw : w ∈ s.idle ∨ w ∈ s.parkedWorkers) (hun : g.unchecked = [])

include hg h hw hun

theorem discard_turn : TurnOk c m (s, g) g (retireWorker c s w true) := by
  have hl : w ∉ g.loose := by grind [→ h.loose_not_idle, → h.places.parked_active, → h.places.loose_active]
  refine retireWorker_turn (l := g.loose) hg h (filter_ne_of_not_mem hl) (fun ha => ?_) (by simp [hun])
  rcases hw with hi | hp
  · exact .inr (.inr (.inl hi))
  · exact absurd ha (h.places.parked_active w hp)

theorem discard_moves : Moves c m (s, g) (finishTurn c (retireWorker c s w true), g) := finishTurn_moves hg h (discard_turn hg h hw hun)

theorem discard_gone : Gone (finishTurn c (retireWorker c s w true)) w := by
  have hpla : w ∈ s.activeWorkers ∨ w ∈ s.parkedWorkers := hw.imp (h.places.idle_active w) id
  have hlt : w < s.nextWorker := h.places.known_lt w ((h.places.known w).mpr (hpla.imp id .inl))
  exact finishTurn_gone (m := {}) hg h (discard_turn hg h hw hun) (retireWorker_gone_after hpla hlt)

end

/-! ## 予熱の終わり -/

section

variable (h : Base c (s, {})) (hj : j ∈ s.preheats)

include h hj

theorem failedPreheat_moves : Moves c m (s, {}) (failedPreheat c s j, {}) := by
  have htu : TurnOk c m (s, {}) {} (retireWorker c s j.worker true) :=
    retireWorker_turn (l := []) rest_empty h rfl (fun _ => .inr (.inr (.inr (.inr ⟨j, hj, rfl⟩)))) nofun
  have hm := finishTurn_moves rest_empty h htu
  have hst : (finishTurn c (retireWorker c s j.worker true)).preheats = s.preheats :=
    (finishTurn_still.after retireWorker_still).preheats
  exact hm.trans (finishPreheat_moves (hm.base h) (hst ▸ hj))

theorem completedPreheat_moves (hm : s.metadata j.worker ≠ none) {attestation memory} :
    Moves c m (s, {}) (completedPreheat c s j attestation memory, {}) := by
  have h1 := recordWorkerMemory_moves (c := c) (m := m) h hm memory (heapBudget c j.maxHeapBytes)
  have hj1 : j ∈ (recordWorkerMemory c s j.worker memory (heapBudget c j.maxHeapBytes)).preheats := by
    unfold recordWorkerMemory
    dsimp only
    split <;> exact hj
  have hm1 : (recordWorkerMemory c s j.worker memory (heapBudget c j.maxHeapBytes)).metadata j.worker ≠ none := by
    unfold recordWorkerMemory
    dsimp only
    split <;> exact hm
  have hdo : ∀ attested, Moves c m (s, {})
      (if (recordWorkerMemory c s j.worker memory (heapBudget c j.maxHeapBytes)).tainted j.worker then
        failedPreheat c (recordWorkerMemory c s j.worker memory (heapBudget c j.maxHeapBytes)) j
      else ((recordWorkerMemory c s j.worker memory (heapBudget c j.maxHeapBytes)).finishPreheat j true attested).record
        (.preheatSucceeded j.worker), {}) := by
    intro attested
    have hb := h1.base h
    generalize recordWorkerMemory c s j.worker memory (heapBudget c j.maxHeapBytes) = s₁ at h1 hj1 hm1 hb
    split
    · exact h1.trans (failedPreheat_moves hb hj1)
    · rename_i ht
      have ht : s₁.tainted j.worker = false := by simpa using ht
      have h2 : Moves c m (s₁, {}) (s₁.finishPreheat j true attested, {}) := finishPreheat_moves hb hj1
      exact (h1.trans h2).tail (.succeed _ {} j.worker ht hm1 rfl)
  cases attestation with
  | mismatch => exact failedPreheat_moves h hj
  | absent | accepted => exact hdo _

theorem onPreheatMessage_moves (hm : s.metadata j.worker ≠ none) {message} : Moves c m (s, {}) (onPreheatMessage c s j message, {}) := by
  unfold onPreheatMessage
  split
  · split
    · exact completedPreheat_moves h hj hm
    · exact .refl
  · split
    · exact failedPreheat_moves h hj
    · exact .refl
  · exact .refl

theorem waitForWorkerPreheat_moves {posted} : Moves c m (s, {}) (waitForWorkerPreheat c s j posted, {}) := by
  unfold waitForWorkerPreheat
  split
  · exact failedPreheat_moves h hj
  · rename_i hm
    have hm : s.metadata j.worker ≠ none := by simpa using hm
    have h1 : Move c m (s, {}) (s.updatePreheat { j with phase := .waiting }, {}) := updatePreheat_move h hj rfl rfl rfl
    have hj1 : { j with phase := .waiting } ∈ (s.updatePreheat { j with phase := .waiting }).preheats :=
      mem_updatePreheat hj rfl
    have h2 := setHandler (c := c) (m := m) (s.updatePreheat { j with phase := .waiting }) {} _ hj1 hm
    have hmos := Relation.ReflTransGen.tail (.single h1) h2
    dsimp only
    split
    · exact hmos
    · exact hmos.trans (failedPreheat_moves (h2.base (h1.base h)) hj1)

theorem settlePreheat_single (ho : j.owner = .single) : Moves c m (s, {}) (settlePreheat c s j, {}) := by
  have h1 := endJob (c := c) (m := m) s {} j hj ho
  unfold settlePreheat
  rw [ho]
  dsimp only at h1 ⊢
  split
  · rename_i hc
    have hc : s.draining = false ∧ j.worker ∈ s.activeWorkers := by simpa using hc
    rw [if_pos hc] at h1
    have hb := h1.base h
    refine .trans (.single h1) (finishTurn_moves rest_empty hb (recycle_turn rest_empty hb nofun ?_))
    rw [if_pos hc.2]
  · grind

theorem settlePreheat_orphan (ho : j.owner = .orphan) : Moves c m (s, {}) (settlePreheat c s j, {}) := by
  unfold settlePreheat
  rw [ho]
  refine .single (.jobs s {} _ ?_ (fun i hi => ⟨i, mem_of_mem_filter hi, rfl, rfl, .inl rfl⟩) (filter_sublist.map _))
  unfold held
  rw [filter_filter]
  refine congrArg _ (filter_congr fun x hx => ?_)
  by_cases hs : x.owner = .single
  · -- 除かれるのは、持ち主のいない予熱だけである。
    have hid : x.id ≠ j.id := by
      intro hid
      have hxj : x = j := inj_on_of_nodup_map h.jobs.ids_nodup hx hj hid
      rw [hxj, ho] at hs
      cases hs
    simp [hid]
  · simp [hs]

theorem onPreheatEvent_moves {event} : Moves c m (s, {}) (onPreheatEvent c s j event, {}) := by
  cases event with
  | prepared posted =>
    simp only [onPreheatEvent]
    split
    · exact waitForWorkerPreheat_moves h hj
    · exact .refl
  | prepareFailed | timeout =>
    simp only [onPreheatEvent]
    split
    · exact failedPreheat_moves h hj
    · exact .refl
  | settled =>
    simp only [onPreheatEvent]
    split
    next ho => exact settlePreheat_single h hj ho
    next ho => exact settlePreheat_orphan h hj ho
    next => exact .refl

end

theorem preheat_moves {p} (h : Base c (s, {})) {functionId maxHeapBytes} :
    Moves c m (s, {}) (s.preheat p functionId maxHeapBytes, {}) := by
  unfold preheat
  split
  · exact .refl
  · split
    · exact .refl
    · rename_i w s' hta
      obtain ⟨hw, -, hacc, rfl⟩ := takeIdleWorker_some hta
      have hwa : w ∈ s.activeWorkers := h.places.idle_active w hw
      obtain ⟨md, hmd⟩ := Option.ne_none_iff_exists'.mp (h.places.active_known hwa)
      have ha := workerAcceptsProject_true hmd hacc
      have h1 := takeIdle (c := c) (m := m) s {} w false hw nofun
      have h2 : Move c m ({ s with idle := setDelete s.idle w }, { loose := [w] })
          (clearSurplusTimer { s with idle := setDelete s.idle w } w, { loose := [w] }) := (h1.base h).book _ ⟨rfl, fun _ h => h⟩
      have h3 := assign (c := c) (m := m) (clearSurplusTimer { s with idle := setDelete s.idle w } w) { loose := [w] } w p md
        hmd ha (.inl (mem_singleton_self w)) (.inl rfl)
      have h4 := preheatStart (c := c) (m := m)
        ((clearSurplusTimer { s with idle := setDelete s.idle w } w).assignTo w p md) { loose := [w] }
        { id := s.nextPreheat, worker := w, projectRef := p, functionId, maxHeapBytes, owner := .single, phase := .preparing }
        rfl rfl (by simp [workerProjectRef, assignTo, record]) (.inl ⟨rfl, mem_singleton_self w⟩)
      have hgh : ([w].filter (· ≠ w)) = [] := by simp
      simp only [if_true, hgh] at h4
      unfold preheatWorker
      rw [assignWorkerProject_eq (s := clearSurplusTimer { s with idle := setDelete s.idle w } w) hmd ha]
      exact .tail (.tail (.tail (.single h1) h2) h3) h4

/-! ## 世代の交代 -/

theorem rotateWorkerForGeneration_still : Still s (rotateWorkerForGeneration c s w) ∨
    ∃ t, rotateWorkerForGeneration c s w = { s with tainted := t } := by
  unfold rotateWorkerForGeneration
  split
  · exact .inl (finishTurn_still.after retireWorker_still)
  · split
    · exact .inl (finishTurn_still.after retireWorker_still)
    · exact .inr ⟨_, rfl⟩

theorem Move.nextWorker_le {x y} (h : Move c m x y) : x.1.nextWorker ≤ y.1.nextWorker := by
  cases h with
  | unqueue s g ds q r => rw [settleAll_eq]
  | create s g => exact Nat.le_succ _
  | _ => exact Nat.le_refl _

theorem Moves.nextWorker_le {x y} (h : Moves c m x y) : x.1.nextWorker ≤ y.1.nextWorker := by
  induction h with
  | refl => exact Nat.le_refl _
  | tail _ hste ih => exact ih.trans hste.nextWorker_le

theorem rotateWorkerForGeneration_moves {rest} (h : Base c (s, { rotating := w :: rest }))
    (hp : Placed s w) :
    Moves c m (s, { rotating := w :: rest }) (rotateWorkerForGeneration c s w, { rotating := rest }) := by
  unfold rotateWorkerForGeneration
  split
  · rename_i hp
    exact .tail (discard_moves rest_empty h (.inr hp) rfl)
      (.rotateNext _ _ w rest rfl (.inr (discard_gone rest_empty h (.inr hp) rfl).1))
  · split
    · rename_i hi
      exact .tail (discard_moves rest_empty h (.inl hi) rfl)
        (.rotateNext _ _ w rest rfl (.inr (discard_gone rest_empty h (.inl hi) rfl).1))
    · exact .tail (.single (h.taint (h.placed_lt hp) fun _ => hp)) (.rotateNext _ _ w rest rfl (.inl (by simp)))

theorem rotateWorkerForGeneration_placed {x} (hx : Placed s x) : Placed (rotateWorkerForGeneration c s w) x := by
  rcases rotateWorkerForGeneration_still (c := c) (s := s) (w := w) with h | ⟨t, h⟩
  · exact h.placed x hx
  · rw [h]
    exact hx

theorem rotate_moves {ws} (h : Base c (s, { rotating := ws })) (hp : ∀ w ∈ ws, Placed s w) :
    Moves c m (s, { rotating := ws }) (ws.foldl (rotateWorkerForGeneration c) s, {}) := by
  induction ws generalizing s with
  | nil => exact .refl
  | cons w rest ih =>
    have h1 := rotateWorkerForGeneration_moves (m := m) h (hp w mem_cons_self)
    exact h1.trans (ih (h1.base h) fun x hx => rotateWorkerForGeneration_placed (hp x (mem_cons_of_mem _ hx)))

theorem rotate_still (ws : List Worker) : Still s (ws.foldl (rotateWorkerForGeneration c) s) := by
  induction ws generalizing s with
  | nil => exact .refl s
  | cons w rest ih =>
    refine ih.after ?_
    rcases rotateWorkerForGeneration_still (c := c) (s := s) (w := w) with h | ⟨t, h⟩
    · exact h
    · rw [h]
      exact ⟨rfl, rfl, rfl, rfl, fun _ h => h⟩

theorem rotateGeneration_moves (h : Base c (s, {})) : Moves c m (s, {}) (rotateGeneration c s, {}) := by
  unfold rotateGeneration
  dsimp only
  generalize hws : (s.activeWorkers ++ s.parkedWorkers).filter _ = ws
  have hpl : ∀ w ∈ ws, Placed s w := by
    intro w hw
    subst hws
    have hw := mem_append.mp (mem_of_mem_filter hw)
    exact .inl ((h.places.known w).mpr (hw.imp id .inl))
  have hall : ∀ w md, s.metadata w = some md → w ∈ ws := by grind [h.places.known, h.generation_le]
  have h1 := rotateBegin (c := c) (m := m) s {} ws rfl rfl rfl hall fun w hw => h.placed_lt (hpl w hw)
  have h2 := rotate_moves (m := m) (s := { s with workerGeneration := s.workerGeneration + 1 }) (h1.base h) hpl
  have hgen := (rotate_still (c := c) (s := { s with workerGeneration := s.workerGeneration + 1 }) ws).workerGeneration
  have h3 := rotateEnd (c := c) (m := m)
    (ws.foldl (rotateWorkerForGeneration c) { s with workerGeneration := s.workerGeneration + 1 }) {} rfl
  rw [hgen] at h3
  exact .tail (.trans (.single h1) h2) h3

end Supacloud.EdgeRuntime
