import Supacloud.EdgeRuntime.Lemmas.Bulk

/-! # 出来事の手番 -/

namespace Supacloud.EdgeRuntime

open Library Pool Move MultiQueue Ghost Function Relation.ReflTransGen Pool List Bool

variable {c : Config} {m : Mode} {s s' : Pool} {w : Worker} {events : List Event} {ws : List Worker} {x y : Stage}

/-! ## 無効化 -/

section

variable (h : Base c (s, {}))

include h

theorem taintProject_moves {p} (hq : s.queue.at p = [])
    (hws : (s.activeWorkers ++ s.parkedWorkers).filter (fun w => s.workerProjectRef w == some p) = ws) : Moves c m (s, {}) (({ s with
      tainted := fun w => s.tainted w || ws.contains w
      book := { s.book with projectControls := s.book.projectControls ++ ws } }).record (.invalidated p), {}) := by
  have hmem : ∀ w, w ∈ ws ↔ (w ∈ s.activeWorkers ∨ w ∈ s.parkedWorkers) ∧ s.workerProjectRef w = some p := by
    intro w
    rw [← hws, mem_filter, mem_append, beq_iff_eq]
  have hkn : ∀ w, ws.contains w = true → s.metadata w ≠ none := fun w hw =>
    (h.places.known w).mpr (((hmem w).mp (by simpa using hw)).1.imp id .inl)
  have h1 := taint (c := c) (m := m) s {} (fun w => s.tainted w || ws.contains w) (fun w hw => by simp [hw])
    (fun w hw => (or_eq_true_iff.mp hw).elim (h.tainted_lt w) fun hw => h.places.known_lt w (hkn w hw))
    fun _ w hw => (or_eq_true_iff.mp hw).imp_right fun hw => .inl (hkn w hw)
  have h2 := (h1.base h).book (m := m) { s.book with projectControls := s.book.projectControls ++ ws } ⟨rfl, fun _ h => h⟩
  refine .tail (.tail (.single h1) h2) (.invalidated _ {} p hq rfl rfl fun w hw => ?_)
  have hw : s.workerProjectRef w = some p := hw
  have hkn : s.metadata w ≠ none := by
    obtain ⟨md, hmd, -⟩ := workerProjectRef_eq_some.mp hw
    simp [hmd]
  have hpla : w ∈ s.activeWorkers ∨ w ∈ s.parkedWorkers := by
    rcases (h.places.known w).mp hkn with hw | hw | hw
    · exact .inl hw
    · exact .inr hw
    · cases hw
  exact or_eq_true_iff.mpr (.inr (by simpa using (hmem w).mpr ⟨hpla, hw⟩))

theorem invalidateProject_moves {p} : Moves c m (s, {}) (s.invalidateProject p, {}) := by
  have h1 := unqueue (c := c) (m := m) s {} (s.queue.at p) (s.queue.drop p) .invalidatedBeforeExecution
    (all_drop p) fun k => by
      rw [at_drop]
      split
      · exact nil_sublist _
      · exact .refl _
  exact .trans (.single h1) (taintProject_moves (h1.base h) (by simp) rfl)

theorem onProjectControl_moves : Moves c m (s, {}) (s.onProjectControl c w, {}) := by
  unfold onProjectControl
  split
  · exact .refl
  · have h1 : Move c m (s, {}) ({ s with book := { s.book with projectControls := s.book.projectControls.erase w } }, {}) :=
      h.book _ ⟨rfl, fun _ h => h⟩
    dsimp only
    split
    · rename_i hw
      exact .trans (.single h1) (discard_moves rest_empty (h1.base h) hw rfl)
    · exact .single h1

theorem invalidateModule_moves : Moves c m (s, {}) (s.invalidateModule, {}) := by
  refine .single (.aux s {} _ s.admissionRecovering s.bulkWaiting (fun ws hws w hw => ?_) (fun _ => .inl) fun _ => .inl)
  rcases mem_append.mp hws with hws | hws
  · exact h.below ws hws w hw
  · rw [mem_singleton] at hws
    have hw := mem_append.mp (hws ▸ hw)
    exact h.places.known_lt w ((h.places.known w).mpr (hw.imp id .inl))

theorem controlWorkers_moves {acked} (hlt : ∀ w ∈ ws, w < s.nextWorker) (hp : m.placed = true → ∀ w ∈ ws, acked w = false → Placed s w) :
    Moves c m (s, {}) (controlWorkers c acked ws s, {}) := by
  induction ws generalizing s with
  | nil => exact .refl
  | cons w rest ih =>
    have hone : Moves c m (s, {}) ((if acked w then s
        else if w ∈ s.idle ∨ w ∈ s.parkedWorkers then finishTurn c (retireWorker c s w true)
        else { s with tainted := update s.tainted w true }), {}) := by
      split
      · exact .refl
      · grind [h.taint, discard_moves, rest_empty]
    unfold controlWorkers
    refine hone.trans (ih (hone.base h) (fun x hx => ?_) fun hm x hx hno => ?_)
    · exact Nat.lt_of_lt_of_le (hlt x (mem_cons_of_mem _ hx)) hone.nextWorker_le
    · have hx := hp hm x (mem_cons_of_mem _ hx) hno
      split
      · exact hx
      · split
        · exact (finishTurn_still.after retireWorker_still).placed x hx
        · exact hx

theorem onModuleControl_moves {acked index}
    (hp : m.placed = true → ∀ ws, s.book.moduleControls[index]? = some ws → ∀ w ∈ ws, acked w = false → Placed s w) :
    Moves c m (s, {}) (s.onModuleControl c index acked, {}) := by
  unfold onModuleControl
  split
  · exact .refl
  · rename_i ws hws
    have h1 : Move c m (s, {}) ({ s with book := { s.book with
        moduleControls := s.book.moduleControls.eraseIdx index } }, {}) :=
      .aux s {} _ s.admissionRecovering s.bulkWaiting (fun x hx => h.below x (mem_of_mem_eraseIdx hx))
        (fun _ => .inl) fun _ => .inl
    exact .trans (.single h1) (controlWorkers_moves (h1.base h) (h.below ws (mem_of_getElem? hws)) fun hm => hp hm ws hws)

/-! ## 実行者の出来事 -/

theorem onWorkerMessage_moves {message} (hs : m.status = true → reportsStatus s (.message w message) = true) :
    Moves c m (s, {}) (s.onWorkerMessage c w message, {}) := by
  unfold onWorkerMessage
  split
  · exact .refl
  · rename_i k hk
    split
    · rename_i e he
      have hmem := (findExecution_some he).1
      cases message with
      | responseComplete waitUntilPending => exact onResponseComplete_moves h hmem
      | executionComplete memory =>
        refine onExecutionComplete_moves h hmem (fun hnn => ?_) fun hst => ?_
        · have hwo : e.worker = w := by
            obtain ⟨e', he', hk', hw'⟩ := h.hands.execution w k hk
            have heq := inj_on_of_nodup_map h.keys.inFlight_nodup hmem he' ((findExecution_some he).2.trans hk'.symm)
            exact heq ▸ hw'
          have := h.hands.gone e.worker hnn
          rw [hwo, hk] at this
          cases this
        have := hs hst
        simpa [reportsStatus, hk, he] using this
      | response status body posted => exact onResponse_moves h hmem
      | executionStarted | log | preheatDone functionId attestation memory | preheatError functionId | unrelated => exact .refl
    · exact .refl
  · grind [h.hands.preheat, h.hands.gone, findPreheat_some, onPreheatMessage_moves]

theorem onWorkerError_moves {message} : Moves c m (s, {}) (s.onWorkerError c w message, {}) := by
  unfold onWorkerError
  split
  · split
    · rename_i e he
      exact retireWithFailure_moves h (findExecution_some he).1
    · exact .refl
  · split
    · rename_i j hj
      exact failedPreheat_moves h (findPreheat_some hj).1
    · exact .refl
  · rename_i hnn
    split
    · have htu : TurnOk c m (s, {}) {} (retireWorker c s w true) :=
        retireWorker_turn (l := []) rest_empty h rfl (fun _ => .inr (.inr (.inr (.inl fun k hk => by
          rw [hnn] at hk
          cases hk)))) nofun
      exact finishTurn_moves rest_empty h htu
    · exact .refl

theorem notifyExit_spec : Moves c m (s, {}) (s.notifyExit c w, {}) ∧
      (Gone (s.notifyExit c w) w ∨ (s.notifyExit c w = s ∧ ∀ k, s.handlers w ≠ some (.execution k))) := by
  have hkn : ∀ {x}, s.handlers w = some x → w ∈ s.activeWorkers ∨ w ∈ s.parkedWorkers := by grind [h.hands.gone, h.places.known]
  have hlt : ∀ {x}, s.handlers w = some x → w < s.nextWorker := fun hx =>
    h.places.known_lt w ((h.places.known w).mpr ((hkn hx).imp id .inl))
  unfold notifyExit
  split
  · rename_i k hk
    obtain ⟨e, he, hek, hew⟩ := h.hands.execution w k hk
    split
    · rename_i e' he'
      obtain ⟨hmem, hkey⟩ := findExecution_some he'
      have hee : e' = e := inj_on_of_nodup_map h.keys.inFlight_nodup hmem he (hkey.trans hek.symm)
      subst hee
      refine ⟨retireWithFailure_moves h hmem, .inl ?_⟩
      have htu := retireWithFailure_turn (m := m) rest_empty h hmem nofun (.failure 500 "Function worker exited")
      refine finishTurn_gone rest_empty h htu ?_
      have hsa : ∀ r, ((s.cleanup e').resolveOnce e' r).activeWorkers = s.activeWorkers ∧
          ((s.cleanup e').resolveOnce e' r).parkedWorkers = s.parkedWorkers ∧
          ((s.cleanup e').resolveOnce e' r).nextWorker = s.nextWorker := by
        intro r
        unfold resolveOnce
        split <;> exact ⟨rfl, rfl, rfl⟩
      obtain ⟨ha, hp, hn⟩ := hsa (.failure 500 "Function worker exited")
      rw [← hew] at hk hkn hlt ⊢
      exact retireWorker_gone_after (by rw [ha, hp]; exact hkn hk) (by rw [hn]; exact hlt hk)
    · rename_i hnn
      have := find?_eq_none.mp hnn e he
      simp [hek] at this
  · rename_i id hid
    split
    · rename_i j hj
      obtain ⟨hmem, hjid⟩ := findPreheat_some hj
      have hwo : j.worker = w := h.hands.preheat w id hid j hmem hjid
      refine ⟨failedPreheat_moves h hmem, .inl ?_⟩
      have htu : TurnOk c m (s, {}) {} (retireWorker c s j.worker true) :=
        retireWorker_turn (l := []) rest_empty h rfl (fun _ => .inr (.inr (.inr (.inr ⟨j, hmem, rfl⟩)))) nofun
      rw [← hwo] at hkn hlt ⊢
      rw [← hwo] at hid
      exact finishTurn_gone rest_empty h htu (retireWorker_gone_after (hkn hid) (hlt hid))
    · exact ⟨.refl, .inr ⟨rfl, fun k hk => by rw [hid] at hk; cases hk⟩⟩
  · rename_i hnn
    exact ⟨.refl, .inr ⟨rfl, fun k hk => by rw [hnn] at hk; cases hk⟩⟩

end

def Pool.leave (c : Config) (s : Pool) (w : Worker) : Pool :=
  if w ∉ s.activeWorkers ∨ s.draining = true then { s with activeWorkers := setDelete s.activeWorkers w }
  else finishTurn c (replaceWorker c { s with activeWorkers := setDelete s.activeWorkers w })

theorem onWorkerExit_eq {s₁ s₂} (h₁ : removeWorkerReferences { s with retiredWorkers := setDelete s.retiredWorkers w } w = s₁)
    (h₂ : (if w ∈ s.retiredWorkers ∧ s₁.draining = false then ensureCapacityForQueuedWork c s₁ else s₁) = s₂) :
    s.onWorkerExit c w = s₂.leave c w := by
  subst h₁ h₂
  simp [onWorkerExit, leave]

theorem leave_gone (hw : w ∉ s.activeWorkers) : s.leave c w = s := by
  unfold leave
  rw [if_pos (.inl hw), setDelete_of_not_mem hw]

theorem onWorkerExit_gone (h : Base c (s, {})) (hw : s.metadata w = none) : Moves c m (s, {}) (s.onWorkerExit c w, {}) ∧
      (w < s.nextWorker → Absent (s.onWorkerExit c w) w) := by
  have h1 := scrub (c := c) (m := m) s {} w hw
  have h2 : Move c m (s.removeWorkerReferences w, {})
      (removeWorkerReferences { s with retiredWorkers := setDelete s.retiredWorkers w } w, {}) :=
    .untrack (s.removeWorkerReferences w) {} w fun _ => update_self ..
  have hb2 := h2.base (h1.base h)
  have hmos := tail (.single h1) h2
  have hab (hlt : w < s.nextWorker) : Absent (removeWorkerReferences { s with retiredWorkers := setDelete s.retiredWorkers w } w) w :=
    ⟨⟨by simp [removeWorkerReferences], hlt⟩, by simp [removeWorkerReferences]⟩
  rw [onWorkerExit_eq rfl rfl]
  split
  · rename_i hret
    have hab := hab (h.places.retired_lt w hret.1)
    generalize removeWorkerReferences { s with retiredWorkers := setDelete s.retiredWorkers w } w = s₁ at hmos hb2 hab
    have h3 := uncheck (c := c) (m := m) s₁ {}
    have h4 := ensureCapacityForQueuedWork_moves (m := m) (g := {}) rest_empty (h3.base hb2)
    have h5 := head h3 h4
    have hfin := Moves.absent h5 hb2 hab
    rw [leave_gone ((Moves.base h5 hb2).not_active_of_gone hfin.1)]
    exact ⟨hmos.trans h5, fun _ => hfin⟩
  · rw [leave_gone]
    · exact ⟨hmos, hab⟩
    · exact fun ha => h.places.active_known ha hw

theorem onWorkerExit_known (h : Base c (s, {})) (hw : s.metadata w ≠ none) (hh : ∀ k, s.handlers w ≠ some (.execution k)) :
    Moves c m (s, {}) (s.onWorkerExit c w, {}) ∧ Absent (s.onWorkerExit c w) w := by
  have hnot : w ∉ s.retiredWorkers := fun hr => hw (h.places.retired_gone w hr)
  have hsa : ({ s with retiredWorkers := setDelete s.retiredWorkers w } : Pool) = s := by
    rw [setDelete_of_not_mem hnot]
  rw [onWorkerExit_eq rfl rfl, if_neg fun hr => hnot hr.1, hsa]
  have hab : Absent (s.leaveWorker w false) w := ⟨dropWorker_gone (h.places.known_lt w hw), hnot⟩
  by_cases ha : w ∈ s.activeWorkers
  · have h1 := drop (c := c) (m := m) s {} w false ha (.inr (.inr (.inr (.inl hh)))) rfl rfl nofun
    have hb1 := h1.base h
    unfold leave
    split
    · rename_i hd
      have hd : s.draining = true := hd.resolve_left (not_not_intro ha)
      exact ⟨.tail (.single h1) (.abandon _ _ hd), hab⟩
    · have h2 := finishTurn_moves (m := m) rest_empty hb1 (replaceWorker_turn rest_empty hb1)
      exact ⟨.trans (.single h1) h2, Moves.absent h2 hb1 hab⟩
  · have hp : w ∈ s.parkedWorkers := by
      rcases (h.places.known w).mp hw with hw | hw | hw
      · exact absurd hw ha
      · exact hw
      · cases hw
    have h1 := dropParked (c := c) (m := m) s {} w false hp
    unfold leave
    rw [if_pos (.inl ha)]
    exact ⟨.single h1, hab⟩

theorem exit_moves (h : Base c (s, {})) : Moves c m (s, {}) ((s.notifyExit c w).onWorkerExit c w, {}) ∧
      (w < s.nextWorker → Absent ((s.notifyExit c w).onWorkerExit c w) w) := by
  obtain ⟨h1, h2⟩ := notifyExit_spec (m := m) (w := w) h
  rcases h2 with hgo | ⟨he, hh⟩
  · obtain ⟨h3, hab⟩ := onWorkerExit_gone (m := m) (h1.base h) hgo.1
    exact ⟨h1.trans h3, fun _ => hab hgo.2⟩
  · rw [he]
    by_cases hw : s.metadata w = none
    · exact onWorkerExit_gone h hw
    · exact (onWorkerExit_known h hw hh).imp_right fun hab _ => hab

/-! ## 溜まりの出来事 -/

theorem evictAll_spec (ws) (h : Base c (s, {})) : Moves c m (s, {}) (evictAll c ws s, {}) ∧ Still s (evictAll c ws s) := by
  induction ws generalizing s with
  | nil => exact ⟨.refl, .refl s⟩
  | cons w rest ih =>
    have h1 := evictParkedWorker_moves (m := m) (w := w) h
    obtain ⟨h2, hs⟩ := ih (h1.base h)
    exact ⟨h1.trans h2, hs.after evictParkedWorker_still⟩

theorem retireSurplusWorker_idle (ha : w ∈ s.activeWorkers) : (retireSurplusWorker c s w).idle = setDelete s.idle w := by
  let s₁ := { s with book := { s.book with totalWorkerSurplusRetirements := s.book.totalWorkerSurplusRetirements + 1 } }
  obtain ⟨b, hb, -⟩ := checkWorkerRecycleBudget_eq (c := c) (s := (retireWorker c s₁ w false).1)
  have hr := retireWorker_active (c := c) (s := s₁) ha false
  obtain ⟨_, _, _, _, _, he, -⟩ := trackRetiredWorker_halts (c := c) (s := s₁.dropWorker w) (w := w)
  change (checkWorkerRecycleBudget c (retireWorker c s₁ w false).1).idle = _
  rw [hb, hr, if_neg (by simp), he]
  rfl

theorem retireSurplus_moves (h : Base c (s, {})) (hn : ws.Nodup) (hws : ∀ w ∈ ws, w ∈ s.idle)
    (hb : s.admissionBlocked = true) : Moves c m (s, {}) (retireSurplus c ws s, {}) := by
  induction ws generalizing s with
  | nil => exact .refl
  | cons w rest ih =>
    rw [nodup_cons] at hn
    have hw := hws w mem_cons_self
    have ha := h.places.idle_active w hw
    unfold retireSurplus
    split
    · exact .refl
    · rename_i hsi
      have h1 := retireSurplusWorker_moves (m := m) (g := {}) (l := []) rest_empty h rfl ha
        (.inr (.inr (.inl hw))) nofun (by omega) (h.quiet (.inr hb))
      refine h1.trans (ih (h1.base h) hn.2 (fun x hx => ?_) ((retireSurplusWorker_still.admissionBlocked).trans hb))
      rw [retireSurplusWorker_idle ha]
      exact mem_setDelete.mpr ⟨hws x (mem_cons_of_mem _ hx), fun he => hn.1 (he ▸ hx)⟩

theorem setAdmissionBlocked_moves (h : Base c (s, {})) {blocked recovering} :
    Moves c m (s, {}) (s.setAdmissionBlocked c blocked recovering, {}) := by
  unfold setAdmissionBlocked
  split
  · exact .refl
  · have h1 : Move c m (s, {}) ({ s with admissionRecovering := recovering && !blocked }, {}) :=
      .aux s {} s.book _ s.bulkWaiting h.below (fun _ => .inl) fun _ => .inl
    dsimp only
    split
    · rename_i hb
      have hb : blocked = false := by simpa using hb
      subst hb
      refine .tail (.single h1) (.flags _ {} s.draining false (fun hd => hd) fun hf => ?_)
      exact h.quiet (by simpa using hf)
    · rename_i hb
      have hb : blocked = true := by simpa using hb
      subst hb
      have h2 : Move c m ({ s with admissionRecovering := recovering && !true }, {})
          (({ s with admissionRecovering := recovering && !true }).clearQueue .admissionBlocked, {}) := clearQueue_moves _
      have h3 := flags (c := c) (m := m)
        (({ s with admissionRecovering := recovering && !true }).clearQueue .admissionBlocked) {} s.draining true
        (by simp only [clearQueue, settleAll_eq]; exact fun hd => hd) fun _ p => at_empty p
      have he : { (({ s with admissionRecovering := recovering && !true }).clearQueue .admissionBlocked) with
          draining := s.draining, admissionBlocked := true } =
          ({ s with admissionBlocked := true, admissionRecovering := recovering && !true }).clearQueue .admissionBlocked := by
        simp [clearQueue, settleAll_eq]
      rw [he] at h3
      have hm := ((single h1).tail h2).tail h3
      have hb3 := Moves.base hm h
      have hbl : (({ s with admissionBlocked := true, admissionRecovering := recovering && !true }).clearQueue
          .admissionBlocked).admissionBlocked = true := clearQueue_still.admissionBlocked
      generalize ({ s with admissionBlocked := true, admissionRecovering := recovering && !true }).clearQueue
        .admissionBlocked = s₁ at hm hb3 hbl
      obtain ⟨h4, hs4⟩ := evictAll_spec (m := m) s₁.parkedWorkers hb3
      have hb4 := h4.base hb3
      exact (hm.trans h4).trans (retireSurplus_moves hb4 hb4.idle_nodup (fun _ hw => hw)
        (hs4.admissionBlocked.trans hbl))

theorem onSurplusTimeout_moves (h : Base c (s, {})) : Moves c m (s, {}) (s.onSurplusTimeout c w, {}) := by
  unfold onSurplusTimeout
  split
  · exact .refl
  · have h1 : Move c m (s, {}) (s.clearSurplusTimer w, {}) := h.book _ ⟨rfl, fun _ h => h⟩
    dsimp only
    split
    · rename_i hc
      rw [and_eq_true] at hc
      obtain ⟨hsi, hem⟩ := shouldRetireSurplusWorker_true hc.1
      have hw : w ∈ s.idle := by simpa [clearSurplusTimer] using hc.2
      exact .trans (.single h1) (retireSurplusWorker_moves (g := {}) (l := []) rest_empty (h1.base h) rfl
        (h.places.idle_active w hw) (.inr (.inr (.inl hw))) not_mem_nil hsi hem)
    · exact .single h1

theorem onParkedTimeout_moves (h : Base c (s, {})) : Moves c m (s, {}) (s.onParkedTimeout c w, {}) := by
  unfold onParkedTimeout
  split
  · exact .refl
  · have h1 : Move c m (s, {}) ({ s with book := { s.book with
        parkedTimer := update s.book.parkedTimer w false } }, {}) := h.book _ ⟨rfl, fun _ h => h⟩
    exact .trans (.single h1) (evictParkedWorker_moves (h1.base h))

theorem Move.draining (h : Move c m x y) (hd : x.1.draining = true) : y.1.draining = true := by
  cases h with
  | unqueue s g ds q r =>
    rw [settleAll_eq]
    exact hd
  | flags s g draining blocked h => exact h hd
  | _ => exact hd

theorem Moves.draining (h : Moves c m x y) (hd : x.1.draining = true) : y.1.draining = true := by
  induction h with
  | refl => exact hd
  | tail _ hste ih => exact hste.draining ih

theorem retireAll_moves (h : Base c (s, {})) (hd : s.draining = true) : Moves c m (s, {}) (retireAll c ws s, {}) := by
  induction ws generalizing s with
  | nil => exact .refl
  | cons w rest ih =>
    have htu : TurnOk c m (s, {}) {} (retireWorker c s w true) :=
      retireWorker_turn (l := []) rest_empty h rfl (fun _ => .inl hd) nofun
    have h1 := finishTurn_moves rest_empty h htu
    exact h1.trans (ih (h1.base h) (h1.draining hd))

theorem shutdown_moves (h : Base c (s, {})) : Moves c m (s, {}) (s.shutdown c, {}) := by
  unfold shutdown
  split
  · rename_i hd
    exact retireAll_moves h hd
  · exact .refl

/-! ## 走行 -/

structure Mode.allows (m : Mode) (s : Pool) (e : Event) : Prop where
  status : m.status = true → reportsStatus s e = true
  tidy : m.tidy = true → keepsReserved s e = true
  placed : m.placed = true → findsSuspects s e = true

theorem step_moves (h : Base c (s, {})) {e} (he : m.allows s e) : Moves c m (s, {}) (step c s e, {}) := by
  cases e with
  | dispatch projectRef cancelKey maxHeapBytes startFailure => exact dispatch_moves h
  | cancel cancelKey posted | abort key posted => exact cancelWhere_moves h
  | execution key event =>
    simp only [step]
    split
    next hfi => exact onExecutionEvent_moves h (findExecution_some hfi).1
    next => exact .refl
  | message worker message => exact onWorkerMessage_moves h he.status
  | error worker message => exact onWorkerError_moves h
  | exit worker => exact (exit_moves h).1
  | preheat projectRef functionId maxHeapBytes => exact preheat_moves h
  | preheating id event =>
    simp only [step]
    split
    next hfi => exact onPreheatEvent_moves h (findPreheat_some hfi).1
    next => exact .refl
  | bulkPreheat request => exact enqueueBulkPreheat_moves h
  | bulkSettled =>
    simp only [step]
    split
    · rename_i b hb
      refine onBulkSettled_moves h hb fun hti hnx w hw => ?_
      have hk := he.tidy hti
      simp only [keepsReserved, hb, hnx, Bool.not_true, Bool.false_or, all_eq_true] at hk
      exact Option.isSome_iff_ne_none.mp (hk w hw)
    · exact .refl
  | bulkNext =>
    simp only [step]
    split
    · rename_i b hb
      exact onBulkNext_moves h hb
    · exact .refl
  | invalidateProject projectRef => exact invalidateProject_moves h
  | projectControl worker => exact onProjectControl_moves h
  | invalidateModule => exact invalidateModule_moves h
  | moduleControl index acked =>
    refine onModuleControl_moves h fun hm ws hws w hw hno => ?_
    have := he.placed hm
    simp only [findsSuspects, hws, all_eq_true, Bool.or_eq_true, decide_eq_true_eq] at this
    rcases this w hw with (hack | hkn) | hret
    · rw [hno] at hack
      cases hack
    · exact .inl (Option.isSome_iff_ne_none.mp hkn)
    · exact .inr hret
  | setAdmissionBlocked blocked recovering => exact setAdmissionBlocked_moves h
  | surplusTimeout worker => exact onSurplusTimeout_moves h
  | parkedTimeout worker => exact onParkedTimeout_moves h
  | retirementTimeout worker => exact .single (.untrack s {} worker fun hm => by simpa [findsSuspects] using he.placed hm)
  | drain => exact stopDispatching_moves
  | shutdown => exact shutdown_moves h

/-! ## 最初の状態 -/

structure Untouched (s : Pool) : Prop where
  queue : s.queue = .empty
  inFlight : s.inFlight = []
  handlers : ∀ w, s.handlers w = none
  tainted : ∀ w, s.tainted w = false
  parked : s.parkedWorkers = []
  retired : s.retiredWorkers = []
  preheats : s.preheats = []
  bulk : s.bulk = none
  waiting : s.bulkWaiting = []
  draining : s.draining = false
  blocked : s.admissionBlocked = false
  generation : s.workerGeneration = 0
  metadata : ∀ w md, s.metadata w = some md → md = { generation := 0 }
  controls : s.book.moduleControls = []
  memory : s.book.workerMemory = []
  created : ∀ e ∈ s.log, ∃ w < s.nextWorker, e = .created w 0

theorem untouched_addIdleWorker (h : Untouched s) : Untouched s.addIdleWorker :=
  { h with
    metadata := fun w md hw => by
      by_cases he : w = s.nextWorker
      · simp only [addIdleWorker, createWorker, record, he, update_self, Option.some.injEq, h.generation] at hw
        exact hw.symm
      · exact h.metadata w md (by simpa [addIdleWorker, createWorker, record, he] using hw)
    created := fun e he => by
      rcases mem_cons.mp he with he | he
      · exact ⟨s.nextWorker, Nat.lt_succ_self _, by rw [he, h.generation]⟩
      · obtain ⟨w, hw, rfl⟩ := h.created e he
        exact ⟨w, Nat.lt_succ_of_lt hw, rfl⟩ }

theorem untouched_blank : Untouched blank where
  queue := rfl
  inFlight := rfl
  handlers := fun _ => rfl
  tainted := fun _ => rfl
  parked := rfl
  retired := rfl
  preheats := rfl
  bulk := rfl
  waiting := rfl
  draining := rfl
  blocked := rfl
  generation := rfl
  metadata := nofun
  controls := rfl
  memory := rfl
  created := nofun

theorem untouched_repeat (n) : Untouched (Nat.repeat addIdleWorker n blank) := by
  induction n with
  | zero => exact untouched_blank
  | succ n ih => exact untouched_addIdleWorker ih

theorem untouched_initial : Untouched (initial c) := untouched_repeat c.size

theorem Untouched.filterMap_log (h : Untouched s) {α : Type} {f : LogEvent → Option α}
    (hf : ∀ w, f (.created w 0) = none) : s.log.filterMap f = [] := by
  refine filterMap_eq_nil_iff.mpr fun e he => ?_
  obtain ⟨w, -, rfl⟩ := h.created e he
  exact hf w

theorem base_blank (hc : c.size = 0) : Base c (blank, {}) := by
  have hpls : Places [] [] [] [] (fun _ => none) 0 [] [] none := {
    active_nodup := .nil
    parked_nodup := .nil
    idle_active := nofun
    loose_active := nofun
    unchecked_idle := nofun
    known := fun w => by simp
    parked_active := nofun
    transit_out := nofun
    known_lt := fun w hw => absurd rfl hw
    retired_gone := nofun
    retired_lt := nofun }
  have how : Owned (owners [] [] [] none []) [] [] (fun _ => none) 0 false := {
    le_one := fun w hw => absurd rfl hw
    outside := fun w hw => absurd rfl hw
    pos := nofun
    lt := fun w hw => absurd rfl hw
    workers_nodup := .nil }
  have hke : Keys (.empty : MultiQueue ProjectRef Dispatch) [] 0 [] none := {
    nodup := .nil
    lt := nofun
    fresh_lt := nofun
    fresh_new := nofun
    ok := fun k hk => absurd hk not_mem_nil
    refs := fun p d hd => by
      rw [at_empty] at hd
      cases hd }
  have hjo : Jobs [] 0 none [] := {
    ids_nodup := .nil
    ids_lt := nofun
    reserved_worker := nofun
    rejected := nofun
    members := nofun }
  have hhas : Hands (fun _ => none) (fun _ => none) [] [] 0 := {
    gone := fun _ _ => rfl
    execution := nofun
    preheat_lt := nofun
    preheat := nofun }
  exact {
    places := hpls
    owned := how
    keys := hke
    jobs := hjo
    hands := hhas
    bounds := {
      upper := Nat.zero_le _
      lower := fun _ => hc.le
      parked := fun _ => Nat.zero_le _ }
    quiet := fun _ p => at_empty p
    tainted_lt := fun _ hw => Bool.noConfusion hw
    generation_le := fun _ _ hw => by cases hw
    below := fun _ hws => absurd hws not_mem_nil
    accepts := fun _ hb => by cases hb }

theorem Base.withConfig {c'} (h : Base c x)
    (hb : Bounds c' x.1.activeWorkers x.1.parkedWorkers x.1.draining x.2.vacant x.2.overflow) : Base c' x :=
  { h with bounds := hb }

theorem base_repeat (n hn) : Base { c with size := n, size_le := hn } (Nat.repeat addIdleWorker n blank, {}) ∧
      (Nat.repeat addIdleWorker n blank).activeWorkers.length = n := by
  induction n with
  | zero => exact ⟨base_blank rfl, rfl⟩
  | succ n ih =>
    obtain ⟨h, hlen⟩ := ih (by omega)
    simp only [Nat.repeat]
    generalize Nat.repeat addIdleWorker n blank = s at h hlen
    have hnew : s.nextWorker ∉ s.activeWorkers := fun ha => Nat.lt_irrefl _ (h.active_lt ha)
    have hle' : (setAdd s.activeWorkers s.nextWorker).length = n + 1 := by
      rw [setAdd_of_not_mem hnew, length_append, hlen]
      rfl
    have h1 := h.create rfl (.inr (by dsimp only; omega))
    have h2 := h1.putIdle mem_cons_self
    have hl : ([s.nextWorker].filter fun x => decide (x ≠ s.nextWorker)) = [] := by simp
    refine ⟨?_, hle'⟩
    have h3 : Base { c with size := n, size_le := by omega } (s.addIdleWorker, {}) := by
      simp only [hl] at h2
      exact h2
    exact h3.withConfig {
      upper := by
        rw [show s.addIdleWorker.activeWorkers.length = n + 1 from hle']
        exact hn
      lower := fun _ => hle'.ge
      parked := h3.bounds.parked }

theorem base_initial : Base c (initial c, {}) := (base_repeat c.size c.size_le).1

/-! ## 走行 -/

def Mode.allowsRun (m : Mode) (c : Config) (s : Pool) : List Event → Prop
  | [] => True
  | e :: rest => m.allows s e ∧ m.allowsRun c (step c s e) rest

theorem run_append (s l₁ l₂) : run c s (l₁ ++ l₂) = run c (run c s l₁) l₂ := by
  induction l₁ generalizing s with
  | nil => rfl
  | cons e rest ih => exact ih (step c s e)

theorem run_moves (h : Base c (s, {})) (ha : m.allowsRun c s events) : Moves c m (s, {}) (run c s events, {}) := by
  induction events generalizing s with
  | nil => exact .refl
  | cons e rest ih =>
    have h1 := step_moves h ha.1
    exact h1.trans (ih (h1.base h) ha.2)

theorem Moves.invariant {I : Stage → Prop} (hI : ∀ x y, Move c m x y → Base c x → I x → I y)
    (h : Moves c m x y) (hb : Base c x) (hx : I x) : I y := by
  induction h with
  | refl => exact hx
  | tail h1 h2 ih => exact hI _ _ h2 (Moves.base h1 hb) ih

theorem run_invariant {I : Stage → Prop} (h0 : I (initial c, {})) (hI : ∀ x y, Move c m x y → Base c x → I x → I y)
    (ha : m.allowsRun c (initial c) events) : I (run c (initial c) events, {}) :=
  (run_moves base_initial ha).invariant hI base_initial h0

theorem allowsRun_any : Mode.allowsRun {} c s events := by
  induction events generalizing s with
  | nil => trivial
  | cons e rest ih => exact ⟨⟨nofun, nofun, nofun⟩, ih⟩

theorem allowsRun_status (h : runAll reportsStatus c s events = true) : Mode.allowsRun { status := true } c s events := by
  induction events generalizing s with
  | nil => trivial
  | cons e rest ih =>
    simp only [runAll, and_eq_true] at h
    exact ⟨⟨fun _ => h.1, nofun, nofun⟩, ih h.2⟩

theorem allowsRun_tidy (h : runAll keepsReserved c s events = true) : Mode.allowsRun { tidy := true } c s events := by
  induction events generalizing s with
  | nil => trivial
  | cons e rest ih =>
    simp only [runAll, and_eq_true] at h
    exact ⟨⟨nofun, fun _ => h.1, nofun⟩, ih h.2⟩

theorem allowsRun_placed (h : runAll findsSuspects c s events = true) : Mode.allowsRun { placed := true } c s events := by
  induction events generalizing s with
  | nil => trivial
  | cons e rest ih =>
    simp only [runAll, and_eq_true] at h
    exact ⟨⟨nofun, nofun, fun _ => h.1⟩, ih h.2⟩

theorem base_run (events) : Base c (run c (initial c) events, {}) :=
  (run_moves base_initial allowsRun_any).base base_initial

theorem exited_absent {before after : List Event} (he : events = before ++ .exit w :: after)
    (hw : w < (run c (initial c) before).nextWorker) : Absent (run c (initial c) events) w := by
  obtain ⟨h1, hab⟩ := exit_moves (m := {}) (w := w) (base_run (c := c) before)
  have hb := h1.base (base_run before)
  rw [he, run_append]
  exact (run_moves hb allowsRun_any).absent hb (hab hw)

/-! ## 実行者への参照 -/

structure Referenced (tainted : Worker → Bool) (memory : List (Worker × Memory)) (metadata : Worker → Option Metadata)
    (retired : List Worker) : Prop where
  tainted : ∀ w, tainted w = true → metadata w ≠ none ∨ w ∈ retired
  memory : ∀ x ∈ memory, metadata x.1 ≠ none

def References (x : Stage) : Prop := Referenced x.1.tainted x.1.book.workerMemory x.1.metadata x.1.retiredWorkers

namespace Referenced

variable {tainted : Worker → Bool} {memory : List (Worker × Memory)} {metadata metadata' : Worker → Option Metadata}
  {retired : List Worker} (h : Referenced tainted memory metadata retired)

include h

theorem grow (hm : ∀ x, metadata x ≠ none → metadata' x ≠ none) : Referenced tainted memory metadata' retired where
  tainted := fun x hx => (h.tainted x hx).imp_left (hm x)
  memory := fun x hx => hm x.1 (h.memory x hx)

theorem update {w} (md) : Referenced tainted memory (update metadata w (some md)) retired := by
  refine h.grow fun x hx => ?_
  by_cases he : x = w
  · simp [he]
  · simpa [he] using hx

theorem remove {w} : Referenced (Function.update tainted w false) (memory.filter fun x => x.1 ≠ w)
    (Function.update metadata w none) retired where
  tainted := fun x hx => by
    by_cases he : x = w
    · simp [he] at hx
    · rw [Function.update_of_ne he] at hx ⊢
      exact h.tainted x hx
  memory := fun x hx => by
    obtain ⟨hx, hne⟩ := mem_filter.mp hx
    rw [Function.update_of_ne (by simpa using hne)]
    exact h.memory x hx

theorem track {w} : Referenced tainted memory metadata (setAdd retired w) :=
  { h with tainted := fun x hx => (h.tainted x hx).imp_right fun hx => mem_setAdd.mpr (.inl hx) }

end Referenced

theorem Move.references {c m} (hm : Move c m x y) (hp : m.placed = true) (h : References x) : References y := by
  cases hm with
  | aux s g book recovering waiting hb hw hm =>
    exact { h with memory := fun x hx => (hm x hx).elim (h.memory x) id }
  | unqueue s g ds q r =>
    simp only [References, settleAll_eq]
    exact h
  | assign s g w p md | create s g | startFresh s g w d md => exact Referenced.update h _
  | scrub s g w => exact Referenced.remove h
  | drop s g w tracked | dropParked s g w tracked =>
    cases tracked with
    | false => exact Referenced.remove h
    | true => exact (Referenced.remove h).track
  | shrink s g w => exact (Referenced.remove h).track
  | untrack s g w ht =>
    refine { h with tainted := fun x hx => (h.tainted x hx).imp_right fun hr => mem_setDelete.mpr ⟨hr, ?_⟩ }
    rintro rfl
    exact absurd ((ht hp).symm.trans hx) nofun
  | taint s g t ht hlt hpl => exact { h with tainted := fun x hx => (hpl hp x hx).elim (h.tainted x) id }
  | _ => exact h

theorem references_run {c} (hr : runAll findsSuspects c (initial c) events = true) :
    References (run c (initial c) events, {}) := by
  refine run_invariant ?_ (fun _ _ hm _ h => hm.references rfl h) (allowsRun_placed hr)
  have h0 := untouched_initial (c := c)
  exact {
    tainted := fun w hw => absurd ((h0.tainted w).symm.trans hw) nofun
    memory := fun x hx => by
      rw [h0.memory] at hx
      cases hx }

end Supacloud.EdgeRuntime
