import Supacloud.EdgeRuntime.Lemmas.Turns

/-!
# 実行の進行の手番

始まった実行が受ける通知、計時器、取り消しを、一手の列に分ける。
-/

namespace Supacloud.EdgeRuntime

open Library Pool Dispatch Ghost List

variable {c : Config} {m : Mode} {s : Pool} {g : Ghost} {w : Worker} {e e' : Execution} {r : Response} {posted : Bool}

/-! ## 閉包の変数の書き換え -/

theorem findExecution_some {k} (h : s.findExecution k = some e) : e ∈ s.inFlight ∧ e.key = k :=
  ⟨mem_of_find?_eq_some h, by simpa using find?_some h⟩

theorem mem_updateExecution (he : e ∈ s.inFlight) (hd : e'.dispatch = e.dispatch) : e' ∈ (s.updateExecution e').inFlight := by
  have hk : e.key = e'.key := (congrArg key hd).symm
  refine mem_map.mpr ⟨e, he, ?_⟩
  rw [if_pos hk]

theorem updateExecution_twice {e₁ e₂} (hk : e₁.key = e₂.key) : (s.updateExecution e₁).updateExecution e₂ = s.updateExecution e₂ := by
  unfold updateExecution
  simp only [map_map]
  congr 1
  refine map_congr_left fun x _ => ?_
  by_cases hx : x.key = e₂.key
  · simp [hx, hk]
  · simp [hx, hk]

theorem updateExecution_self (hn : (s.inFlight.map Execution.key).Nodup) (he : e ∈ s.inFlight) : s.updateExecution e = s := by
  have : (s.inFlight.map fun x => if x.key = e.key then e else x) = s.inFlight := by
    conv_rhs => rw [← map_id s.inFlight]
    refine map_congr_left fun x hx => ?_
    split
    · rename_i hk
      exact (inj_on_of_nodup_map hn hx he hk).symm
    · rfl
  unfold updateExecution
  rw [this]

theorem updateExecution_of_not_mem (h : e.key ∉ s.inFlight.map Execution.key) : s.updateExecution e = s := by
  have : (s.inFlight.map fun x => if x.key = e.key then e else x) = s.inFlight := by
    conv_rhs => rw [← map_id s.inFlight]
    refine map_congr_left fun x hx => ?_
    have hk : x.key ≠ e.key := fun hk => h (hk ▸ mem_map_of_mem hx)
    rw [if_neg hk]
    rfl
  unfold updateExecution
  rw [this]

theorem cleanup_updateExecution (hd : e'.dispatch = e.dispatch) (hw : e'.worker = e.worker) :
    (s.updateExecution e').cleanup e' = s.cleanup e := by
  have hk : e'.key = e.key := congrArg key hd
  have hfi : (s.inFlight.map fun x => if x.key = e.key then e' else x).filter (fun x => x.key ≠ e.key) =
      s.inFlight.filter fun x => x.key ≠ e.key := by
    induction s.inFlight with
    | nil => rfl
    | cons x l ih => grind
  simp only [cleanup, updateExecution, hk, hw]
  rw [hfi]

theorem resolveOnce_move (he : e ∈ s.inFlight) (hd : e'.dispatch = e.dispatch) (hw : e'.worker = e.worker)
    (hr : e'.resolved = true) (hok : e'.Ok) : Move c m (s, g) ((s.resolveOnce e r).updateExecution e', g) := by
  unfold resolveOnce
  split
  · rename_i hres
    exact .update s g e e' he hd hw (hr.trans hres.symm) hok
  · rename_i hres
    exact .resolve s g e e' r he hd hw (by simpa using hres) hr hok

/-! ## 取り消し -/

theorem complete_done (h1 : e.executionDone = true) (h2 : e.streamDone = true) : complete c s e = recycle c (s.cleanup e) e.worker := by
  simp [complete, h1, h2]

theorem resolveOnce_resolved (h : e.resolved = true) : s.resolveOnce e r = s := if_pos h

theorem requestCancellation_turn (hg : g.Rest) (h : Base c (s, g)) (he : e ∈ s.inFlight) (hd : e'.dispatch = e.dispatch)
    (hw : e'.worker = e.worker) (hr : e'.resolved = e.resolved) (hok : e'.cancellationRequested = true → e'.Ok)
    (hun : g.unchecked = []) : TurnOk c m (s, g) g (requestCancellation c (s.updateExecution e') e' r posted) := by
  have hk : e'.key = e.key := congrArg key hd
  have hcl : ∀ {x}, x.dispatch = e'.dispatch → x.worker = e'.worker →
      (((s.updateExecution e').resolveOnce e' r).cleanup x) = (s.cleanup e).resolveOnce e r := by
    intro x hxd hxw
    have h1 : ((s.updateExecution e').resolveOnce e' r).cleanup x = ((s.updateExecution e').cleanup e').resolveOnce e' r := by
      have hxk : x.key = e'.key := congrArg key hxd
      unfold resolveOnce
      split
      · simp only [cleanup, hxk, hxw]
      · simp only [cleanup, hxk, hxw, settle, record]
    rw [h1, cleanup_updateExecution hd hw]
    simp [resolveOnce, hr, hk]
  have hup : ∀ {x}, x.dispatch = e'.dispatch →
      ((s.updateExecution e').resolveOnce e' r).updateExecution x = (s.resolveOnce e r).updateExecution x := by
    intro x hxd
    have hxk : e'.key = x.key := (congrArg key hxd).symm
    have h1 : (s.updateExecution e').resolveOnce e' r = (s.resolveOnce e r).updateExecution e' := by
      simp only [resolveOnce, hr, hk]
      split <;> rfl
    rw [h1, updateExecution_twice hxk]
  have hun : e.worker ∉ g.unchecked := by simp [hun]
  unfold requestCancellation
  split
  · rename_i hc
    exact .of_none hg (.single (.update s g e e' he hd hw hr (hok hc)))
  · split
    · have hfin := finish_turn (m := m) hg h he hun r
      have hcm : ((s.updateExecution e').cleanup e').resolveOnce e' r = (s.cleanup e).resolveOnce e r := by
        rw [cleanup_updateExecution hd hw]
        simp [resolveOnce, hr, hk]
      rw [hcm, hw]
      exact hfin
    · dsimp only
      split
      · rename_i hdo
        have hco := complete_done (c := c) (s := (s.updateExecution e').resolveOnce e' r) (e := { e' with
          cancellationRequested := true
          timeout := false
          streamDone := true
          failStream := false
          pendingResponse := none
          resolved := true }) hdo rfl
        rw [hco, hcl]
        · dsimp only
          rw [hw]
          exact finish_turn hg h he hun r
        · rfl
        · rfl
      · split
        · let held : Execution := { e' with
            cancellationRequested := true
            timeout := false
            streamDone := e'.streamDone || e'.failStream
            failStream := false
            pendingResponse := none
            resolved := true
            cancelTimer := some r }
          have hok : held.Ok := ⟨fun _ => .inl rfl, fun _ => rfl, fun _ => rfl, fun _ => .inr rfl, fun h => absurd rfl h⟩
          have hmo : Move c m (s, g) ((s.resolveOnce e r).updateExecution held, g) := resolveOnce_move he hd hw rfl hok
          rw [hup]
          · exact .of_none hg (.single hmo)
          · rfl
        · unfold retireWithFailure
          rw [resolveOnce_resolved, hcl]
          · dsimp only
            rw [hw]
            exact retireWithFailure_turn hg h he hun r
          · rfl
          · rfl
          · rfl

theorem cancel_turn (hg : g.Rest) (h : Base c (s, g)) (he : e ∈ s.inFlight) (hun : g.unchecked = []) :
    TurnOk c m (s, g) g (requestCancellation c s e r posted) := by
  have htu : TurnOk c m (s, g) g (requestCancellation c (s.updateExecution e) e r posted) :=
    requestCancellation_turn hg h he rfl rfl rfl (fun _ => h.keys.ok e he) hun
  rwa [updateExecution_self h.keys.inFlight_nodup he] at htu

theorem cancel_moves (h : Base c (s, {})) (he : e ∈ s.inFlight) :
    Moves c m (s, {}) (finishTurn c (requestCancellation c s e r posted), {}) :=
  finishTurn_moves rest_empty h (cancel_turn rest_empty h he rfl)

theorem retireWithFailure_moves (h : Base c (s, {})) (he : e ∈ s.inFlight) :
    Moves c m (s, {}) (finishTurn c (retireWithFailure c s e r), {}) :=
  finishTurn_moves rest_empty h (retireWithFailure_turn rest_empty h he nofun r)

theorem cancelQueued_moves {p index} : Moves c m (s, g) (s.cancelQueued p index, g) := by
  unfold cancelQueued
  split
  · exact .refl
  · rename_i d q hq
    obtain ⟨hsub, hot, hpe⟩ := MultiQueue.removeAt_some hq
    refine .single (.unqueue s g [d] q .cancelled hpe fun k => ?_)
    by_cases hk : k = p
    · exact hk ▸ hsub
    · rw [hot k hk]

theorem cancelWhere_moves (h : Base c (s, {})) {q} : Moves c m (s, {}) (cancelWhere c s q posted, {}) := by
  unfold cancelWhere
  split
  · exact cancelQueued_moves
  · split
    · rename_i e he
      exact cancel_moves h (mem_of_find?_eq_some he)
    · exact .refl

/-! ## 終わりの通知 -/

theorem Base.placed_lt (h : Base c (s, g)) (hw : Placed s w) : w < s.nextWorker :=
  hw.elim (h.places.known_lt w) (h.places.retired_lt w)

theorem Base.taint (h : Base c (s, g)) (hw : w < s.nextWorker) (hp : m.placed = true → Placed s w) :
    Move c m (s, g) ({ s with tainted := Function.update s.tainted w true }, g) := by
  refine .taint s g _ (fun x hx => ?_) (fun x hx => ?_) fun hm x hx => ?_
  · by_cases he : x = w
    · simp [he]
    · simpa [he] using hx
  · by_cases he : x = w
    · exact he ▸ hw
    · exact h.tainted_lt x (by simpa [he] using hx)
  · by_cases he : x = w
    · exact .inr (he ▸ hp hm)
    · exact .inl (by simpa [he] using hx)

theorem recordWorkerMemory_moves (h : Base c (s, g)) (hw : s.metadata w ≠ none) (memory budget) :
    Moves c m (s, g) (recordWorkerMemory c s w memory budget, g) := by
  have h1 : Move c m (s, g) ({ s with book := { s.book with
      workerMemory := s.book.workerMemory.filter (fun x => x.1 ≠ w) ++
        [(w, { heapSize := memory.heapSize, extraMemorySize := memory.extraMemorySize })] } }, g) := by
    refine .aux s g _ s.admissionRecovering s.bulkWaiting h.below (fun _ => .inl) fun x hx => ?_
    rcases mem_append.mp hx with hx | hx
    · exact .inl (mem_of_mem_filter hx)
    · exact .inr (mem_singleton.mp hx ▸ hw)
  unfold recordWorkerMemory
  dsimp only
  split
  · exact .tail (.single h1) ((h1.base h).taint (h.places.known_lt w hw) fun _ => .inl hw)
  · exact .single h1

theorem recordWorkerMemory_inFlight {memory budget} : (recordWorkerMemory c s w memory budget).inFlight = s.inFlight := by
  unfold recordWorkerMemory
  dsimp only
  split <;> rfl

theorem recycle_cleanup_turn (h : Base c (s, {})) (he : e ∈ s.inFlight) :
    TurnOk c m (s, {}) { pending := if e.resolved then [] else [e.key] } (recycle c (s.cleanup e) e.worker) := by
  have h1 := Move.finish (c := c) (m := m) s {} e he
  have hre : ({ pending := if e.resolved then [] else [e.key] } : Ghost).Rest := ⟨rfl, rfl, rfl, rfl, rfl⟩
  exact .head (.single h1) (recycle_turn hre (h1.base h) nofun rfl)

theorem cleanup_congr (hd : e'.dispatch = e.dispatch) (hw : e'.worker = e.worker) : s.cleanup e' = s.cleanup e := by
  have hk : e'.key = e.key := congrArg key hd
  simp [cleanup, hk, hw]

theorem settlePending_moves {k r} (h : Base c (s, { pending := [k] })) (he : e.key = k)
    (hr : e'.resolved = false) (hk : e'.key = k) :
    Moves c m (s, { pending := [k] }) ((s.resolveOnce e' r).updateExecution e, {}) := by
  have hse := Move.settle (c := c) (m := m) s { pending := [k] } k r mem_cons_self
  simp only [erase_cons_head] at hse
  have hout : e.key ∉ (s.settle k r).inFlight.map Execution.key := by
    have hn := h.keys.nodup
    unfold liveKeys at hn
    intro hmem
    exact (nodup_append.mp hn).2.2 k (mem_append_right _ (he ▸ hmem)) k (mem_singleton_self _) rfl
  have hres : s.resolveOnce e' r = s.settle k r := by simp [resolveOnce, hr, hk]
  rw [hres, updateExecution_of_not_mem hout]
  exact .single hse

section

variable (h : Base c (s, {})) (he : e ∈ s.inFlight)

include h he

theorem completed_moves (hd : e'.dispatch = e.dispatch)
    (hw : e'.worker = e.worker) (hr : e'.resolved = e.resolved) (hok : e'.Ok) (hdo : e'.executionDone = true)
    (hs : m.status = true → e'.responseReceived = true ∨ e'.cancellationRequested = true) :
    Moves c m (s, {}) (match e'.pendingResponse with
      | none => finishTurn c (complete c s e')
      | some status => ((finishTurn c (complete c s e')).resolveOnce e' (.worker status)).updateExecution
          { e' with pendingResponse := none, resolved := true }, {}) := by
  have hk : e'.key = e.key := congrArg key hd
  by_cases hst : e'.streamDone = true
  · rw [complete_done hdo hst, cleanup_congr hd hw, hw]
    have hre : ({ pending := if e.resolved then [] else [e.key] } : Ghost).Rest := ⟨rfl, rfl, rfl, rfl, rfl⟩
    have hfin := finishTurn_moves hre h (recycle_cleanup_turn (m := m) h he)
    have hb := hfin.base h
    generalize finishTurn c (recycle c (s.cleanup e) e.worker) = s₂ at hfin hb
    cases hp : e'.pendingResponse with
    | none =>
      cases hres : e.resolved with
      | true =>
        simp only [hres, if_true] at hfin
        exact hfin
      | false =>
        simp only [hres, Bool.false_eq_true, if_false] at hfin
        have hsts : m.status = false := by grind [hok.received, hok.cancelled]
        have hlo := Move.lose (c := c) (m := m) s₂ { pending := [e.key] } e.key mem_cons_self hsts
        simp only [erase_cons_head] at hlo
        exact hfin.tail hlo
    | some status =>
      have hres : e'.resolved = false := (hok.held (by simp [hp])).1
      simp only [← hr, hres, Bool.false_eq_true, if_false] at hfin hb
      exact hfin.trans (settlePending_moves hb hk hres hk)
  · have hupd : Move c m (s, {}) (s.updateExecution e', {}) := .update s {} e e' he hd hw hr hok
    have hco : finishTurn c (complete c s e') = s.updateExecution e' := by
      unfold complete
      rw [if_pos (by simp [hst])]
      rfl
    rw [hco]
    cases hp : e'.pendingResponse with
    | none => exact .single hupd
    | some status =>
      refine .tail (.single hupd) (resolveOnce_move (mem_updateExecution he hd) rfl rfl rfl
        ⟨fun _ => .inl rfl, fun _ => rfl, fun _ => rfl, fun _ => ?_, fun h => absurd rfl h⟩)
      exact .inl (hok.held (by simp [hp])).2

theorem onExecutionComplete_moves (hw : s.metadata e.worker ≠ none) {memory}
    (hs : m.status = true → e.responseReceived = true ∨ e.cancellationRequested = true) :
    Moves c m (s, {}) (onExecutionComplete c s e memory, {}) := by
  have hm := recordWorkerMemory_moves (c := c) (m := m) h hw memory (heapBudget c e.dispatch.maxHeapBytes)
  refine hm.trans (completed_moves (e := e) (hm.base h) ?_ rfl rfl rfl { h.keys.ok e he with } rfl hs)
  rw [recordWorkerMemory_inFlight]
  exact he

/-! ## ほかの通知 -/

theorem onResponse_moves {status body} : Moves c m (s, {}) (onResponse c s e status body posted, {}) := by
  unfold onResponse
  split
  · exact .refl
  · rename_i hno
    simp only [Bool.or_eq_true, not_or, Bool.not_eq_true] at hno
    have hok := h.keys.ok e he
    dsimp only
    split
    · exact .single (resolveOnce_move (e := e) he rfl rfl rfl ⟨fun _ => .inl rfl, fun _ => rfl, fun _ => rfl, fun _ => .inl rfl,
        fun h => ⟨absurd (hok.held h).2 (by simp [hno.2]), rfl⟩⟩)
    · grind [finishTurn_moves, rest_empty, requestCancellation_turn]
    · have hres : e.resolved = false := by
        by_contra hne
        rcases hok.origin (by simpa using hne) with h1 | h1
        · simp [hno.2] at h1
        · simp [hno.1] at h1
      refine .single (.update s {} e _ he rfl rfl rfl ⟨fun _ => .inr nofun, fun hc => ?_, fun hc => ?_, fun hc => ?_, fun _ => ⟨hres, rfl⟩⟩)
      · simp [hno.1] at hc
      · exact hok.streaming hc
      · simp [hres] at hc

theorem onResponseComplete_moves {waitUntilPending} : Moves c m (s, {}) (onResponseComplete s e waitUntilPending, {}) := by
  have hok := h.keys.ok e he
  unfold onResponseComplete
  dsimp only
  split
  · rename_i status hp
    refine .single (resolveOnce_move he rfl rfl rfl ⟨fun _ => .inl rfl, fun _ => rfl, fun _ => rfl, fun _ => ?_,
      fun h => absurd rfl h⟩)
    exact .inl (hok.held (by simp [hp])).2
  · exact .single (.update s {} e _ he rfl rfl rfl { hok with })

theorem onPrepared_moves {outcome} : Moves c m (s, {}) (onPrepared c s e outcome, {}) := by
  unfold onPrepared
  split
  · exact .refl
  · cases outcome with
    | sent => exact .single (.update s {} e _ he rfl rfl rfl { h.keys.ok e he with })
    | bodyLimit _ | bufferBudget | readFailed | internalError => exact finishTurn_moves rest_empty h (finish_turn rest_empty h he nofun _)

theorem producerDone_moves (hres : e.resolved = true) :
    Moves c m (s, {}) (finishTurn c (complete c s { e with streamDone := true }), {}) := by
  by_cases hdo : e.executionDone = true
  · rw [complete_done (e := { e with streamDone := true }) hdo rfl]
    have htu := recycle_cleanup_turn (m := m) h he
    simp only [hres, if_true] at htu
    exact finishTurn_moves rest_empty h htu
  · have hco : finishTurn c (complete c s { e with streamDone := true }) = s.updateExecution { e with streamDone := true } := by
      unfold complete
      rw [if_pos (by simp [hdo])]
      rfl
    rw [hco]
    exact .single (.update s {} e _ he rfl rfl rfl { h.keys.ok e he with })

theorem onExecutionEvent_moves {event} : Moves c m (s, {}) (onExecutionEvent c s e event, {}) := by
  have hok := h.keys.ok e he
  cases event with
  | prepared outcome => exact onPrepared_moves h he
  | timeout posted | streamCancelled failed posted =>
    simp only [onExecutionEvent]
    split
    · exact cancel_moves h he
    · exact .refl
  | waitTimeout | cancelTimeout =>
    simp only [onExecutionEvent]
    split
    · exact retireWithFailure_moves h he
    · exact .refl
  | producerDone => grind [hok.streaming, onExecutionEvent, producerDone_moves]

end

end Supacloud.EdgeRuntime
