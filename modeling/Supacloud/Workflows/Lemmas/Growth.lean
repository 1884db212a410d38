import Supacloud.Workflows.Lemmas.Steps

/-!
# run の整い

段階から、run の整いと、終わった run が変わらないことを導く。
-/

namespace Supacloud.Workflows

open Library Store List

variable {s s' : Store} {now : Timestamp} {q : Request} {v v' : View} {r : Uuid} {run : Run} {past : List Step} {t : Step}
  {events : List EventRow} {os os' : List Occasion} {o : Occasion}

/-! ## 鎖と動いている step -/

theorem Chained.oneChain (h : Chained events past t) : OneChain (past ++ [t]) where
  nonempty := by simp
  linked := h.linked
  last := by simpa using h.last
  keys := h.keys

theorem Chained.past_active (h : Chained events past t) : past.filter (fun x => x.status.active) = [] :=
  filter_eq_nil_iff.mpr fun x hx => by simp [h.completed hx, StepStatus.active]

theorem Sound.runSound (h : Sound s) (hrun : run ∈ s.runs) : RunSound s run := by
  have hmem : run ∈ (s.view run.id).rows := mem_rows.mpr ⟨hrun, rfl⟩
  have hph := h.phase run.id
  have hac : s.activeSteps run.id = (s.view run.id).chain.filter fun t => t.status.active := rfl
  generalize hv : s.view run.id = v at hph hmem hac
  cases hph with
  | absent => cases hmem
  | @live run' past t m events hhe hcn hcha =>
    obtain rfl := mem_singleton.mp hmem
    have hone : s.activeSteps run.id = [t] := by
      rw [hac, filter_append, hcha.past_active]
      simp [hhe.pending]
    have hma : (s.view run.id).mail = [m] := by rw [hv]
    refine ⟨⟨fun _ => ⟨t, hone⟩, fun _ => hhe.active⟩, fun _ => ⟨t, m, hone, hma, hhe.id, hhe.stepId⟩, fun hcl => ?_, ?_⟩
    · rw [hhe.active] at hcl
      cases hcl
    · rw [hv]
      exact hcha.oneChain
  | @ended run' past t events hru' hst hcha =>
    obtain rfl := mem_singleton.mp hmem
    have hno : s.activeSteps run.id = [] := by
      rw [hac, filter_append, hcha.past_active]
      simp [hst]
    refine ⟨⟨fun ha => ?_, fun ⟨t', ht'⟩ => ?_⟩, fun ha => ?_, fun _ => by rw [hv], ?_⟩
    · rw [hru'] at ha
      cases ha
    · rw [hno] at ht'
      cases ht'
    · rw [hru'] at ha
      cases ha
    · rw [hv]
      exact hcha.oneChain

theorem Sound.runIds (h : Sound s) : (s.runs.map Run.id).Nodup := by
  refine nodup_iff_count_le_one.mpr fun r => ?_
  have hcn : (s.runs.map Run.id).count r = (s.view r).rows.length := by
    rw [count, countP_map, countP_eq_length_filter]
    rfl
  rw [hcn]
  have hph := h.phase r
  generalize s.view r = v at hph
  cases hph <;> simp [View.absent]

/-! ## 終わった run -/

theorem Move.source (h : Move now q v v') : v.rows = [] ∨ v.mail ≠ [] := by
  cases h with
  | start => exact .inl rfl
  | grant | exhaust | advance | complete | requeue | bury | fail | cancel => exact .inr (cons_ne_nil _ _)

theorem Sound.closed (h : Sound s) (hrun : run ∈ s.runs) (hac : run.status.active = false) : ¬ Move now q (s.view run.id) v' := by
  intro hmo
  rcases hmo.source with hro | hma
  · have hmem : run ∈ (s.view run.id).rows := mem_rows.mpr ⟨hrun, rfl⟩
    rw [hro] at hmem
    cases hmem
  · exact hma ((h.runSound hrun).closed hac)

theorem commit_closed (h : Sound s) (hrun : run ∈ s.runs) (hac : run.status.active = false) : (commit s o).view run.id = s.view run.id := by
  rcases commit_cases h o with hs | ⟨r, hef⟩
  · rw [hs]
  · grind [hef.move, h.closed, hef.frame]

theorem reached_append : reached (os ++ os') = Library.run commit (reached os) os' := run_append

theorem reached_closed (hrun : run ∈ (reached os).runs) (hac : run.status.active = false) :
    (reached (os ++ os')).view run.id = (reached os).view run.id := by
  have hru' : run ∈ ((reached os).view run.id).rows := mem_rows.mpr ⟨hrun, rfl⟩
  have hinv : ∀ s : Store, (Sound s ∧ s.view run.id = (reached os).view run.id) → ∀ o,
      Sound (commit s o) ∧ (commit s o).view run.id = (reached os).view run.id := by
    rintro s ⟨hso, hvi⟩ o
    have hmem : run ∈ s.runs := by
      rw [← hvi] at hru'
      exact (mem_rows.mp hru').1
    exact ⟨commit_sound hso, (commit_closed hso hmem hac).trans hvi⟩
  have hfi : _ ∧ (Library.run commit (reached os) os').view run.id = _ := run_invariant (fun s o h => hinv s h o) ⟨reached_sound, rfl⟩
  rw [reached_append]
  exact hfi.2

/-! ## 確定した記録の保存 -/

variable {run' : Run} {t' x : Step}

/-! ## 一つの run の成長 -/

structure Run.Kept (run run' : Run) : Prop where
  id : run'.id = run.id
  workflowName : run'.workflowName = run.workflowName
  workflowVersion : run'.workflowVersion = run.workflowVersion
  input : run'.input = run.input
  closed : run.status.active = false → run' = run

structure Step.Kept (t t' : Step) : Prop where
  same : Chained.Rewrites t t'
  closed : t.status.active = false → t' = t

theorem Run.Kept.refl : run.Kept run := ⟨rfl, rfl, rfl, rfl, fun _ => rfl⟩

theorem Step.Kept.refl : t.Kept t := ⟨⟨rfl, rfl, rfl, rfl, rfl, rfl, rfl⟩, fun _ => rfl⟩

theorem Run.Kept.trans {run''} (h : run.Kept run') (h' : run'.Kept run'') : run.Kept run'' where
  id := h'.id.trans h.id
  workflowName := h'.workflowName.trans h.workflowName
  workflowVersion := h'.workflowVersion.trans h.workflowVersion
  input := h'.input.trans h.input
  closed hc := by
    have heq := h.closed hc
    subst heq
    exact h'.closed hc

theorem Step.Kept.trans {t''} (h : t.Kept t') (h' : t'.Kept t'') : t.Kept t'' where
  same := ⟨h'.same.id.trans h.same.id, h'.same.runId.trans h.same.runId, h'.same.stepKey.trans h.same.stepKey,
    h'.same.input.trans h.same.input, h'.same.maxAttempts.trans h.same.maxAttempts,
    h'.same.queueMessageId.trans h.same.queueMessageId, h'.same.createdAt.trans h.same.createdAt⟩
  closed hc := by
    have heq := h.closed hc
    subst heq
    exact h'.closed hc

structure View.Grows (v v' : View) : Prop where
  rows : ∀ run ∈ v.rows, ∃ run' ∈ v'.rows, run.Kept run'
  chain : ∀ (i : Nat) (t : Step), v.chain[i]? = some t → ∃ t', v'.chain[i]? = some t' ∧ t.Kept t'
  events : ∀ e ∈ v.events, e ∈ v'.events

theorem View.Grows.refl : v.Grows v := ⟨fun run h => ⟨run, h, .refl⟩, fun _ t h => ⟨t, h, .refl⟩, fun _ h => h⟩

theorem View.Grows.trans {v''} (h : v.Grows v') (h' : v'.Grows v'') : v.Grows v'' where
  rows run hrun := by
    obtain ⟨run', hru', hke⟩ := h.rows run hrun
    obtain ⟨run'', hru'', hke'⟩ := h'.rows run' hru'
    exact ⟨run'', hru'', hke.trans hke'⟩
  chain i t ht := by
    obtain ⟨t', ht', hke⟩ := h.chain i t ht
    obtain ⟨t'', ht'', hke'⟩ := h'.chain i t' ht'
    exact ⟨t'', ht'', hke.trans hke'⟩
  events e he := h'.events e (h.events e he)

theorem chain_replace {rest} (hke : t.Kept t') :
    ∀ (i : Nat) (x), (past ++ [t])[i]? = some x → ∃ x', (past ++ t' :: rest)[i]? = some x' ∧ x.Kept x' := by
  intro i x hx
  rcases Nat.lt_trichotomy i past.length with hlt | rfl | hgt
  · rw [getElem?_append_left hlt] at hx
    exact ⟨x, by rw [getElem?_append_left hlt, hx], .refl⟩
  · simp only [getElem?_concat_length, Option.some.injEq] at hx
    subst hx
    exact ⟨t', by simp, hke⟩
  · rw [getElem?_eq_none (by simp; omega)] at hx
    cases hx

theorem Held.grows {m box es rest} (h : Held run t m) (hrun : run.Kept run')
    (hrw : Chained.Rewrites t t') : View.Grows ⟨[run], past ++ [t], [m], events⟩ ⟨[run'], past ++ t' :: rest, box, events ++ es⟩ where
  rows x hx := by
    rw [mem_singleton.mp hx]
    exact ⟨run', by simp, hrun⟩
  chain := by
    refine chain_replace ⟨hrw, fun hc => ?_⟩
    rw [h.pending] at hc
    cases hc
  events e he := mem_append_left _ he

theorem Move.grows (h : Move now q v v') : v.Grows v' := by
  have hke : ∀ {run run' : Run}, run.status.active = true → run'.id = run.id ∧ run'.workflowName = run.workflowName ∧
      run'.workflowVersion = run.workflowVersion ∧ run'.input = run.input → run.Kept run' := by
    rintro run run' hac ⟨hid, hna, hve, hinp⟩
    refine ⟨hid, hna, hve, hinp, fun hc => ?_⟩
    rw [hac] at hc
    cases hc
  cases h with
  | start => exact ⟨nofun, nofun, nofun⟩
  | grant hhe | exhaust hhe | complete hhe | bury hhe | fail hhe | cancel hhe => exact hhe.grows (hke hhe.active ⟨rfl, rfl, rfl, rfl⟩) ⟨rfl, rfl, rfl, rfl, rfl, rfl, rfl⟩
  | advance hhe | requeue hhe => exact hhe.grows .refl ⟨rfl, rfl, rfl, rfl, rfl, rfl, rfl⟩

/-! ## 表の成長 -/

def Store.Grows (s s' : Store) : Prop := ∀ r, (s.view r).Grows (s'.view r)

theorem Store.Grows.refl : s.Grows s := fun _ => .refl

theorem Effect.grows (h : Effect s s' now q r) : s.Grows s' := by
  intro r'
  by_cases hr : r' = r
  · rw [hr]
    exact h.move.grows
  · rw [h.frame r' hr]
    exact .refl

theorem commit_grows {o} (h : Sound s) : s.Grows (commit s o) := by
  rcases commit_cases h o with hs | ⟨r, hef⟩
  · rw [hs]
    exact .refl
  · exact hef.grows

theorem reached_grows : (reached os).Grows (reached (os ++ os')) := by
  have hfi : Sound (Library.run commit (reached os) os') ∧ (reached os).Grows (Library.run commit (reached os) os') := by
    refine run_invariant (I := fun s => Sound s ∧ (reached os).Grows s)
      (fun s o h => ⟨commit_sound h.1, fun r => (h.2 r).trans (commit_grows h.1 r)⟩) ⟨reached_sound, .refl⟩
  rw [reached_append]
  exact hfi.2

/-! ## 引いた行の成長 -/

theorem Store.Grows.run_kept (h : s.Grows s') (hs : Sound s') {id} (hrun : s.run id = some run) :
    ∃ run', s'.run id = some run' ∧ run.Kept run' := by
  have hmem : run ∈ s.runs := mem_of_find?_eq_some hrun
  have hid : run.id = id := by simpa using find?_some hrun
  obtain ⟨run', hru', hke⟩ := (h id).rows run (mem_rows.mpr ⟨hmem, hid⟩)
  refine ⟨run', ?_, hke⟩
  rw [run_eq_head?]
  have hph := hs.phase id
  generalize s'.view id = v at hph hru'
  cases hph with
  | absent => cases hru'
  | live | ended => rw [mem_singleton.mp hru']; rfl

theorem Store.Grows.mem_steps (h : s.Grows s') (ht : t ∈ s.steps) : ∃ t' ∈ s'.steps, t.Kept t' := by
  obtain ⟨i, hi⟩ := mem_iff_getElem?.mp (mem_chain.mpr ⟨ht, rfl⟩ : t ∈ (s.view t.runId).chain)
  obtain ⟨t', ht', hke⟩ := (h t.runId).chain i t hi
  exact ⟨t', (mem_chain.mp (mem_of_getElem? ht')).1, hke⟩

theorem Store.Grows.step (h : s.Grows s') (hs : Sound s') {id} (ht : s.step id = some t) :
    ∃ t', s'.step id = some t' ∧ t.Kept t' := by
  obtain ⟨hmem, rfl⟩ := mem_of_step ht
  obtain ⟨t', ht', hke⟩ := h.mem_steps hmem
  exact ⟨t', hke.same.id ▸ step_of_mem hs.stepIds ht', hke⟩

theorem Store.Grows.lockStepAttempt (h : s.Grows s') (hs : Sound s') {a} (hlo : lockStepAttempt s a = .ok t)
    (hcl : t.status.active = false) : lockStepAttempt s' a = .ok t := by
  simp only [Workflows.lockStepAttempt, lockStep, bind_eq_ok, fetch_eq_ok, require_eq_ok, pure_eq_ok] at hlo ⊢
  obtain ⟨active, hac, workerId, hwo, _, hchs, rfl⟩ := hlo
  obtain ⟨t', ht', hke⟩ := h.step hs hac
  rw [hke.closed hcl] at ht'
  exact ⟨active, ht', workerId, hwo, ⟨⟩, hchs, rfl⟩

theorem Sound.chained (h : Sound s) : (s.view r).chain = [] ∨ ∃ past t, (s.view r).chain = past ++ [t] ∧ Chained (s.view r).events past t := by
  have hph := h.phase r
  generalize s.view r = v at hph
  cases hph with
  | absent => exact .inl rfl
  | live _ _ hcha | ended _ _ hcha => exact .inr ⟨_, _, rfl, hcha⟩

theorem Sound.eq_of_key (h : Sound s) {a b} (ha : a ∈ s.steps) (hb : b ∈ s.steps) (hrun : a.runId = b.runId)
    (hkey : a.stepKey = b.stepKey) : a = b := by
  have ha' : a ∈ (s.view b.runId).chain := mem_chain.mpr ⟨ha, hrun⟩
  have hb' : b ∈ (s.view b.runId).chain := mem_chain.mpr ⟨hb, rfl⟩
  rcases h.chained (r := b.runId) with hnil | ⟨past, t, hch, hcha⟩
  · rw [hnil] at hb'
    cases hb'
  · rw [hch] at ha' hb'
    exact Library.eq_of_key hcha.keys ha' hb' hkey

theorem Store.Grows.stepByKey (h : s.Grows s') (hs : Sound s') {runId key} (ht : s.stepByKey runId key = some t) :
    ∃ t', s'.stepByKey runId key = some t' ∧ t.Kept t' := by
  unfold Store.stepByKey at ht ⊢
  obtain ⟨t', ht', hke⟩ := h.mem_steps (mem_of_find?_eq_some ht)
  have hfo := find?_some ht
  obtain ⟨hrun, hkey⟩ := of_decide_eq_true hfo
  have hco : t'.runId = runId ∧ t'.stepKey = key := ⟨hke.same.runId.trans hrun, hke.same.stepKey.trans hkey⟩
  cases hfn : s'.steps.find? fun t => t.runId = runId ∧ t.stepKey = key with
  | none => exact absurd (decide_eq_true hco) (find?_eq_none.mp hfn t' ht')
  | some x => grind [hs.eq_of_key]

/-! ## はじめの step -/

/-- はじめの step は、run とともに加えられ、ほかのどの step よりも前の時刻を持つ。 -/
def Led (v : View) : Prop :=
  ∀ first rest, v.chain = first :: rest → (∀ run ∈ v.rows, run.createdAt = first.createdAt) ∧ ∀ x ∈ rest, first.createdAt < x.createdAt

theorem Led.replace {box box' es} (h : Led ⟨[run], past ++ [t], box, events⟩) (hrun : run'.createdAt = run.createdAt)
    (ht : t'.createdAt = t.createdAt) : Led ⟨[run'], past ++ [t'], box', es⟩ := by
  intro first rest hch
  cases past with
  | nil =>
    obtain ⟨rfl, rfl⟩ := cons.inj hch
    have := (h t [] rfl).1
    simp_all
  | cons a past =>
    obtain ⟨rfl, rfl⟩ := cons.inj hch
    obtain ⟨hro, hre⟩ := h a (past ++ [t]) rfl
    refine ⟨by simpa [hrun] using hro, fun x hx => ?_⟩
    rcases mem_append.mp hx with hx | hx
    · exact hre x (mem_append_left _ hx)
    · rw [mem_singleton.mp hx, ht]
      exact hre t (by simp)

theorem Led.extend {box box' es} (h : Led ⟨[run], past ++ [t], box, events⟩) (ht : t'.createdAt = t.createdAt)
    (hx : run.createdAt < x.createdAt) : Led ⟨[run], past ++ [t', x], box', es⟩ := by
  intro first rest hch
  have hre : Led ⟨[run], past ++ [t'], box, es⟩ := h.replace rfl ht
  have hsp : past ++ [t', x] = past ++ [t'] ++ [x] := by simp
  rw [hsp] at hch
  obtain ⟨first', rest', hne⟩ := exists_cons_of_ne_nil (show past ++ [t'] ≠ [] by simp)
  obtain ⟨hro, hre⟩ := hre first' rest' hne
  rw [hne] at hch
  obtain ⟨rfl, rfl⟩ := cons.inj hch
  refine ⟨hro, fun y hy => ?_⟩
  rcases mem_append.mp hy with hy | hy
  · exact hre y hy
  · rw [mem_singleton.mp hy, ← hro run (by simp)]
    exact hx

theorem Move.led (h : Move now q v v') (hl : Led v)
    (ht : ∀ a, q = .advance a → ∀ t ∈ v.chain, t.id = a.stepId → ∀ run ∈ v.rows, run.createdAt < now) : Led v' := by
  cases h with
  | start _ _ _ _ hrun _ hst =>
    intro first rest hch
    obtain ⟨rfl, rfl⟩ := cons.inj hch
    rw [hrun, hst]
    simp [newRun, newStep]
  | @advance r run past t t' m m' events workerId key _ hhos _ _ _ hst =>
    refine hl.extend rfl ?_
    rw [hst]
    exact ht r rfl t (by simp) hhos.stepId run (by simp)
  | grant | exhaust | complete | requeue | bury | fail | cancel => exact hl.replace rfl rfl

theorem commit_led (h : Sound s) (hl : Led (s.view r)) (ht : Timely s r o) : Led ((commit s o).view r) := by
  rcases commit_cases h o with hs | ⟨r', hef⟩
  · rwa [hs]
  · by_cases hr : r = r'
    · subst hr
      refine hef.move.led hl fun a ha t hmem hid run hrun => ?_
      unfold Timely at ht
      rw [ha] at ht
      obtain ⟨hmt, how⟩ := mem_chain.mp hmem
      obtain ⟨hmr, hir⟩ := mem_rows.mp hrun
      exact ht t hmt hid how run hmr hir
    · rw [hef.frame r hr]
      exact hl

theorem reached_led (h : Along commit (fun s => Timely s r) .empty os) : Led ((reached os).view r) := by
  have hbo : Sound (reached os) ∧ Led ((reached os).view r) :=
    h.invariant (I := fun s => Sound s ∧ Led (s.view r)) (fun s o hi hc => ⟨commit_sound hi.1, commit_led hi.1 hi.2 hc⟩)
      ⟨.empty, nofun⟩
  exact hbo.2

theorem Led.stepsOf_head (h : Led (s.view r)) : (s.stepsOf r).head? = (s.view r).chain.head? := by
  show ((s.view r).chain.insertionSort before).head? = _
  cases hch : (s.view r).chain with
  | nil => rfl
  | cons first rest =>
    have hbe : ∀ x ∈ rest.insertionSort before, before first x := fun x hx =>
      .inl ((h first rest hch).2 x ((perm_insertionSort before rest).mem_iff.mp hx))
    rw [insertionSort_cons]
    cases hso : rest.insertionSort before with
    | nil => rfl
    | cons x xs => simp [orderedInsert, hbe x (by simp [hso])]

theorem Store.Grows.first (h : s.Grows s') (hl : Led (s.view r)) (hl' : Led (s'.view r)) (ht : (s.stepsOf r).head? = some t) :
    ∃ t', (s'.stepsOf r).head? = some t' ∧ t.Kept t' := by
  rw [hl.stepsOf_head, head?_eq_getElem?] at ht
  rw [hl'.stepsOf_head]
  simpa [head?_eq_getElem?] using (h r).chain 0 t ht

end Supacloud.Workflows
