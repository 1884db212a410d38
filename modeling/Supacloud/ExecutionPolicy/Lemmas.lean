import Supacloud.ExecutionPolicy.Calls

/-! # 遮断器を共有する呼び出しの不変条件 -/

namespace Supacloud.ExecutionPolicy

open Commands Contracts Library Breaker Call Policy List

variable {α : Type} {p : ExecutionPolicy} {s s' : Policy α} {b b' : Breaker} {call call' : Call α} {id id' : CallId}
  {answers : Answers} {entries earlier : List Entry} {now : ℤ} {outcome : Except Thrown α}

/-! ## 一歩の場合分け -/

inductive Ends (b : Breaker) (call : Call α) : Breaker → Prop where
  | kept (failures : ℕ) : Ends b call { b with failures }
  | turned (failures : ℕ) (openUntil : ℤ) (h : call.currentGeneration = b.generation) :
      Ends b call { b with failures, openUntil, generation := b.generation + 1 }

inductive Move (p : ExecutionPolicy) (s : Policy α) : Policy α → Prop where
  | stay : Move p s s
  | reject (code : PolicyErrorCode) : Move p s (s.reject code)
  | accept (now : ℤ) (h : s.breaker.rejects now = false) : Move p s (s.accept now)
  | finish (id : CallId) (call : Call α) (hcall : s.calls[id]? = some call) (hlive : call.inProgress = true) (entries : List Entry)
      (hentries : ∀ entry ∈ entries, entry.id = id ∧ entry.isRun = false ∧ entry ≠ .aborted id) (result : Except PolicyError α)
      (breaker : Breaker) (h : Ends s.breaker call breaker) : Move p s ((s.note entries).finish id call result breaker)
  | wait (id : CallId) (call : Call α) (hcall : s.calls[id]? = some call) (hphase : call.phase = .running) (error : Thrown)
      (hretries : call.retries p error = true) (decision : RetryDecision) (h : p.kind = .command → decision = .rolledBack) :
      Move p s ((s.note [.classified id error decision]).goto id { call with phase := .waiting })
  | again (id : CallId) (call : Call α) (hcall : s.calls[id]? = some call) (hphase : call.phase = .waiting)
      (h : call.signal.aborted = false) (now : ℤ) :
      Move p s ((s.goto id { call with attempt := call.attempt + 1, phase := .running }).note
        [s.invoke id { call with attempt := call.attempt + 1, phase := .running } now])
  | abort (id : CallId) (call : Call α) (hcall : s.calls[id]? = some call) (hlive : call.inProgress = true) (expired : Bool) :
      Move p s ((s.goto id { call with signal := { aborted := true, expired } }).note [.aborted id])

theorem ends_self : Ends b call b := .kept b.failures

theorem ends_succeed : Ends b call (b.succeed call) := by
  unfold succeed
  split
  · exact ends_self
  · rename_i h
    split
    · exact .turned 0 0 (not_not.mp h)
    · exact .kept 0

theorem ends_caught {circuit error} : Ends b call (b.caught circuit call error answers).2 := by
  unfold caught
  split
  · exact ends_self
  · split
    · exact ends_self
    · rename_i h
      split
      · exact ends_self
      · unfold fail
        split
        · split
          · exact .turned _ _ (not_not.mp h)
          · exact .kept _
        · split
          · exact .turned _ _ (not_not.mp h)
          · exact ends_self

theorem inProgress_running (h : call.phase = .running) : call.inProgress = true := by simp [inProgress, h]

theorem inProgress_waiting (h : call.phase = .waiting) : call.inProgress = true := by simp [inProgress, h]

theorem mem_classifications {classified entry} (h : entry ∈ call.classifications p id outcome classified) : entry.id = id ∧ entry.isRun = false ∧ entry ≠ .aborted id := by
  unfold classifications at h
  split at h
  · split at h
    · rw [mem_singleton.mp h]
      exact ⟨rfl, rfl, by simp⟩
    · cases h
  · cases h

theorem next_retry {classified} (h : call.next p outcome classified = .retry) :
    ∃ error decision, outcome = .error error ∧ classified = some decision ∧ call.retries p error = true ∧
      (p.kind = .command → decision = .rolledBack) := by
  unfold Call.next at h
  split at h
  · cases h
  · cases outcome with
    | ok value => cases h
    | error error =>
      simp only at h
      split at h
      · grind
      · cases h

theorem settle_move : Move p s (s.settle p id outcome answers) := by
  unfold settle
  split
  · rename_i call hcall
    split
    · rename_i hphase
      have hlive := inProgress_running hphase
      have hentries : ∀ entry ∈ call.classifications p id outcome answers.classified,
          entry.id = id ∧ entry.isRun = false ∧ entry ≠ .aborted id := fun _ h => mem_classifications h
      simp only
      split
      · exact .finish id call hcall hlive _ hentries _ _ ends_succeed
      · exact .finish id call hcall hlive _ hentries _ _ ends_caught
      · rename_i hnx
        obtain ⟨error, decision, rfl, hcl, hretries, hde⟩ := next_retry hnx
        have heq : call.classifications p id (.error error) answers.classified = [.classified id error decision] := by
          simp [classifications, hcl, hretries]
        rw [heq]
        exact .wait id call hcall hphase error hretries decision hde
    · exact .stay
  · exact .stay

theorem wake_move : Move p s (s.wake p id answers) := by
  unfold wake
  split
  · rename_i call hcall
    split
    · rename_i hphase
      split
      · exact .finish id call hcall (inProgress_waiting hphase) [] (by simp) _ _ ends_caught
      · rename_i hab
        exact .again id call hcall hphase (by simpa using hab) answers.now
    · exact .stay
  · exact .stay

theorem abort_move {expired} : Move p s (s.abort id expired) := by
  unfold abort
  split
  · rename_i call hcall
    split
    · rename_i hlive
      exact .abort id call hcall hlive _
    · exact .stay
  · exact .stay

theorem step_move {e} : Move p s (step p s e) := by
  cases e with
  | execute parentAborted now =>
    simp only [step, Policy.execute]
    split
    · exact .reject _
    · split
      · exact .reject _
      · rename_i h
        exact .accept now (by simpa using h)
  | settle id outcome answers => exact settle_move
  | wake id answers => exact wake_move
  | abort id => exact abort_move
  | expire id =>
    simp only [step]
    split
    · exact abort_move
    · exact .stay

/-! ## 表を引く -/

theorem get_goto (h : s.calls[id]? = some call) : (s.goto id call').calls[id']? = if id = id' then some call' else s.calls[id']? :=
  getElem?_set_of h

theorem goto_cases {c} (h : s.calls[id]? = some call) (hget : (s.goto id call').calls[id']? = some c) :
    id = id' ∧ c = call' ∨ id ≠ id' ∧ s.calls[id']? = some c := by
  rw [get_goto h] at hget
  split at hget
  · rename_i hid
    exact Or.inl ⟨hid, (Option.some.inj hget).symm⟩
  · rename_i hid
    exact Or.inr ⟨hid, hget⟩

theorem concat_cases {calls c i} (h : (calls ++ [call])[i]? = some c) : calls[i]? = some c ∨ i = calls.length ∧ c = call := by
  rw [getElem?_append] at h
  split at h
  · exact Or.inl h
  · grind

theorem lt_of_get (h : s.calls[id]? = some call) : id < s.calls.length := (List.getElem?_eq_some_iff.mp h).1

/-! ## 遮断器と呼び出し -/

structure Fits (b : Breaker) (call : Call α) : Prop where
  generation : call.currentGeneration ≤ b.generation
  probing : call.inProgress = true → call.halfOpen = true → b.probe = true ∧ b.openUntil ≠ 0 ∧ call.currentGeneration = b.generation
  closed : call.inProgress = true → call.halfOpen = false → call.currentGeneration = b.generation → b.openUntil = 0

structure Guarded (s : Policy α) : Prop where
  fits : ∀ (id : CallId) (call : Call α), s.calls[id]? = some call → Fits s.breaker call
  probe : ∀ (id id' : CallId) (call call' : Call α), s.calls[id]? = some call → s.calls[id']? = some call' → call.inProgress = true → call'.inProgress = true →
    call.halfOpen = true → call'.halfOpen = true → id = id'

theorem guarded_start : Guarded (start : Policy α) where
  fits id call h := by simp [start] at h
  probe id _ call _ h := by simp [start] at h

theorem Fits.congr (h : Fits b call) (hgen : call'.currentGeneration = call.currentGeneration) (hha : call'.halfOpen = call.halfOpen)
    (hlive : call.inProgress = true) : Fits b call' where
  generation := hgen ▸ h.generation
  probing _ hha' := hgen ▸ h.probing hlive (hha ▸ hha')
  closed _ hha' hge' := h.closed hlive (hha ▸ hha') (hgen ▸ hge')

theorem fits_finished {result : Except PolicyError α} (h : call.currentGeneration ≤ b.generation) :
    Fits b { call with phase := .finished result } where
  generation := h
  probing hlive := by simp [inProgress] at hlive
  closed hlive := by simp [inProgress] at hlive

theorem Guarded.goto (h : Guarded s) (call') (hcall : s.calls[id]? = some call) (hlive : call.inProgress = true)
    (hgen : call'.currentGeneration = call.currentGeneration) (hha : call'.halfOpen = call.halfOpen) : Guarded (s.goto id call') := by
  constructor
  · intro id' c hc
    rcases goto_cases hcall hc with ⟨-, rfl⟩ | ⟨-, hc⟩
    · exact (h.fits id call hcall).congr hgen hha hlive
    · exact h.fits id' c hc
  · grind [→ h.probe, → goto_cases]

theorem Guarded.other_probe (h : Guarded s) (hcall : s.calls[id]? = some call) (hca' : s.calls[id']? = some call')
    (hlive : call.inProgress = true) (hli' : call'.inProgress = true) (hgen : call.currentGeneration = s.breaker.generation)
    (hha' : call'.halfOpen = true) : id = id' := by
  cases hha : call.halfOpen with
  | true => exact h.probe _ _ call call' hcall hca' hlive hli' hha hha'
  | false =>
    have hclo := (h.fits id call hcall).closed hlive hha hgen
    exact absurd hclo ((h.fits id' call' hca').probing hli' hha').2.1

theorem Guarded.ends (h : Guarded s) (hcall : s.calls[id]? = some call) (hlive : call.inProgress = true)
    (hend : Ends s.breaker call b) (hca' : s.calls[id']? = some call') (hne : id ≠ id') : Fits (b.release call.halfOpen) call' := by
  have hfi := h.fits id' call' hca'
  cases hend with
  | kept failures =>
    refine ⟨?_, fun hli' hha' => ?_, fun hli' hha' hge' => ?_⟩
    · unfold release
      split <;> exact hfi.generation
    · have hnot : call.halfOpen = false := by
        by_contra hha
        exact hne (h.probe _ _ call call' hcall hca' hlive hli' (by simpa using hha) hha')
      simpa [release, hnot] using hfi.probing hli' hha'
    · unfold release at hge' ⊢
      split at hge'
      · rename_i hha
        rw [if_pos hha]
        exact hfi.closed hli' hha' hge'
      · rename_i hha
        rw [if_neg hha]
        exact hfi.closed hli' hha' hge'
  | turned failures openUntil hgen =>
    have hlt : call'.currentGeneration < s.breaker.generation + 1 := Nat.lt_succ_of_le hfi.generation
    refine ⟨?_, fun hli' hha' => ?_, fun hli' hha' hge' => ?_⟩
    · unfold release
      split <;> exact Nat.le_of_lt hlt
    · exact absurd (h.other_probe hcall hca' hlive hli' hgen hha') hne
    · unfold release at hge'
      split at hge' <;> exact absurd hge' (Nat.ne_of_lt hlt)

theorem Ends.generation_le (h : Ends b call b') : b.generation ≤ b'.generation := by
  cases h with
  | kept => exact Nat.le_refl _
  | turned => exact Nat.le_succ _

theorem generation_release (halfOpen) : (b.release halfOpen).generation = b.generation := by
  unfold release
  split <;> rfl

theorem Guarded.finish (h : Guarded s) (hcall : s.calls[id]? = some call) (hlive : call.inProgress = true) (hend : Ends s.breaker call b)
    (entries result) : Guarded ((s.note entries).finish id call result b) := by
  have hnew : ∀ {i c}, (s.goto id { call with phase := .finished result }).calls[i]? = some c → c.inProgress = true →
      id ≠ i ∧ s.calls[i]? = some c := by
    intro i c hc hli'
    rcases goto_cases hcall hc with ⟨-, rfl⟩ | hold
    · simp [inProgress] at hli'
    · exact hold
  constructor
  · intro i c hc
    rcases goto_cases hcall hc with ⟨-, rfl⟩ | ⟨hne, hc⟩
    · refine fits_finished (((h.fits id call hcall).generation.trans hend.generation_le).trans_eq ?_)
      exact (generation_release _).symm
    · exact h.ends hcall hlive hend hc hne
  · intro i j c c' hc hc' hli₁ hli₂ hha₁ hha₂
    exact h.probe i j c c' (hnew hc hli₁).2 (hnew hc' hli₂).2 hli₁ hli₂ hha₁ hha₂

theorem rejects_false (h : b.rejects now = false) : b.halfOpen = true → b.probe = false ∧ b.openUntil ≤ now := by
  intro hha
  simpa [rejects, hha, and_comm] using h

theorem halfOpen_eq : b.halfOpen = true ↔ b.openUntil ≠ 0 := by simp [Breaker.halfOpen]

theorem Guarded.accept (h : Guarded s) (hac : s.breaker.rejects now = false) : Guarded (s.accept now) := by
  have hold : ∀ {i : CallId} {c}, s.calls[i]? = some c → c.inProgress = true → c.halfOpen = true → s.breaker.halfOpen = false := by
    intro i c hc hlive hha
    obtain ⟨hpr, -, -⟩ := (h.fits i c hc).probing hlive hha
    by_contra hop
    simp [(rejects_false hac (by simpa using hop)).1] at hpr
  constructor
  · intro i c hc
    rcases concat_cases hc with hc | ⟨-, rfl⟩
    · have hfi := h.fits i c hc
      refine ⟨hfi.generation, fun hlive hha => ?_, hfi.closed⟩
      obtain ⟨hpr, hrs⟩ := hfi.probing hlive hha
      exact ⟨by simp [Policy.accept, hpr], hrs⟩
    · refine ⟨Nat.le_refl _, fun _ hha => ?_, fun _ hha _ => ?_⟩
      · have hop : s.breaker.halfOpen = true := hha
        exact ⟨by simp [Policy.accept, hop], halfOpen_eq.mp hop, rfl⟩
      · have hop : s.breaker.halfOpen = false := hha
        simpa [Policy.accept, Breaker.halfOpen] using hop
  · intro i j c c' hc hc' hlive hli' hha hha'
    rcases concat_cases hc with hc | ⟨rfl, rfl⟩
    · rcases concat_cases hc' with hc' | ⟨rfl, rfl⟩
      · exact h.probe i j c c' hc hc' hlive hli' hha hha'
      · have hop : s.breaker.halfOpen = true := hha'
        simp [hold hc hlive hha] at hop
    · rcases concat_cases hc' with hc' | ⟨rfl, rfl⟩
      · have hop : s.breaker.halfOpen = true := hha
        simp [hold hc' hli' hha'] at hop
      · rfl

theorem Guarded.reject (h : Guarded s) (code) : Guarded (s.reject code) := by
  have hold : ∀ {i : CallId} {c}, (s.reject code).calls[i]? = some c → c.inProgress = true → s.calls[i]? = some c := by
    intro i c hc hlive
    rcases concat_cases hc with hc | ⟨-, rfl⟩
    · exact hc
    · simp [inProgress] at hlive
  constructor
  · intro i c hc
    rcases concat_cases hc with hc | ⟨-, rfl⟩
    · exact h.fits i c hc
    · exact ⟨Nat.le_refl _, fun hlive => by simp [inProgress] at hlive, fun hlive => by simp [inProgress] at hlive⟩
  · grind [h.probe]

theorem Guarded.move (h : Guarded s) (hmo : Move p s s') : Guarded s' := by
  cases hmo with
  | stay => exact h
  | reject code => exact h.reject code
  | accept now hac => exact h.accept hac
  | finish id call hcall hlive entries _ result breaker hend => exact h.finish hcall hlive hend entries result
  | wait id call hcall hphase error _ decision _ =>
    have hgo := h.goto { call with phase := .waiting } hcall (inProgress_running hphase) rfl rfl
    exact ⟨hgo.fits, hgo.probe⟩
  | again id call hcall hphase _ now =>
    have hgo := h.goto { call with attempt := call.attempt + 1, phase := .running } hcall (inProgress_waiting hphase) rfl rfl
    exact ⟨hgo.fits, hgo.probe⟩
  | abort id call hcall hlive expired =>
    have hgo := h.goto { call with signal := { aborted := true, expired } } hcall hlive rfl rfl
    exact ⟨hgo.fits, hgo.probe⟩

/-! ## 記録と呼び出し -/

def RunOk (p : ExecutionPolicy) (earlier : List Entry) : Entry → Prop
  | .ran id i => (i.Early → 1 < i.attempt ∧ i.currentGeneration < i.generation) ∧
      (p.kind = .command → 1 < i.attempt → Rerunnable earlier id)
  | _ => True

structure Traced (p : ExecutionPolicy) (log : List Entry) (id : CallId) (call : Call α) : Prop where
  attempts : log.countP (ranBy id) = call.attempt
  bound : call.attempt ≤ maxRuns p
  started : call.inProgress = true → 1 ≤ call.attempt
  unaborted : call.inProgress = true → call.signal.aborted = false → .aborted id ∉ log
  waiting : call.phase = .waiting → call.halfOpen = false ∧ call.attempt < maxRuns p ∧
    (call.signal.aborted = false → p.kind = .command → ∃ error, error ≠ .command .COMMAND_OUTCOME_UNKNOWN ∧
      log.find? (fun entry => entry.id = id) = some (.classified id error .rolledBack))

structure Recorded (p : ExecutionPolicy) (s : Policy α) : Prop where
  traced : ∀ (id : CallId) (call : Call α), s.calls[id]? = some call → Traced p s.log id call
  known : ∀ entry ∈ s.log, entry.id < s.calls.length
  runs : Since (RunOk p) s.log

theorem recorded_start : Recorded p (start : Policy α) where
  traced id call h := by simp [start] at h
  known entry h := by simp [start] at h
  runs later old earlier h := by simp [start] at h

theorem one_le_maxRuns : 1 ≤ maxRuns p := by
  have hbo := p.bounded
  unfold maxRuns
  cases hre : p.retry with
  | none => exact Nat.le_refl 1
  | some retry => grind [ExecutionPolicyOptions.bounded]

theorem retries_iff {error} (h : call.retries p error = true) : call.signal.aborted = false ∧
    ¬(p.kind = .command ∧ error = .command .COMMAND_OUTCOME_UNKNOWN) ∧ call.halfOpen = false ∧ call.attempt < maxRuns p := by
  unfold retries at h
  obtain ⟨hab, hunk, hha, hat⟩ := of_decide_eq_true h
  refine ⟨hab, hunk, hha, ?_⟩
  unfold maxRuns
  cases hre : p.retry with
  | none => simp [hre] at hat
  | some retry => simpa [hre] using hat

theorem Traced.others {log} (h : Traced p log id call) (hentries : ∀ entry ∈ entries, entry.id ≠ id) :
    Traced p (entries ++ log) id call := by
  have hcn : entries.countP (ranBy id) = 0 := by
    rw [countP_eq_zero]
    intro entry hen
    simp [ranBy, hentries entry hen]
  have hfn : entries.find? (fun entry => entry.id = id) = none := by
    rw [find?_eq_none]
    intro entry hen
    simpa using hentries entry hen
  refine ⟨?_, h.bound, h.started, fun hlive hab hmem => ?_, fun hphase => ?_⟩
  · rw [countP_append, hcn, Nat.zero_add]
    exact h.attempts
  · rcases mem_append.mp hmem with hmem | hmem
    · exact hentries _ hmem rfl
    · exact h.unaborted hlive hab hmem
  · grind [h.waiting]

theorem Recorded.write {breaker} (h : Recorded p s) (entries) (hcall : s.calls[id]? = some call)
    (hentries : ∀ entry ∈ entries, entry.id = id) (htr : Traced p (entries ++ s.log) id call')
    (hru : Since (RunOk p) (entries ++ s.log)) : Recorded p { breaker, calls := s.calls.set id call', log := entries ++ s.log } := by
  refine ⟨fun i c hc => ?_, fun entry hen => ?_, hru⟩
  · rcases goto_cases hcall hc with ⟨rfl, rfl⟩ | ⟨hne, hc⟩
    · exact htr
    · exact (h.traced i c hc).others fun entry hen => (hentries entry hen).trans_ne hne
  · grind [→ h.known, → lt_of_get]

theorem Recorded.append {breaker : Breaker} (h : Recorded p s) (entries : List Entry) (hentries : ∀ entry ∈ entries, entry.id = s.calls.length)
    (htr : Traced p (entries ++ s.log) s.calls.length call) (hru : Since (RunOk p) (entries ++ s.log)) :
    Recorded p { breaker, calls := s.calls ++ [call], log := entries ++ s.log } := by
  refine ⟨fun i c hc => ?_, fun entry hen => ?_, hru⟩
  · rcases concat_cases hc with hc | ⟨rfl, rfl⟩
    · have hlt := lt_of_get hc
      exact (h.traced i c hc).others fun entry hen => (hentries entry hen).trans_ne (Nat.ne_of_gt hlt)
    · exact htr
  · grind [→ h.known]

theorem runOk_of_not_isRun {entry} (h : entry.isRun = false) : RunOk p earlier entry := by
  cases entry with
  | ran => simp [Entry.isRun] at h
  | classified | aborted => trivial

theorem countP_of_not_isRun {log} (h : ∀ entry ∈ entries, entry.isRun = false) :
    (entries ++ log).countP (ranBy id) = log.countP (ranBy id) := by
  have hze : entries.countP (ranBy id) = 0 := by
    rw [countP_eq_zero]
    intro entry hen
    simp [ranBy, h entry hen]
  rw [countP_append, hze, Nat.zero_add]

section

variable (h : Recorded p s)

include h

theorem Recorded.unknown : s.log.countP (ranBy s.calls.length) = 0 ∧ .aborted s.calls.length ∉ s.log := by
  constructor
  · grind [→ h.known, ranBy]
  · intro hmem
    exact Nat.lt_irrefl _ (h.known _ hmem)

theorem Recorded.accept (hac : s.breaker.rejects now = false) : Recorded p (s.accept now) := by
  obtain ⟨hcn, hab⟩ := h.unknown
  refine h.append [s.invoke s.calls.length s.admitted now] (by simp [Policy.invoke, Entry.id]) ?_ (h.runs.cons ?_)
  · refine ⟨?_, one_le_maxRuns, fun _ => Nat.le_refl 1, fun _ _ hmem => ?_, fun hphase => by cases hphase⟩
    · rw [singleton_append, countP_cons, hcn]
      simp [ranBy, Policy.invoke, Entry.isRun, Entry.id, Policy.admitted]
    · rcases mem_cons.mp hmem with heq | hmem
      · cases heq
      · exact hab hmem
  · refine ⟨fun hea => ?_, fun _ hat => absurd hat (Nat.lt_irrefl 1)⟩
    have hle := (rejects_false hac (halfOpen_eq.mpr hea.1)).2
    exact absurd hea.2 (Int.not_lt.mpr hle)

theorem Recorded.reject (code) : Recorded p (s.reject code) := by
  obtain ⟨hcn, hab⟩ := h.unknown
  refine h.append [] (by simp) ?_ h.runs
  exact ⟨hcn, Nat.zero_le _, fun hlive => by simp [inProgress] at hlive, fun _ _ => hab, fun hphase => by cases hphase⟩

theorem Recorded.finish (hcall : s.calls[id]? = some call)
    (hentries : ∀ entry ∈ entries, entry.id = id ∧ entry.isRun = false ∧ entry ≠ .aborted id) (result)
    (breaker) : Recorded p ((s.note entries).finish id call result breaker) := by
  have htr := h.traced id call hcall
  refine h.write entries hcall (fun entry hen => (hentries entry hen).1) ?_ ?_
  · refine ⟨?_, htr.bound, fun hlive => by simp [inProgress] at hlive, fun hlive => by simp [inProgress] at hlive,
      fun hphase => by cases hphase⟩
    rw [countP_of_not_isRun fun entry hen => (hentries entry hen).2.1]
    exact htr.attempts
  · exact h.runs.append fun entry hen _ => runOk_of_not_isRun (hentries entry hen).2.1

theorem Recorded.wait (hcall : s.calls[id]? = some call) (hphase : call.phase = .running) {error}
    (hretries : call.retries p error = true) {decision} (hde : p.kind = .command → decision = .rolledBack) :
    Recorded p ((s.note [.classified id error decision]).goto id { call with phase := .waiting }) := by
  have htr := h.traced id call hcall
  have hlive := inProgress_running hphase
  obtain ⟨hab, hunk, hha, hat⟩ := retries_iff hretries
  refine h.write [.classified id error decision] hcall (by simp [Entry.id]) ?_ (h.runs.cons trivial)
  refine ⟨?_, htr.bound, fun _ => htr.started hlive, fun _ _ hmem => ?_, fun _ => ⟨hha, hat, fun _ hki => ?_⟩⟩
  · rw [countP_of_not_isRun (by simp [Entry.isRun])]
    exact htr.attempts
  · rcases mem_cons.mp hmem with heq | hmem
    · cases heq
    · exact htr.unaborted hlive hab hmem
  · refine ⟨error, fun her => hunk ⟨hki, her⟩, ?_⟩
    rw [hde hki]
    simp [Entry.id]

theorem Recorded.abort (hcall : s.calls[id]? = some call) (hlive : call.inProgress = true) (expired) :
    Recorded p ((s.goto id { call with signal := { aborted := true, expired } }).note [.aborted id]) := by
  have htr := h.traced id call hcall
  refine h.write [.aborted id] hcall (by simp [Entry.id]) ?_ (h.runs.cons trivial)
  refine ⟨?_, htr.bound, fun _ => htr.started hlive, fun _ hab => by simp at hab, fun hphase => ?_⟩
  · rw [countP_of_not_isRun (by simp [Entry.isRun])]
    exact htr.attempts
  · grind [htr.waiting]

theorem Recorded.again (hgu : Guarded s) (hcall : s.calls[id]? = some call) (hphase : call.phase = .waiting)
    (hab : call.signal.aborted = false) (now) : Recorded p ((s.goto id { call with attempt := call.attempt + 1, phase := .running }).note
      [s.invoke id { call with attempt := call.attempt + 1, phase := .running } now]) := by
  have htr := h.traced id call hcall
  have hlive := inProgress_waiting hphase
  have hfi := hgu.fits id call hcall
  obtain ⟨hha, hat, hro⟩ := htr.waiting hphase
  refine h.write [s.invoke id { call with attempt := call.attempt + 1, phase := .running } now] hcall
    (by simp [Policy.invoke, Entry.id]) ?_ (h.runs.cons ?_)
  · refine ⟨?_, hat, fun _ => Nat.succ_le_succ (Nat.zero_le _), fun _ _ hmem => ?_, fun hphase => by cases hphase⟩
    · rw [singleton_append, countP_cons, htr.attempts]
      simp [ranBy, Policy.invoke, Entry.isRun, Entry.id]
    · rcases mem_cons.mp hmem with heq | hmem
      · cases heq
      · exact htr.unaborted hlive hab hmem
  · refine ⟨fun hea => ⟨Nat.lt_succ_of_le (htr.started hlive), ?_⟩, fun hki _ => ?_⟩
    · refine Nat.lt_of_le_of_ne hfi.generation fun hgen => ?_
      exact hea.1 (hfi.closed hlive hha hgen)
    · exact ⟨htr.unaborted hlive hab, hro hab hki⟩

theorem Recorded.move (hgu : Guarded s) (hmo : Move p s s') : Recorded p s' := by
  cases hmo with
  | stay => exact h
  | reject code => exact h.reject code
  | accept now hac => exact h.accept hac
  | finish id call hcall _ entries hentries result breaker _ => exact h.finish hcall hentries result _
  | wait id call hcall hphase error hretries decision hde => exact h.wait hcall hphase hretries hde
  | again id call hcall hphase hab now => exact h.again hgu hcall hphase hab now
  | abort id call hcall hlive expired => exact h.abort hcall hlive expired

theorem Recorded.runs_le (id) : s.log.countP (ranBy id) ≤ maxRuns p := by
  cases hcall : s.calls[id]? with
  | some call =>
    have htr := h.traced id call hcall
    rw [htr.attempts]
    exact htr.bound
  | none =>
    have hno : s.log.countP (ranBy id) = 0 := by grind [h.known, ranBy]
    omega

end

/-! ## 走行 -/

theorem invariant_run (p) (events : List (Event α)) : Guarded (run (step p) .start events) ∧ Recorded p (run (step p) .start events) := by
  refine run_invariant (I := fun s => Guarded s ∧ Recorded p s) ?_ ⟨guarded_start, recorded_start⟩
  intro s e h
  exact ⟨h.1.move step_move, h.2.move h.1 step_move⟩

/-! ## 古い世代の呼び出し -/

def StartedIn (s : Policy α) (id : CallId) (generation : ℕ) : Prop :=
  ∃ call, s.calls[id]? = some call ∧ call.currentGeneration = generation

theorem StartedIn.move {generation} (h : StartedIn s id generation) (hmo : Move p s s') : StartedIn s' id generation := by
  obtain ⟨call, hcall, hgen⟩ := h
  have hset : ∀ {i old new}, s.calls[i]? = some old → new.currentGeneration = old.currentGeneration →
      ∃ c, (s.calls.set i new)[id]? = some c ∧ c.currentGeneration = generation := by
    intro i old new hold hnew
    rw [getElem?_set_of hold]
    split
    · rename_i heq
      subst heq
      cases hold.symm.trans hcall
      exact ⟨new, rfl, hnew.trans hgen⟩
    · exact ⟨call, hcall, hgen⟩
  have hco : ∀ new, (s.calls ++ [new])[id]? = some call := fun new => by
    rw [getElem?_append_left (lt_of_get hcall)]
    exact hcall
  cases hmo with
  | stay => exact ⟨call, hcall, hgen⟩
  | reject code | accept now _ => exact ⟨call, hco _, hgen⟩
  | finish i c hc _ _ _ _ _ _ | wait i c hc _ _ _ _ _ | again i c hc _ _ _ | abort i c hc _ _ => exact hset hc rfl

theorem startedIn_execute {parentAborted} : StartedIn (s.execute parentAborted now) s.calls.length s.breaker.generation := by
  unfold Policy.execute
  split
  · exact ⟨_, getElem?_concat_length, rfl⟩
  · split
    · exact ⟨_, getElem?_concat_length, rfl⟩
    · exact ⟨_, getElem?_concat_length, rfl⟩

theorem same_refl : b.Same b := ⟨rfl, rfl, rfl⟩

theorem same_release (halfOpen) : b.Same (b.release halfOpen) := by
  unfold release
  split <;> exact ⟨rfl, rfl, rfl⟩

theorem succeed_stale (h : call.currentGeneration ≠ b.generation) : b.succeed call = b := if_pos h

theorem caught_stale {circuit error} (h : call.currentGeneration ≠ b.generation) : b.caught circuit call error answers = (error, b) := by
  unfold caught
  split
  · rfl
  · exact if_pos h

theorem stale_same {e generation} (hst : StartedIn s id generation) (hgen : generation ≠ s.breaker.generation)
    (he : e.call = some id) : s.breaker.Same (step p s e).breaker := by
  obtain ⟨call, hcall, rfl⟩ := hst
  cases e with
  | execute => cases he
  | settle i outcome answers =>
    cases he
    simp only [step, Policy.settle, hcall]
    split
    · simp only [Policy.throw, Policy.note, succeed_stale hgen, caught_stale hgen]
      split
      · exact same_release _
      · exact same_release _
      · exact same_refl
    · exact same_refl
  | wake i answers =>
    cases he
    simp only [step, Policy.wake, hcall]
    split
    · split
      · simp only [Policy.throw, caught_stale hgen]
        exact same_release _
      · exact same_refl
    · exact same_refl
  | abort i =>
    cases he
    simp only [step, Policy.abort, hcall]
    split <;> exact same_refl
  | expire i =>
    cases he
    simp only [step, Policy.abort, hcall]
    split
    · split <;> exact same_refl
    · exact same_refl

end Supacloud.ExecutionPolicy
