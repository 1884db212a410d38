import Supacloud.Commands.Transactional
import Supacloud.Library.Table

/-!
# 遮断器を共有する呼び出し（commands/src/execution-policy.ts）

`await` から次の `await` までを一歩とする。`run` の結果、取り消し、時間切れと時計は出来事が決め、
時計はどの値にもなる。観測（`emit`）は含めない。
-/

namespace Supacloud.ExecutionPolicy

open Commands Contracts Library

abbrev CallId := ℕ

structure Breaker where
  failures : ℕ
  openUntil : ℤ
  probe : Bool
  generation : ℕ

/-- `running` は `run` の結果を、`waiting` は再試行までの間を待つ。 -/
inductive Phase (α : Type) where
  | running
  | waiting
  | finished (result : Except PolicyError α)

structure Call (α : Type) where
  halfOpen : Bool
  currentGeneration : ℕ
  attempt : ℕ
  signal : Signal
  phase : Phase α

def Call.inProgress {α : Type} (call : Call α) : Bool :=
  match call.phase with
  | .finished _ => false
  | _ => true

structure Invocation where
  attempt : ℕ
  now : ℤ
  openUntil : ℤ
  generation : ℕ
  currentGeneration : ℕ

inductive Entry where
  | ran (id : CallId) (invocation : Invocation)
  | classified (id : CallId) (error : Thrown) (decision : RetryDecision)
  | aborted (id : CallId)

def Entry.id : Entry → CallId
  | .ran id _ => id
  | .classified id _ _ => id
  | .aborted id => id

def Entry.isRun : Entry → Bool
  | .ran _ _ => true
  | _ => false

/-- 呼び出しの番号は始まった順である。記録は新しいものが先である。 -/
structure Policy (α : Type) where
  breaker : Breaker
  calls : List (Call α)
  log : List Entry

def Policy.start {α : Type} : Policy α where
  breaker := { failures := 0, openUntil := 0, probe := false, generation := 0 }
  calls := []
  log := []

/-- 宿主の `classify` と `isFailure` の答えと、そのときの時計。none は例外である。 -/
structure Answers where
  classified : Option RetryDecision
  isFailure : Option Bool
  now : ℤ

/-! ## 遮断器 -/

namespace Breaker

variable (b : Breaker)

def halfOpen : Bool := b.openUntil != 0

def rejects (now : ℤ) : Bool := b.halfOpen && (now < b.openUntil || b.probe)

def succeed {α : Type} (call : Call α) : Breaker :=
  if call.currentGeneration ≠ b.generation then b
  else if call.halfOpen then { b with failures := 0, openUntil := 0, generation := b.generation + 1 }
  else { b with failures := 0 }

def fail (circuit : CircuitOptions) (halfOpen failed : Bool) (now : ℤ) : Breaker :=
  if failed then
    if halfOpen || circuit.failureThreshold ≤ b.failures + 1 then
      { b with failures := b.failures + 1, openUntil := now + circuit.resetAfterMs, generation := b.generation + 1 }
    else { b with failures := b.failures + 1 }
  else if halfOpen then { b with openUntil := 0, failures := 0, generation := b.generation + 1 }
  else b

def caught {α : Type} (circuit : Option CircuitOptions) (call : Call α) (error : PolicyError) (answers : Answers) : PolicyError × Breaker :=
  match circuit with
  | none => (error, b)
  | some c =>
    if call.currentGeneration ≠ b.generation then (error, b)
    else
      match answers.isFailure with
      | none => (.thrown .other, b)
      | some failed => (error, b.fail c call.halfOpen failed answers.now)

def release (halfOpen : Bool) : Breaker := if halfOpen then { b with probe := false } else b

end Breaker

/-! ## 呼び出しの一歩 -/

inductive Next (α : Type) where
  | succeed (value : α)
  | throw (error : PolicyError)
  | retry

section

variable {α : Type} (p : ExecutionPolicy)

def Call.retries (call : Call α) (error : Thrown) : Bool :=
  call.signal.aborted = false ∧ ¬(p.kind = .command ∧ error = .command .COMMAND_OUTCOME_UNKNOWN) ∧ call.halfOpen = false ∧
    p.retry.any fun retry => call.attempt < retry.maxAttempts

def Call.next (call : Call α) (outcome : Except Thrown α) (classified : Option RetryDecision) : Next α :=
  if call.signal.aborted then .throw (p.cancelled call.signal)
  else
    match outcome with
    | .ok value => .succeed value
    | .error error =>
      if call.retries p error then
        match classified with
        | none => .throw (.thrown .other)
        | some decision =>
          if decision ≠ .rolledBack ∧ ¬(p.kind = .read ∧ decision = .retry) then .throw (.thrown error) else .retry
      else .throw (.thrown error)

def Call.classifications (call : Call α) (id : CallId) (outcome : Except Thrown α) (classified : Option RetryDecision) : List Entry :=
  match outcome, classified with
  | .error error, some decision => if call.retries p error then [.classified id error decision] else []
  | _, _ => []

end

namespace Policy

variable {α : Type} (p : ExecutionPolicy) (s : Policy α)

def goto (id : CallId) (call : Call α) : Policy α := { s with calls := s.calls.set id call }

def note (entries : List Entry) : Policy α := { s with log := entries ++ s.log }

def invoke (id : CallId) (call : Call α) (now : ℤ) : Entry :=
  .ran id {
    attempt := call.attempt
    now
    openUntil := s.breaker.openUntil
    generation := s.breaker.generation
    currentGeneration := call.currentGeneration }

def finish (id : CallId) (call : Call α) (result : Except PolicyError α) (breaker : Breaker) : Policy α :=
  { s.goto id { call with phase := .finished result } with breaker := breaker.release call.halfOpen }

def throw (id : CallId) (call : Call α) (error : PolicyError) (answers : Answers) : Policy α :=
  let (error, breaker) := s.breaker.caught p.circuit call error answers
  s.finish id call (.error error) breaker

def reject (code : PolicyErrorCode) : Policy α :=
  { s with calls := s.calls ++ [{
      halfOpen := false
      currentGeneration := s.breaker.generation
      attempt := 0
      signal := {}
      phase := .finished (.error (.policy code)) }] }

def admitted : Call α where
  halfOpen := s.breaker.halfOpen
  currentGeneration := s.breaker.generation
  attempt := 1
  signal := {}
  phase := .running

def accept (now : ℤ) : Policy α where
  breaker := { s.breaker with probe := s.breaker.probe || s.breaker.halfOpen }
  calls := s.calls ++ [s.admitted]
  log := s.invoke s.calls.length s.admitted now :: s.log

def execute (parentAborted : Bool) (now : ℤ) : Policy α :=
  if parentAborted then s.reject .EXECUTION_ABORTED
  else if s.breaker.rejects now then s.reject .CIRCUIT_OPEN
  else s.accept now

def settle (id : CallId) (outcome : Except Thrown α) (answers : Answers) : Policy α :=
  match s.calls[id]? with
  | some call =>
    match call.phase with
    | .running =>
      let noted := s.note (call.classifications p id outcome answers.classified)
      match call.next p outcome answers.classified with
      | .succeed value => noted.finish id call (.ok value) (s.breaker.succeed call)
      | .throw error => noted.throw p id call error answers
      | .retry => noted.goto id { call with phase := .waiting }
    | _ => s
  | none => s

def wake (id : CallId) (answers : Answers) : Policy α :=
  match s.calls[id]? with
  | some call =>
    match call.phase with
    | .waiting =>
      if call.signal.aborted then s.throw p id call (p.cancelled call.signal) answers
      else
        let again : Call α := { call with attempt := call.attempt + 1, phase := .running }
        (s.goto id again).note [s.invoke id again answers.now]
    | _ => s
  | none => s

def abort (id : CallId) (expired : Bool) : Policy α :=
  match s.calls[id]? with
  | some call =>
    if call.inProgress then
      (s.goto id { call with signal := { aborted := true, expired := call.signal.expired || expired } }).note [.aborted id]
    else s
  | none => s

end Policy

/-! ## 全体の動き -/

inductive Event (α : Type) where
  | execute (parentAborted : Bool) (now : ℤ)
  | settle (id : CallId) (outcome : Except Thrown α) (answers : Answers)
  | wake (id : CallId) (answers : Answers)
  | abort (id : CallId)
  | expire (id : CallId)

def Event.call {α : Type} : Event α → Option CallId
  | .execute _ _ => none
  | .settle id _ _ => some id
  | .wake id _ => some id
  | .abort id => some id
  | .expire id => some id

/-- 時間切れの時計は、`timeoutMs` があるときだけ動く。 -/
def step {α : Type} (p : ExecutionPolicy) (s : Policy α) : Event α → Policy α
  | .execute parentAborted now => s.execute parentAborted now
  | .settle id outcome answers => s.settle p id outcome answers
  | .wake id answers => s.wake p id answers
  | .abort id => s.abort id false
  | .expire id => if p.timeoutMs.isSome then s.abort id true else s

/-! ## 遮断器の安全 -/

def maxRuns (p : ExecutionPolicy) : ℕ := p.retry.elim 1 RetryOptions.maxAttempts

def ranBy (id : CallId) (entry : Entry) : Bool := entry.isRun && entry.id == id

def Invocation.Early (i : Invocation) : Prop := i.openUntil ≠ 0 ∧ i.now < i.openUntil

structure Breaker.Same (b b' : Breaker) : Prop where
  failures : b'.failures = b.failures
  openUntil : b'.openUntil = b.openUntil
  generation : b'.generation = b.generation

structure Rerunnable (earlier : List Entry) (id : CallId) : Prop where
  unaborted : .aborted id ∉ earlier
  rolledBack : ∃ error, error ≠ .command .COMMAND_OUTCOME_UNKNOWN ∧
    earlier.find? (fun entry => entry.id = id) = some (.classified id error .rolledBack)

/-- 期限の前に `run` を呼ぶのは、始まった後に世代が変わった呼び出しの再試行だけで、探りは高々一つである。二度目からの `run`
は、取り消しのないまま `rolled-back` と判定された後だけで、回数は上限を超えない。 -/
structure CallsSafe {α : Type} (p : ExecutionPolicy) (s : Policy α) : Prop where
  early : ∀ id i, .ran id i ∈ s.log → i.Early → 1 < i.attempt ∧ i.currentGeneration < i.generation
  probe : ∀ (id id' : CallId) (call call' : Call α), s.calls[id]? = some call → s.calls[id']? = some call' → call.inProgress = true →
    call'.inProgress = true → call.halfOpen = true → call'.halfOpen = true → id = id'
  retried : p.kind = .command → ∀ later id i earlier, s.log = later ++ .ran id i :: earlier → 1 < i.attempt → Rerunnable earlier id
  bounded : ∀ id, s.log.countP (ranBy id) ≤ maxRuns p

/-- 始まった後に世代が変わった呼び出しの出来事は、数も期限も世代も変えない。 -/
def StaleIgnored {α : Type} (p : ExecutionPolicy) (events : List (Event α)) : Prop :=
  ∀ before parentAborted now between e after, events = before ++ .execute parentAborted now :: (between ++ e :: after) →
    e.call = some (run (step p) .start before).calls.length →
    (run (step p) .start before).breaker.generation ≠
      (run (step p) .start (before ++ .execute parentAborted now :: between)).breaker.generation →
    (run (step p) .start (before ++ .execute parentAborted now :: between)).breaker.Same
      (run (step p) .start (before ++ .execute parentAborted now :: (between ++ [e]))).breaker

def NeverEarly {α : Type} (s : Policy α) : Prop := ∀ id i, .ran id i ∈ s.log → i.openUntil ≤ i.now

end Supacloud.ExecutionPolicy
