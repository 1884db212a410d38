import Supacloud.Workflows.Rows
import Mathlib.Data.List.Chain
import Supacloud.Library.Runs

/-!
# ワークフローの手続き（management-api/src/db/sql-modules/workflows-public.sql）

手続きは一つの取引で、run ごとの advisory lock で直列になる。時刻、払い出す uuid、`pgmq.read`
の読む伝言、`pg_try_advisory_xact_lock` の結果は、手続きの外で決まる。
-/

namespace Supacloud.Workflows

open Library

/-! ## 要求 -/

structure StartRequest where
  runId : Uuid
  workflowName : Text
  workflowVersion : Text
  firstStepKey : Text
  input : Jsonb
  maxAttempts : Nat
  deriving DecidableEq

structure ClaimRequest where
  workerId : Text
  visibilityTimeoutSeconds : Nat
  deriving DecidableEq

structure StepAttempt where
  stepId : Uuid
  messageId : Nat
  attempt : Nat
  workerId : Text
  deriving DecidableEq

structure AdvanceRequest extends StepAttempt where
  output : Jsonb
  nextStepKey : Text
  nextInput : Jsonb
  nextMaxAttempts : Nat
  deriving DecidableEq

structure CompleteRequest extends StepAttempt where
  stepOutput : Jsonb
  runOutput : Jsonb
  deriving DecidableEq

structure RetryRequest extends StepAttempt where
  errorMessage : Text
  delaySeconds : Nat
  deriving DecidableEq

structure FailRequest extends StepAttempt where
  errorMessage : Text
  deriving DecidableEq

structure CancelRequest where
  runId : Uuid
  reason : Text
  deriving DecidableEq

inductive Request where
  | start (r : StartRequest)
  | claim (r : ClaimRequest)
  | advance (r : AdvanceRequest)
  | complete (r : CompleteRequest)
  | retry (r : RetryRequest)
  | fail (r : FailRequest)
  | cancel (r : CancelRequest)
  deriving DecidableEq

/-- 取引の外で決まるもの。`visible` は読める伝言、`free` は run の鍵が空いていることである。 -/
structure Moment where
  now : Timestamp
  stepId : RandomUuid
  visible : Option Nat
  free : Bool

structure Snapshot where
  run : Run
  steps : List Step
  idempotent : Bool

inductive DiscardReason where
  | invalidMessage | orphanedMessage | stepNotClaimable

inductive Reply where
  | state (snapshot : Option Snapshot) (receipt : Option RetryReceipt)
  | empty
  | discarded (reason : DiscardReason) (messageId : Nat)
  | deadLettered (step : Step) (messageId attempt : Nat)
  | claimed (run : Option Run) (step : Step) (messageId attempt : Nat) (workerId : Text)

variable (s : Store)

def Store.snapshot (runId : Uuid) (idempotent : Bool) : Option Snapshot :=
  (s.run runId).map fun run => { run, steps := s.stepsOf runId, idempotent }

variable (t : Step)

/-! ## step の追加 -/

def Store.insertStep : Except Failure Store := do
  require (∀ x ∈ s.steps, x.id ≠ t.id ∧ ¬ (x.runId = t.runId ∧ x.stepKey = t.stepKey) ∧ x.queueMessageId ≠ t.queueMessageId) .uniqueViolation
  require (t.status.active → ∀ x ∈ s.steps, x.runId = t.runId → ¬ x.status.active) .uniqueViolation
  return { s with steps := s.steps ++ [t] }

variable (now : Timestamp)

def newStep (id runId : Uuid) (stepKey : Text) (input : Jsonb) (maxAttempts messageId : Nat) : Step where
  id
  runId
  stepKey
  status := .queued
  input
  output := .object []
  errorMessage := []
  attempts := 0
  maxAttempts
  retryDelaySeconds := 0
  queueMessageId := messageId
  claimedBy := none
  claimedAt := none
  completedAt := none
  nextStepKey := none
  createdAt := now
  updatedAt := now

def enqueueStep (moment : Moment) (runId : Uuid) (stepKey : Text) (input : Jsonb) (maxAttempts : Nat) : Except Failure (Step × Store) := do
  let key ← fetch (normalize stepKey) .stepInvalid
  require (isName key ∧ isObject input ∧ 1 ≤ maxAttempts ∧ maxAttempts ≤ 100) .stepInvalid
  require ((s.run runId).any fun run => run.status.active) .runNotActive
  let (messageId, s) := s.send runId moment.stepId
  let created := newStep moment.now moment.stepId runId key input maxAttempts messageId
  let s ← s.insertStep created
  return (created, s)

def newRun (id : Uuid) (workflowName workflowVersion : Text) (input : Jsonb) : Run where
  id
  workflowName
  workflowVersion
  status := .queued
  input
  output := .object []
  errorMessage := []
  rowVersion := 1
  createdAt := now
  startedAt := none
  completedAt := none
  updatedAt := now

def startRun (moment : Moment) (r : StartRequest) : Except Failure (Reply × Store) := do
  let name ← fetch (normalize r.workflowName) .startInvalid
  let version ← fetch (normalize r.workflowVersion) .startInvalid
  let key ← fetch (normalize r.firstStepKey) .startInvalid
  require (isName name ∧ version.length ≤ 80 ∧ isName key ∧ isObject r.input ∧ 1 ≤ r.maxAttempts ∧ r.maxAttempts ≤ 100) .startInvalid
  match s.run r.runId with
  | some run =>
    let first ← fetch (s.stepsOf r.runId).head? .idempotencyConflict
    require (run.workflowName = name ∧ run.workflowVersion = version ∧ run.input = r.input ∧ first.stepKey = key ∧ first.input = r.input ∧
      first.maxAttempts = r.maxAttempts) .idempotencyConflict
    return (.state (s.snapshot r.runId true) none, s)
  | none =>
    let s := { s with runs := s.runs ++ [newRun moment.now r.runId name version r.input] }
    let (first, s) ← enqueueStep s moment r.runId key r.input r.maxAttempts
    let s := s.insertEvent ⟨r.runId, some first.id, .runStarted, none, .empty, moment.now⟩
    return (.state (s.snapshot r.runId false) none, s)

/-! ## 行の書き換え -/

namespace Run

def fail (run : Run) (now : Timestamp) (error : Text) : Run :=
  { run with
    status := .failed, errorMessage := error, completedAt := some now, updatedAt := now, rowVersion := run.rowVersion + 1 }

def complete (run : Run) (now : Timestamp) (output : Jsonb) : Run :=
  { run with
    status := .completed, output, errorMessage := [], completedAt := some now, updatedAt := now, rowVersion := run.rowVersion + 1 }

def cancel (run : Run) (now : Timestamp) (reason : Text) : Run :=
  { run with
    status := .cancelled, errorMessage := reason, completedAt := some now, updatedAt := now, rowVersion := run.rowVersion + 1 }

def grant (run : Run) (now : Timestamp) : Run :=
  { run with
    status := .running, startedAt := some (run.startedAt.getD now), updatedAt := now, rowVersion := run.rowVersion + 1 }

end Run

namespace Step

def grant (attempt : Nat) (workerId : Text) : Step :=
  { t with
    status := .running, attempts := attempt, retryDelaySeconds := 0, claimedBy := some workerId, claimedAt := some now, updatedAt := now }

def exhaust (attempt : Nat) (error : Text) : Step :=
  { t with
    status := .deadLettered, attempts := attempt, errorMessage := error, completedAt := some now, updatedAt := now }

def complete (output : Jsonb) (next : Option Text) : Step :=
  { t with
    status := .completed, output, errorMessage := [], completedAt := some now, nextStepKey := next, updatedAt := now }

def close (status : StepStatus) (error : Text) : Step :=
  { t with
    status, errorMessage := error, completedAt := some now, updatedAt := now }

def requeue (error : Text) (delaySeconds : Nat) : Step :=
  { t with
    status := .queued, errorMessage := error, retryDelaySeconds := delaySeconds, updatedAt := now }

end Step

def exhaustedMessage : Text := "maximum attempts exceeded".toList

/-- 読んだ回数が上限を超えた step を終える。 -/
def exhaustStep (step : Step) (m : Message) : Store :=
  let s := s.updateStep step.id fun t => t.exhaust now m.readCount exhaustedMessage
  let s := s.updateRun (fun run => run.id = step.runId) fun run => run.fail now exhaustedMessage
  (s.archive m.id).insertEvent ⟨step.runId, some step.id, .stepDeadLettered, some m.readCount, .error exhaustedMessage, now⟩

def grantStep (step : Step) (m : Message) (workerId : Text) : Store :=
  let s := s.updateStep step.id fun t => t.grant now m.readCount workerId
  let s := s.updateRun (fun run => run.id = step.runId) fun run => run.grant now
  s.insertEvent ⟨step.runId, some step.id, .stepClaimed, some m.readCount, .claimed workerId, now⟩

def Store.stepFor (m : Message) : Option Step :=
  s.steps.find? fun t => t.id = m.stepId ∧ t.runId = m.runId ∧ t.queueMessageId = m.id

def claimStep (moment : Moment) (r : ClaimRequest) : Except Failure (Reply × Store) := do
  let workerId ← fetch (normalize r.workerId) .claimInvalid
  require (workerId.length ≤ 200 ∧ 15 ≤ r.visibilityTimeoutSeconds ∧ r.visibilityTimeoutSeconds ≤ 3600) .claimInvalid
  match s.read moment.visible with
  | none => return (.empty, s)
  | some (m, s) =>
    if ¬ (isUuid m.runId ∧ isUuid m.stepId) then return (.discarded .invalidMessage m.id, s.archive m.id)
    else match s.stepFor m with
    | none => return (.discarded .orphanedMessage m.id, s.archive m.id)
    | some step =>
      require moment.free .claimRetry
      let run := s.run step.runId
      if run.any (fun run => ¬ run.status.active) ∨ ¬ step.status.active then
        return (.discarded .stepNotClaimable m.id, s.archive m.id)
      else if m.readCount > step.maxAttempts then
        return (.deadLettered step m.id m.readCount, exhaustStep s moment.now step m)
      else
        return (.claimed run step m.id m.readCount workerId, grantStep s moment.now step m workerId)

/-! ## step の結果 -/

def lockStep (stepId : Uuid) : Except Failure Step := fetch (s.step stepId) .stepNotFound

def lockStepAttempt (a : StepAttempt) : Except Failure Step := do
  let active ← lockStep s a.stepId
  let workerId ← fetch (normalize a.workerId) .staleAttempt
  require (active.queueMessageId = a.messageId ∧ active.attempts = a.attempt ∧ active.claimedBy = some workerId) .staleAttempt
  return active

def archiveMessage (messageId : Nat) : Except Failure Store := do
  require (s.message messageId).isSome .queueMessageMissing
  return s.archive messageId

def Store.stepByKey (runId : Uuid) (stepKey : Text) : Option Step :=
  s.steps.find? fun t => t.runId = runId ∧ t.stepKey = stepKey

def advanceStep (moment : Moment) (r : AdvanceRequest) : Except Failure (Reply × Store) := do
  let nextKey ← fetch (normalize r.nextStepKey) .advanceInvalid
  require (isObject r.output ∧ isObject r.nextInput ∧ isName nextKey ∧ 1 ≤ r.nextMaxAttempts ∧ r.nextMaxAttempts ≤ 100) .advanceInvalid
  let current ← lockStepAttempt s r.toStepAttempt
  if current.status = .completed then
    let next ← fetch (s.stepByKey current.runId nextKey) .idempotencyConflict
    require (current.output = r.output ∧ current.nextStepKey = some nextKey ∧ next.input = r.nextInput ∧ next.maxAttempts = r.nextMaxAttempts)
      .idempotencyConflict
    return (.state (s.snapshot current.runId true) none, s)
  else
    require (current.status = .running) .staleAttempt
    let s ← archiveMessage s r.messageId
    let s := s.updateStep current.id fun t => t.complete moment.now r.output (some nextKey)
    let s := s.insertEvent ⟨current.runId, some current.id, .stepCompleted, some r.attempt, .next nextKey, moment.now⟩
    let (_, s) ← enqueueStep s moment current.runId nextKey r.nextInput r.nextMaxAttempts
    return (.state (s.snapshot current.runId false) none, s)

def completeRun (moment : Moment) (r : CompleteRequest) : Except Failure (Reply × Store) := do
  require (isObject r.stepOutput ∧ isObject r.runOutput) .completionInvalid
  let current ← lockStepAttempt s r.toStepAttempt
  let run := s.run current.runId
  if current.status = .completed then
    require (current.nextStepKey = none ∧ current.output = r.stepOutput ∧
      run.any fun run => run.status = .completed ∧ run.output = r.runOutput) .idempotencyConflict
    return (.state (s.snapshot current.runId true) none, s)
  else
    require (current.status = .running) .staleAttempt
    require (run.all fun run => run.status = .running) .runNotActive
    let s ← archiveMessage s r.messageId
    let s := s.updateStep current.id fun t => t.complete moment.now r.stepOutput t.nextStepKey
    let s := s.updateRun (fun run => run.id = current.runId ∧ run.status = .running) fun run => run.complete moment.now r.runOutput
    let s := s.insertEvent ⟨current.runId, some current.id, .stepCompleted, some r.attempt, .empty, moment.now⟩
    let s := s.insertEvent ⟨current.runId, some current.id, .runCompleted, some r.attempt, .empty, moment.now⟩
    return (.state (s.snapshot current.runId false) none, s)

def EventRow.receipt (stepId : Uuid) (attempt : Nat) (e : EventRow) : Option RetryReceipt :=
  if e.stepId = some stepId ∧ e.attempt = some attempt ∧ (e.eventType = .stepRetried ∨ e.eventType = .stepDeadLettered) then
    match e.details with
    | .retry receipt => some receipt
    | _ => none
  else none

/-- 試みを戻した最後の記録。一意の索引により、step と試みごとに高々一つである。 -/
def Store.retryReceipt (stepId : Uuid) (attempt : Nat) : Option RetryReceipt :=
  s.events.reverse.findSome? (EventRow.receipt stepId attempt)

def buryStep (current : Step) (receipt : RetryReceipt) : Except Failure Store := do
  let s ← archiveMessage s receipt.messageId
  let s := s.updateStep current.id fun t => t.close now .deadLettered receipt.errorMessage
  require (s.runs.any fun run => run.id = current.runId ∧ run.status = .running) .runNotActive
  let s := s.updateRun (fun run => run.id = current.runId ∧ run.status = .running) fun run => run.fail now receipt.errorMessage
  return s.insertEvent ⟨current.runId, some current.id, .stepDeadLettered, some receipt.attempt, .retry receipt, now⟩

def requeueStep (current : Step) (receipt : RetryReceipt) : Except Failure Store := do
  require (s.message receipt.messageId).isSome .queueMessageMissing
  let s := s.updateStep current.id fun t => t.requeue now receipt.errorMessage receipt.delaySeconds
  return s.insertEvent ⟨current.runId, some current.id, .stepRetried, some receipt.attempt, .retry receipt, now⟩

def releaseStep (current : Step) (receipt : RetryReceipt) : Except Failure Store :=
  if current.attempts ≥ current.maxAttempts then buryStep s now current receipt else requeueStep s now current receipt

def retryStep (moment : Moment) (r : RetryRequest) : Except Failure (Reply × Store) := do
  let error ← fetch (normalize r.errorMessage) .retryInvalid
  require (error.length ≤ 4000 ∧ r.delaySeconds ≤ 86400) .retryInvalid
  let current ← lockStep s r.stepId
  match s.retryReceipt current.id r.attempt with
  | some receipt =>
    require (receipt.messageId = r.messageId ∧ some receipt.workerId = normalize r.workerId ∧ receipt.errorMessage = error ∧
      receipt.delaySeconds = r.delaySeconds) .idempotencyConflict
    return (.state (s.snapshot current.runId true) (some { receipt with stepId := current.id, attempt := r.attempt }), s)
  | none =>
    let workerId ← fetch (normalize r.workerId) .staleAttempt
    require (current.queueMessageId = r.messageId ∧ current.attempts = r.attempt ∧ current.claimedBy = some workerId ∧
      current.status = .running) .staleAttempt
    let receipt : RetryReceipt := ⟨current.id, r.messageId, r.attempt, workerId, error, r.delaySeconds⟩
    let s ← releaseStep s moment.now current receipt
    return (.state (s.snapshot current.runId false) (some receipt), s)

def failStep (moment : Moment) (r : FailRequest) : Except Failure (Reply × Store) := do
  let error ← fetch (normalize r.errorMessage) .failureInvalid
  require (error.length ≤ 4000) .failureInvalid
  let current ← lockStepAttempt s r.toStepAttempt
  let run := s.run current.runId
  if current.status = .failed then
    require (current.errorMessage = error ∧ run.any fun run => run.status = .failed ∧ run.errorMessage = error) .idempotencyConflict
    return (.state (s.snapshot current.runId true) none, s)
  else
    require (current.status = .running) .staleAttempt
    require (run.all fun run => run.status = .running) .runNotActive
    let s ← archiveMessage s r.messageId
    let s := s.updateStep current.id fun t => t.close moment.now .failed error
    let s := s.updateRun (fun run => run.id = current.runId ∧ run.status = .running) fun run => run.fail moment.now error
    let s := s.insertEvent ⟨current.runId, some current.id, .stepFailed, some r.attempt, .error error, moment.now⟩
    return (.state (s.snapshot current.runId false) none, s)

/-! ## run の取り消し -/

def cancelActiveStep (reason : Text) : Option Step → Store
  | none => s
  | some active => (s.archive active.queueMessageId).updateStep active.id fun t => t.close now .cancelled reason

def cancelRun (moment : Moment) (r : CancelRequest) : Except Failure (Reply × Store) := do
  let reason ← fetch (normalize r.reason) .cancelInvalid
  require (reason.length ≤ 4000) .cancelInvalid
  let run ← fetch (s.run r.runId) .runNotFound
  if run.status = .cancelled then
    require (run.errorMessage = reason) .idempotencyConflict
    return (.state (s.snapshot r.runId true) none, s)
  else
    require run.status.active .runNotActive
    let active := s.steps.find? fun t => t.runId = r.runId ∧ t.status.active
    let s := cancelActiveStep s moment.now reason active
    let s := s.updateRun (fun run => run.id = r.runId) fun run => run.cancel moment.now reason
    let s := s.insertEvent ⟨r.runId, active.map Step.id, .runCancelled, none, .cancelled reason, moment.now⟩
    return (.state (s.snapshot r.runId false) none, s)

/-- `public.supacloud_workflow_*`。uuid を検査し、番号は正でなければならない。引数の誤りの例外は、手続きごとの符号に替わる。 -/
def StepAttempt.accepted (a : StepAttempt) : Prop := isUuid a.stepId ∧ 0 < a.messageId ∧ 0 < a.attempt

instance (a : StepAttempt) : Decidable a.accepted := inferInstanceAs (Decidable (_ ∧ _))

def Failure.relabel (invalid : Failure) : Failure → Failure
  | .requestInvalid | .startInvalid | .stepInvalid | .claimInvalid | .advanceInvalid | .completionInvalid | .retryInvalid
  | .failureInvalid | .cancelInvalid => invalid
  | e => e

def guarded (accepted : Prop) [Decidable accepted] (invalid : Failure) (body : Except Failure (Reply × Store)) :
    Except Failure (Reply × Store) :=
  (require accepted .requestInvalid >>= fun _ => body).mapError (Failure.relabel invalid)

def execute (moment : Moment) : Request → Except Failure (Reply × Store)
  | .start r => guarded (isUuid r.runId) .startInvalid (startRun s moment r)
  | .claim r => guarded True .claimInvalid (claimStep s moment r)
  | .advance r => guarded r.toStepAttempt.accepted .advanceInvalid (advanceStep s moment r)
  | .complete r => guarded r.toStepAttempt.accepted .completionInvalid (completeRun s moment r)
  | .retry r => guarded r.toStepAttempt.accepted .retryInvalid (retryStep s moment r)
  | .fail r => guarded r.toStepAttempt.accepted .failureInvalid (failStep s moment r)
  | .cancel r => guarded (isUuid r.runId) .cancelInvalid (cancelRun s moment r)

/-!
## 一つの run の動き

手続きは、一つの run だけをこの変化で動かす。
-/

/-- 一つの run の行、step、保存されていない伝言、event。step は追加した順に並ぶ。 -/
structure View where
  rows : List Run
  chain : List Step
  mail : List Message
  events : List EventRow

def View.absent : View := ⟨[], [], [], []⟩

def Store.view (r : Uuid) : View where
  rows := s.runs.filter fun run => run.id = r
  chain := s.steps.filter fun t => t.runId = r
  mail := s.queue.filter fun m => m.runId = r
  events := s.events.filter fun e => e.runId = r

structure Held (run : Run) (t : Step) (m : Message) : Prop where
  active : run.status.active = true
  pending : t.status.active = true
  owner : t.runId = run.id
  stepId : m.stepId = t.id
  id : m.id = t.queueMessageId

structure Holds (a : StepAttempt) (workerId : Text) (t : Step) : Prop where
  stepId : t.id = a.stepId
  messageId : t.queueMessageId = a.messageId
  attempt : t.attempts = a.attempt
  worker : normalize a.workerId = some workerId
  claimed : t.claimedBy = some workerId
  running : t.status = .running

inductive Move (now : Timestamp) : Request → View → View → Prop
  | start {r name version key run t m}
      (hname : normalize r.workflowName = some name) (hversion : normalize r.workflowVersion = some version)
      (hkey : normalize r.firstStepKey = some key) (hmax : 1 ≤ r.maxAttempts)
      (hrun : run = newRun now r.runId name version r.input) (hid : isUuid t.id = true ∧ isUuid r.runId = true)
      (ht : t = newStep now t.id r.runId key r.input r.maxAttempts m.id) (hm : m = ⟨m.id, r.runId, t.id, 0⟩) :
      Move now (.start r) .absent ⟨[run], [t], [m], [⟨run.id, some t.id, .runStarted, none, .empty, now⟩]⟩
  | grant {r run past t m events workerId}
      (hheld : Held run t m) (hworker : normalize r.workerId = some workerId) (hbound : m.readCount + 1 ≤ t.maxAttempts) :
      Move now (.claim r) ⟨[run], past ++ [t], [m], events⟩
        ⟨[run.grant now], past ++ [t.grant now (m.readCount + 1) workerId], [m.reread],
          events ++ [⟨run.id, some t.id, .stepClaimed, some (m.readCount + 1), .claimed workerId, now⟩]⟩
  | exhaust {r run past t m events}
      (hheld : Held run t m) (hbound : t.maxAttempts < m.readCount + 1) :
      Move now (.claim r) ⟨[run], past ++ [t], [m], events⟩
        ⟨[run.fail now exhaustedMessage], past ++ [t.exhaust now (m.readCount + 1) exhaustedMessage], [],
          events ++ [⟨run.id, some t.id, .stepDeadLettered, some (m.readCount + 1), .error exhaustedMessage, now⟩]⟩
  | advance {r run past t t' m m' events workerId key}
      (hheld : Held run t m) (hholds : Holds r.toStepAttempt workerId t) (hkey : normalize r.nextStepKey = some key)
      (hmax : 1 ≤ r.nextMaxAttempts) (hid : isUuid t'.id = true) (ht' : t' = newStep now t'.id run.id key r.nextInput r.nextMaxAttempts m'.id)
      (hm' : m' = ⟨m'.id, run.id, t'.id, 0⟩) (hfresh : ∀ x ∈ past ++ [t], x.stepKey ≠ key) :
      Move now (.advance r) ⟨[run], past ++ [t], [m], events⟩
        ⟨[run], past ++ [t.complete now r.output (some key), t'], [m'],
          events ++ [⟨run.id, some t.id, .stepCompleted, some r.attempt, .next key, now⟩]⟩
  | complete {r run past t m events workerId}
      (hheld : Held run t m) (hholds : Holds r.toStepAttempt workerId t) :
      Move now (.complete r) ⟨[run], past ++ [t], [m], events⟩
        ⟨[run.complete now r.runOutput], past ++ [t.complete now r.stepOutput t.nextStepKey], [],
          events ++ [⟨run.id, some t.id, .stepCompleted, some r.attempt, .empty, now⟩,
            ⟨run.id, some t.id, .runCompleted, some r.attempt, .empty, now⟩]⟩
  | requeue {r run past t m events workerId error}
      (hheld : Held run t m) (hholds : Holds r.toStepAttempt workerId t) (herror : normalize r.errorMessage = some error)
      (hbound : t.attempts < t.maxAttempts) :
      Move now (.retry r) ⟨[run], past ++ [t], [m], events⟩
        ⟨[run], past ++ [t.requeue now error r.delaySeconds], [m], events ++ [⟨run.id, some t.id, .stepRetried, some r.attempt,
            .retry ⟨t.id, r.messageId, r.attempt, workerId, error, r.delaySeconds⟩, now⟩]⟩
  | bury {r run past t m events workerId error}
      (hheld : Held run t m) (hholds : Holds r.toStepAttempt workerId t) (herror : normalize r.errorMessage = some error) :
      Move now (.retry r) ⟨[run], past ++ [t], [m], events⟩
        ⟨[run.fail now error], past ++ [t.close now .deadLettered error], [],
          events ++ [⟨run.id, some t.id, .stepDeadLettered, some r.attempt,
            .retry ⟨t.id, r.messageId, r.attempt, workerId, error, r.delaySeconds⟩, now⟩]⟩
  | fail {r run past t m events workerId error}
      (hheld : Held run t m) (hholds : Holds r.toStepAttempt workerId t) (herror : normalize r.errorMessage = some error) :
      Move now (.fail r) ⟨[run], past ++ [t], [m], events⟩
        ⟨[run.fail now error], past ++ [t.close now .failed error], [],
          events ++ [⟨run.id, some t.id, .stepFailed, some r.attempt, .error error, now⟩]⟩
  | cancel {r run past t m events reason}
      (hheld : Held run t m) (hrun : run.id = r.runId) (hreason : normalize r.reason = some reason) :
      Move now (.cancel r) ⟨[run], past ++ [t], [m], events⟩
        ⟨[run.cancel now reason], past ++ [t.close now .cancelled reason], [],
          events ++ [⟨run.id, some t.id, .runCancelled, none, .cancelled reason, now⟩]⟩

/-!
## 取引の履歴

取引は一つずつ確定する。`now()` は取引の始まりの時刻なので、確定した順に進むとは限らない。例外で終わる取引は、表も伝言も変えない。
-/

structure Occasion extends Moment where
  request : Request

def commit (o : Occasion) : Store :=
  match execute s o.toMoment o.request with
  | .ok (_, s) => s
  | .error _ => s

def reached (os : List Occasion) : Store := run commit .empty os

def Linked (a b : Step) : Prop := a.status = .completed ∧ a.nextStepKey = some b.stepKey

structure OneChain (steps : List Step) : Prop where
  nonempty : steps ≠ []
  linked : steps.IsChain Linked
  last : ∀ t ∈ steps.getLast?, t.nextStepKey = none
  keys : (steps.map Step.stepKey).Nodup

def Store.activeSteps (r : Uuid) : List Step := (s.view r).chain.filter fun t => t.status.active

/-- 動いている run には、動いている step がちょうど一つあり、その伝言だけが残っている。終わった run に伝言はない。 -/
structure RunSound (s : Store) (run : Run) : Prop where
  active_iff : run.status.active = true ↔ ∃ t, s.activeSteps run.id = [t]
  message : run.status.active = true → ∃ t m, s.activeSteps run.id = [t] ∧ (s.view run.id).mail = [m] ∧ m.id = t.queueMessageId ∧
    m.stepId = t.id
  closed : run.status.active = false → (s.view run.id).mail = []
  chain : OneChain (s.view run.id).chain

def EventRow.claim (id : Uuid) (e : EventRow) : Option (Nat × Text) :=
  if e.stepId = some id then
    match e.eventType, e.attempt, e.details with
    | .stepClaimed, some attempt, .claimed workerId => some (attempt, workerId)
    | _, _, _ => none
  else none

/-- 試みの結果の記録。働き手のない `step_dead_lettered` は、試みの結果ではない。 -/
def EventRow.outcome (id : Uuid) (e : EventRow) : Option Nat :=
  if e.stepId = some id then
    match e.eventType, e.details with
    | .stepCompleted, _ | .stepFailed, _ | .stepRetried, _ | .stepDeadLettered, .retry _ => e.attempt
    | _, _ => none
  else none

def claimsOf (id : Uuid) (events : List EventRow) : List (Nat × Text) := events.filterMap (EventRow.claim id)

def outcomesOf (id : Uuid) (events : List EventRow) : List Nat := events.filterMap (EventRow.outcome id)

/-! ## 要求の送り直し -/

/-- 要求の相手。`claim_step` は送るたびに新しい試みを求めるので、相手を持たない。 -/
inductive Target where
  | start (runId : Uuid)
  | advance (stepId : Uuid)
  | complete (stepId : Uuid)
  | retry (stepId : Uuid) (attempt : Nat)
  | fail (stepId : Uuid)
  | cancel (runId : Uuid)

def Request.target : Request → Option Target
  | .start r => some (.start r.runId)
  | .claim _ => none
  | .advance r => some (.advance r.stepId)
  | .complete r => some (.complete r.stepId)
  | .retry r => some (.retry r.stepId r.attempt)
  | .fail r => some (.fail r.stepId)
  | .cancel r => some (.cancel r.runId)

def Request.trimmed : Request → Request
  | .start r => .start { r with
      workflowName := btrim r.workflowName, workflowVersion := btrim r.workflowVersion, firstStepKey := btrim r.firstStepKey }
  | .claim r => .claim { r with workerId := btrim r.workerId }
  | .advance r => .advance { r with workerId := btrim r.workerId, nextStepKey := btrim r.nextStepKey }
  | .complete r => .complete { r with workerId := btrim r.workerId }
  | .retry r => .retry { r with workerId := btrim r.workerId, errorMessage := btrim r.errorMessage }
  | .fail r => .fail { r with workerId := btrim r.workerId, errorMessage := btrim r.errorMessage }
  | .cancel r => .cancel { r with reason := btrim r.reason }

/-- 何も変えずに、記録された状態を `idempotent = true` で返す。 -/
def Replays (moment : Moment) (q : Request) : Prop :=
  ∃ runId snapshot receipt, s.snapshot runId true = some snapshot ∧ execute s moment q = .ok (.state (some snapshot) receipt, s)

/-- run の step を加える取引は、run を始めた取引より後の時刻を持つ。 -/
def Timely (runId : Uuid) (o : Occasion) : Prop :=
  match o.request with
  | .advance r => ∀ t ∈ s.steps, t.id = r.stepId → t.runId = runId → ∀ run ∈ s.runs, run.id = runId → run.createdAt < o.now
  | _ => True

def Refuses (moment : Moment) (q : Request) : Prop := ∃ e, execute s moment q = .error e

def Request.attempt : Request → Option StepAttempt
  | .advance r => some r.toStepAttempt
  | .complete r => some r.toStepAttempt
  | .retry r => some r.toStepAttempt
  | .fail r => some r.toStepAttempt
  | .start _ | .claim _ | .cancel _ => none

def Fenced (s' : Store) (q : Request) : Prop :=
  ∀ a, q.attempt = some a → s' ≠ s → ∃ t ∈ s.steps, ∃ workerId, t.id = a.stepId ∧ t.queueMessageId = a.messageId ∧
    normalize a.workerId = some workerId ∧ (claimsOf a.stepId s.events).getLast? = some (a.attempt, workerId)

def Granted (s' : Store) (reply : Reply) : Prop :=
  ∀ id, claimsOf id s'.events = claimsOf id s.events ++
    match reply with
    | .claimed _ t _ attempt workerId => if t.id = id then [(attempt, workerId)] else []
    | _ => []

/-- どの step も、上限の回数まで、番号の増える試みとして渡され、結果の記録は試みごとに高々一つである。 -/
def Attempted : Prop :=
  ((claimsOf t.id s.events).map Prod.fst).Pairwise (· < ·) ∧ (claimsOf t.id s.events).length ≤ t.maxAttempts ∧
    (outcomesOf t.id s.events).Nodup

end Supacloud.Workflows
