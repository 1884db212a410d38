import Mathlib.Data.List.Sort
import Supacloud.Library.Checked
import Supacloud.Library.Table

/-!
# 仕事の表（repositories/task.repository.ts, db/init.ts, db/index.ts）

時刻は百万分の一秒の数、識別子（uuid）は払い出した順の番号、`NOW()` は引数 now である。
どの手続きの判断にも使われない中身（payload、result、追跡の番号）は持たない。
-/

namespace Supacloud.Tasks

open Library

abbrev Uuid := Nat
abbrev Timestamp := Nat

def seconds (n : Nat) : Nat := n * 1000000

inductive TaskStatus where
  | pending | leased | running | retryScheduled | succeeded | failed | deadLettered | cancelled
  deriving DecidableEq

/-- 名の決まった種類と、そのほかの待ち行列の名。 -/
inductive TaskType where
  | provisionDb | provisionS3 | provisionRuntime | provisionRealtime | provisionRouter | provisionGateway | provisionSecrets
  | cleanupDb | cleanupS3 | cleanupRuntime | cleanupRealtime | cleanupRouter
  | edgeFunction
  | queue (name : String)
  deriving DecidableEq

structure Task where
  id : Uuid
  projectRef : String
  taskType : TaskType
  status : TaskStatus
  error : Option String
  retries : Nat
  attempt : Nat
  maxAttempts : Nat
  nextRunAt : Option Timestamp
  leaseUntil : Option Timestamp
  startedAt : Option Timestamp
  completedAt : Option Timestamp
  cancelRequestedAt : Option Timestamp
  cancellationReason : Option String
  idempotencyKey : Option String
  createdAt : Timestamp

/-- `projects`。`concurrency` は `config->'background_tasks'->>'concurrency'` の値である。 -/
structure Project where
  ref : String
  concurrency : Option Int

variable (t : Task)

/-- `status IN ('leased', 'running')` -/
def Task.held : Bool := t.status = .leased ∨ t.status = .running

/-- `status IN ('pending', 'retry_scheduled')` -/
def Task.queued : Bool := t.status = .pending ∨ t.status = .retryScheduled

variable (tasks snapshot : List Task) (now : Timestamp)

def Task.live : Bool := t.leaseUntil.any fun u => now < u

def Task.expired : Bool := t.leaseUntil.any fun u => u ≤ now

structure CreateTaskInput where
  ref : String
  type : TaskType
  maxAttempts : Nat
  idempotencyKey : Option String
  nextRunAt : Option Timestamp

/-- `ON CONFLICT (project_ref, idempotency_key) DO UPDATE SET updated_at`：同じ鍵の行があれば、行は増えない。 -/
def createTask (id : Uuid) (now : Timestamp) (input : CreateTaskInput) : List Task :=
  if tasks.any fun t => t.projectRef = input.ref ∧ input.idempotencyKey ≠ none ∧ t.idempotencyKey = input.idempotencyKey then tasks
  else tasks ++ [{
    id
    projectRef := input.ref
    taskType := input.type
    status := .pending
    error := none
    retries := 0
    attempt := 0
    maxAttempts := if input.maxAttempts = 0 then 3 else input.maxAttempts
    nextRunAt := some (input.nextRunAt.getD now)
    leaseUntil := none
    startedAt := none
    completedAt := none
    cancelRequestedAt := none
    cancellationReason := none
    idempotencyKey := input.idempotencyKey
    createdAt := now }]

/-! ## 受け持ち -/

def Task.runAt : Timestamp := t.nextRunAt.getD t.createdAt

def Task.runnable : Bool := t.queued ∧ t.runAt ≤ now ∧ t.cancelRequestedAt = none

def activeCount (ref : String) (type : TaskType) (now : Timestamp) : Nat :=
  tasks.countP fun t => t.projectRef = ref ∧ t.taskType = type ∧ t.held ∧ t.live now

def Task.before (a b : Task) : Prop := a.runAt < b.runAt ∨ (a.runAt = b.runAt ∧ a.createdAt ≤ b.createdAt)

instance : DecidableRel Task.before := fun _ _ => inferInstanceAs (Decidable (_ ∨ _))

/-- 受け持ちの文。数え上げと条件は、文の始まりの写し snapshot で見る。押さえた行は、今の版でもう一度条件を確かめる。 -/
def candidate (skip : List Uuid) (admits : Task → Bool) : Option Task := do
  let t ← ((snapshot.filter fun t => t.runnable now ∧ admits t ∧ t.id ∉ skip
    ∧ tasks.any fun current => current.id = t.id ∧ current.runnable now).insertionSort Task.before).head?
  tasks.find? fun current => current.id = t.id

def Task.lease (leaseSeconds : Nat) : Task :=
  { t with
    status := .leased
    attempt := t.attempt + 1
    retries := max t.attempt t.retries + 1
    leaseUntil := some (now + seconds leaseSeconds)
    startedAt := t.startedAt.or (some now) }

def leaseCandidate (skip : List Uuid) (admits : Task → Bool) (leaseSeconds : Nat) : Option (Task × List Task) := do
  let t ← candidate tasks snapshot now skip admits
  pure (t.lease now leaseSeconds, update (fun r => r.id = t.id) (fun r => r.lease now leaseSeconds) tasks)

structure TaskLeaseOptions where
  allowedTaskTypes : List TaskType
  leaseSeconds : Nat
  concurrencyByProject : Nat

def defaultLeaseSeconds : Nat := 330

/-- `DEFAULT_BACKGROUND_TASK_SETTINGS.concurrency` -/
def defaultConcurrency : Nat := 30

/-- `Math.max(1, Math.floor(options.concurrencyByProject || DEFAULT))` -/
def TaskLeaseOptions.concurrency (o : TaskLeaseOptions) : Nat :=
  max 1 (if o.concurrencyByProject = 0 then defaultConcurrency else o.concurrencyByProject)

/-- `LEAST(default, GREATEST(1, COALESCE(config, default)))` -/
def projectLimit (default : Nat) (p : Project) : Nat := min default (max 1 (p.concurrency.getD default)).toNat

def TaskLeaseOptions.admits (o : TaskLeaseOptions) (projects : List Project) (snapshot : List Task) (now : Timestamp)
    (t : Task) : Bool :=
  (projects.any fun p => p.ref = t.projectRef ∧ activeCount snapshot t.projectRef t.taskType now < projectLimit o.concurrency p)
    ∧ (o.allowedTaskTypes = [] ∨ t.taskType ∈ o.allowedTaskTypes)

def claimNextTask (projects : List Project) (tasks snapshot : List Task) (now : Timestamp) (skip : List Uuid)
    (o : TaskLeaseOptions) : Option (Task × List Task) :=
  leaseCandidate tasks snapshot now skip (o.admits projects snapshot now)
    (if o.leaseSeconds = 0 then defaultLeaseSeconds else o.leaseSeconds)

structure ClaimQueueMessageOptions where
  projectRef : String
  queueName : TaskType
  visibilityTimeoutSec : Nat
  maxInFlight : Option Nat

/-- `Math.max(1, Math.floor(options.maxInFlight || 1))`。数でなければ上限はない。 -/
def ClaimQueueMessageOptions.limit (o : ClaimQueueMessageOptions) : Option Nat := o.maxInFlight.map fun n => max 1 n

def ClaimQueueMessageOptions.admits (o : ClaimQueueMessageOptions) (snapshot : List Task) (now : Timestamp) (t : Task) : Bool :=
  t.projectRef = o.projectRef ∧ t.taskType = o.queueName
    ∧ ∀ limit ∈ o.limit, activeCount snapshot o.projectRef o.queueName now < limit

def claimQueueMessage (skip : List Uuid) (o : ClaimQueueMessageOptions) :
    Option (Task × List Task) :=
  leaseCandidate tasks snapshot now skip (o.admits snapshot now)
    (if o.visibilityTimeoutSec = 0 then defaultLeaseSeconds else o.visibilityTimeoutSec)

/-! ## 期限切れの見回り -/

def Task.recoverable (projectRef : Option String) (taskTypes : List TaskType) : Bool :=
  t.held ∧ t.expired now ∧ t.cancelRequestedAt = none ∧ (∀ ref ∈ projectRef, t.projectRef = ref)
    ∧ (taskTypes = [] ∨ t.taskType ∈ taskTypes)

def Task.unknownOutcome : Bool := t.taskType = .edgeFunction ∧ t.status = .running

def Task.recover : Task :=
  if t.unknownOutcome then
    { t with
      status := .deadLettered
      error := some "Background invocation outcome is unknown after lease expiry; automatic retry is disabled"
      leaseUntil := none
      completedAt := some now }
  else
    let error := some (match t.error with
      | none | some "" => "Lease expired before acknowledgement"
      | some message => message)
    if t.attempt < t.maxAttempts then
      { t with status := .retryScheduled, error, leaseUntil := none, nextRunAt := some now }
    else
      { t with status := .deadLettered, error, leaseUntil := none, completedAt := some now }

def recoverExpiredLeases (projectRef : Option String) (taskTypes : List TaskType) :
    List Task :=
  update (fun t => t.recoverable now projectRef taskTypes) (fun t => t.recover now) tasks

/-- `status IN ('failed', 'dead_lettered', 'cancelled')` -/
def Task.retriable : Bool := t.status = .failed ∨ t.status = .deadLettered ∨ t.status = .cancelled

def Task.reopen : Task :=
  { t with
    status := .pending
    error := none
    leaseUntil := none
    nextRunAt := some now
    completedAt := none
    cancelRequestedAt := none
    cancellationReason := none }

def retryTask (id : Uuid) (projectRef : String) : List Task :=
  update (fun t => t.id = id ∧ t.projectRef = projectRef ∧ t.retriable) (fun t => t.reopen now) tasks

def markTaskRunning (id : Uuid) : List Task :=
  update (fun t => t.id = id) (fun t => { t with status := .running }) tasks

def Task.settle (status : TaskStatus) (error : Option String) : Task :=
  { t with
    status, error
    leaseUntil := none
    cancelRequestedAt := none
    cancellationReason := none }

def markTaskSucceeded (id : Uuid) : List Task :=
  update (fun t => t.id = id) (fun t => { t.settle .succeeded none with completedAt := some now }) tasks

def scheduleRetry (id : Uuid) (error : String) (nextRunAt : Timestamp) : List Task :=
  update (fun t => t.id = id) (fun t => { t.settle .retryScheduled (some error) with nextRunAt := some nextRunAt }) tasks

def markTaskFailed (id : Uuid) (error : String) : List Task :=
  update (fun t => t.id = id) (fun t => { t.settle .failed (some error) with completedAt := some now }) tasks

def acknowledgeQueueMessage (id : Uuid) : List Task :=
  update (fun t => t.id = id ∧ t.held ∧ t.live now) (fun t => { t.settle .succeeded none with completedAt := some now }) tasks

end Supacloud.Tasks
