import Supacloud.Library.Runs
import Supacloud.Tasks.Rows

/-!
# 関数の試み（repositories/background-attempt-store.ts, services/background-function-worker.ts）

手続きは、仕事と試みの番号の合う行を押さえてから、状態と期限を確かめて書く。始めた仕事は、始まりの返事を受け取った送り手だけが、
関数に一度渡す。
-/

namespace Supacloud.Tasks

open Library

inductive AttemptStatus where
  | running | succeeded | retryScheduled | deadLettered | cancelled
  deriving DecidableEq

structure AttemptRow where
  taskId : Uuid
  projectRef : String
  attemptNo : Nat
  status : AttemptStatus
  completedAt : Option Timestamp
  error : Option String

structure Db where
  clock : Timestamp
  uuid : Uuid
  projects : List Project
  tasks : List Task
  attempts : List AttemptRow

structure Key where
  id : Uuid
  projectRef : String
  attempt : Nat
  deriving DecidableEq

inductive Outcome where
  | succeeded | retryScheduled | deadLettered | cancelled
  deriving DecidableEq

def Outcome.task : Outcome → TaskStatus
  | .succeeded => .succeeded
  | .retryScheduled => .retryScheduled
  | .deadLettered => .deadLettered
  | .cancelled => .cancelled

def Outcome.attempt : Outcome → AttemptStatus
  | .succeeded => .succeeded
  | .retryScheduled => .retryScheduled
  | .deadLettered => .deadLettered
  | .cancelled => .cancelled

structure Completion where
  status : Outcome
  error : Option String
  nextRunAt : Option Timestamp

inductive StoreError where
  | invalidIdentity
  | invalidLease
  | invalidCompletion
  | alreadyStarted
  | historyConflict

def StoreError.message : StoreError → String
  | .invalidIdentity => "Invalid background attempt identity"
  | .invalidLease => "Invalid background lease duration"
  | .invalidCompletion => "Invalid background completion"
  | .alreadyStarted => "Background attempt already started"
  | .historyConflict => "Background attempt history conflicts with task state"

/-! ## 番号の合う行を押さえた書き込み -/

def Key.matches (key : Key) (t : Task) : Bool :=
  t.id = key.id ∧ t.projectRef = key.projectRef ∧ t.taskType = .edgeFunction ∧ t.attempt = key.attempt

def Db.locked (db : Db) (key : Key) : Option Task := db.tasks.find? key.matches

def Db.set (db : Db) (id : Uuid) (f : Task → Task) : Db := { db with tasks := update (fun t => t.id = id) f db.tasks }

def identity (key : Key) (least : Nat) : Except StoreError Unit :=
  require (least ≤ key.attempt ∧ key.attempt ≤ 2147483647) .invalidIdentity

def leaseDuration (duration : Nat) : Except StoreError Unit :=
  require (1 ≤ duration ∧ duration ≤ 1800) .invalidLease

def renew (db : Db) (key : Key) (duration : Nat) : Except StoreError (Db × Bool) := do
  identity key 1
  leaseDuration duration
  match db.locked key with
  | none => pure (db, false)
  | some current =>
    if current.held ∧ current.cancelRequestedAt = none ∧ current.live db.clock then
      pure (db.set key.id fun t => { t with leaseUntil := some (db.clock + seconds duration) }, true)
    else pure (db, false)

def Db.recorded (db : Db) (id : Uuid) (attempt : Nat) : Bool := db.attempts.any fun h => h.taskId = id ∧ h.attemptNo = attempt

def start (db : Db) (key : Key) (duration : Nat) : Except StoreError (Db × Bool) := do
  identity key 1
  leaseDuration duration
  match db.locked key with
  | none => pure (db, false)
  | some current =>
    if current.status = .leased ∧ current.cancelRequestedAt = none ∧ current.live db.clock then
      require (¬ db.recorded key.id key.attempt) .alreadyStarted
      let row := {
        taskId := key.id
        projectRef := key.projectRef
        attemptNo := key.attempt
        status := .running
        completedAt := none
        error := none }
      let db := { db with attempts := row :: db.attempts }
      pure (db.set key.id fun t => { t with
        status := .running
        leaseUntil := some (db.clock + seconds duration)
        startedAt := t.startedAt.or (some db.clock) }, true)
    else pure (db, false)

/-- `text || …`：空の文字列は、ないものとして扱う。 -/
def nonempty (text : Option String) : Option String := text.filter fun s => s ≠ ""

def Task.finish (t : Task) (clock : Timestamp) (status : Outcome) (error : Option String) (nextRunAt : Option Timestamp) : Task :=
  { t with
    status := status.task
    error := if status = .succeeded then none else error
    leaseUntil := none
    nextRunAt := if status = .retryScheduled then nextRunAt else t.nextRunAt
    completedAt := if status = .retryScheduled then none else some clock
    cancelRequestedAt := if status = .cancelled then t.cancelRequestedAt.or (some clock) else none
    cancellationReason := if status = .cancelled then error else none }

/-- `INSERT … ON CONFLICT (task_id, attempt_no) DO UPDATE … WHERE status = 'running'`。書けた行がなければ none。 -/
def upsertAttempt (attempts : List AttemptRow) (row : AttemptRow) : Option (List AttemptRow) :=
  match attempts.find? fun h => h.taskId = row.taskId ∧ h.attemptNo = row.attemptNo with
  | none => some (row :: attempts)
  | some existing =>
    if existing.projectRef = row.projectRef ∧ existing.status = .running then
      some (update (fun h => h.taskId = row.taskId ∧ h.attemptNo = row.attemptNo)
        (fun h => { h with status := row.status, completedAt := row.completedAt, error := row.error }) attempts)
    else none

/-- 済んだ取りやめの願いは、並んで届いた成否に勝つ。 -/
def finish (db : Db) (key : Key) (input : Completion) : Except StoreError (Db × Option Outcome) := do
  identity key 1
  require (input.status = .retryScheduled → input.nextRunAt ≠ none) .invalidCompletion
  match db.locked key with
  | none => pure (db, none)
  | some current =>
    if current.held ∧ current.live db.clock then
      let status := if current.cancelRequestedAt = none then input.status else .cancelled
      let error := if status = .cancelled then
        some ((nonempty current.cancellationReason).or (nonempty input.error) |>.getD "Cancelled by user") else input.error
      let attempts ← fetch (upsertAttempt db.attempts {
        taskId := key.id
        projectRef := key.projectRef
        attemptNo := key.attempt
        status := status.attempt
        completedAt := some db.clock
        error := if status = .succeeded then none else error }) .historyConflict
      let db := { db with attempts }
      pure (db.set key.id fun t => t.finish db.clock status error input.nextRunAt, some status)
    else pure (db, none)

def Task.requestCancel (t : Task) (clock : Timestamp) : Task :=
  { t with
    status := if t.queued then .cancelled else t.status
    cancelRequestedAt := t.cancelRequestedAt.or (some clock)
    cancellationReason := t.cancellationReason.or (some "Cancelled by user")
    completedAt := if t.queued then some clock else t.completedAt
    leaseUntil := if t.queued then none else t.leaseUntil }

def requestCancellation (db : Db) (key : Key) : Except StoreError (Db × Option TaskStatus) := do
  identity key 0
  match db.locked key with
  | none => pure (db, none)
  | some current =>
    if current.queued ∨ current.held then
      pure (db.set key.id fun t => t.requestCancel db.clock, some (if current.queued then .cancelled else current.status))
    else pure (db, none)

/-! ## 取りやめの見回り -/

def Task.abandoned (t : Task) (clock : Timestamp) : Bool :=
  t.taskType = .edgeFunction ∧ t.held ∧ t.cancelRequestedAt ≠ none ∧ t.expired clock

def Task.expiresBefore (a b : Task) : Prop :=
  a.leaseUntil.getD 0 < b.leaseUntil.getD 0 ∨ (a.leaseUntil.getD 0 = b.leaseUntil.getD 0 ∧ a.id ≤ b.id)

instance : DecidableRel Task.expiresBefore := fun _ _ => inferInstanceAs (Decidable (_ ∨ _))

def Task.sweepCancelled (t : Task) (clock : Timestamp) : Task :=
  { t with
    status := .cancelled
    leaseUntil := none
    error := some (t.cancellationReason.getD "Cancelled by user")
    completedAt := some clock }

/-- 一度に見る行は百までで、押さえられている行 skip は見ない。 -/
def abandonedTasks (db : Db) (skip : List Uuid) : List Task :=
  ((db.tasks.filter fun t => t.abandoned db.clock ∧ t.id ∉ skip).insertionSort Task.expiresBefore).take 100

def recoverCancelled (db : Db) (skip : List Uuid) : Db :=
  let rows := abandonedTasks db skip
  { db with
    tasks := update (fun t => rows.any fun r => r.id = t.id) (fun t => t.sweepCancelled db.clock) db.tasks
    attempts := update (fun h => h.status = .running ∧ rows.any fun r =>
        r.id = h.taskId ∧ r.projectRef = h.projectRef ∧ r.attempt = h.attemptNo)
      (fun h => { h with
        status := .cancelled
        completedAt := some db.clock
        error := some "Cancellation lease expired; execution may have been interrupted" }) db.attempts }

end Supacloud.Tasks

/-! ## 出来事 -/

namespace Supacloud.Tasks.Background

open Library

inductive Note where
  | claimed (id : Uuid) (attempt : Nat)
  | started (id : Uuid) (attempt : Nat)
  | dispatched (id : Uuid) (attempt : Nat)
  | finished (id : Uuid) (attempt : Nat) (status : Outcome)
  | cancelRequested (id : Uuid) (attempt : Nat) (status : TaskStatus)
  | retried (id : Uuid) (attempt : Nat)
  deriving DecidableEq

/-- `ready` は、始まりの返事を受け取り、まだ関数に渡していない送り手の受け持ちである。`log` は新しいものから並ぶ。 -/
structure World where
  db : Db
  ready : List Key
  log : List Note

def World.empty (clock : Timestamp) (projects : List Project) : World :=
  { db := { clock, uuid := 0, projects, tasks := [], attempts := [] }, ready := [], log := [] }

/-- 時刻 started は取引の始まりで、今より先にはならない。`acknowledged` は、書き込みの返事が届いたかどうかである。 -/
inductive Event where
  | tick (elapsed : Nat)
  | createTask (input : CreateTaskInput)
  | claimNextTask (options : TaskLeaseOptions) (snapshot : List Task) (started : Timestamp) (skip : List Uuid)
  | recoverExpiredLeases (started : Timestamp) (projectRef : Option String) (taskTypes : List TaskType)
  | renew (key : Key) (duration : Nat)
  | start (key : Key) (duration : Nat) (acknowledged : Bool)
  | dispatch (key : Key)
  | finish (key : Key) (completion : Completion)
  | requestCancellation (key : Key)
  | recoverCancelled (skip : List Uuid)
  | retryTask (id : Uuid) (projectRef : String)

def World.claim (w : World) (options : TaskLeaseOptions) (snapshot : List Task) (started : Timestamp) (skip : List Uuid) : World :=
  match Tasks.claimNextTask w.db.projects w.db.tasks snapshot (min started w.db.clock) skip options with
  | none => w
  | some (t, tasks) =>
    { w with
      db := { w.db with tasks }
      log := .claimed t.id t.attempt :: w.log }

def World.start (w : World) (key : Key) (duration : Nat) (acknowledged : Bool) : World :=
  match Tasks.start w.db key duration with
  | .ok (db, true) =>
    { db
      ready := if acknowledged then key :: w.ready else w.ready
      log := .started key.id key.attempt :: w.log }
  | _ => w

/-- `execute` は、始まりの返事を受け取るたびに、高々一度だけ関数を呼ぶ。 -/
def World.dispatch (w : World) (key : Key) : World :=
  if key ∈ w.ready then
    { w with
      ready := w.ready.erase key
      log := .dispatched key.id key.attempt :: w.log }
  else w

def World.finish (w : World) (key : Key) (completion : Completion) : World :=
  match Tasks.finish w.db key completion with
  | .ok (db, some status) => { w with db, log := .finished key.id key.attempt status :: w.log }
  | _ => w

def World.requestCancellation (w : World) (key : Key) : World :=
  match Tasks.requestCancellation w.db key with
  | .ok (db, some status) => { w with db, log := .cancelRequested key.id key.attempt status :: w.log }
  | _ => w

def World.retry (w : World) (id : Uuid) (projectRef : String) : World :=
  { w with
    db := { w.db with tasks := Tasks.retryTask w.db.tasks w.db.clock id projectRef }
    log := ((w.db.tasks.filter fun t => t.id = id ∧ t.projectRef = projectRef ∧ t.retriable).map fun t =>
      Note.retried t.id t.attempt) ++ w.log }

def step (w : World) : Event → World
  | .tick elapsed => { w with db := { w.db with clock := w.db.clock + elapsed } }
  | .createTask input => { w with
      db := { w.db with uuid := w.db.uuid + 1, tasks := Tasks.createTask w.db.tasks w.db.uuid w.db.clock input } }
  | .claimNextTask options snapshot started skip => w.claim options snapshot started skip
  | .recoverExpiredLeases started projectRef taskTypes => { w with
      db := { w.db with tasks := Tasks.recoverExpiredLeases w.db.tasks (min started w.db.clock) projectRef taskTypes } }
  | .renew key duration =>
    match Tasks.renew w.db key duration with
    | .ok (db, _) => { w with db }
    | .error _ => w
  | .start key duration acknowledged => w.start key duration acknowledged
  | .dispatch key => w.dispatch key
  | .finish key completion => w.finish key completion
  | .requestCancellation key => w.requestCancellation key
  | .recoverCancelled skip => { w with db := Tasks.recoverCancelled w.db skip }
  | .retryTask id projectRef => w.retry id projectRef

def reached (clock : Timestamp) (projects : List Project) (es : List Event) : World :=
  run step (World.empty clock projects) es

end Supacloud.Tasks.Background

/-!
## 同時の受け持ち（claimNextTask と claimQueueMessage の重なり）

受け持ちの文は、始まりの写しで数を数え、選んだ行だけを押さえて、終わりに書く。
-/

namespace Supacloud.Tasks.Concurrency

open Library

inductive Claim where
  | next (options : TaskLeaseOptions)
  | queue (options : ClaimQueueMessageOptions)

/-- 進行中の受け持ちの文。`missed` は、写しを取った後に済んだ、ほかの受け持ちの記録である。 -/
structure Statement where
  call : Nat
  claim : Claim
  snapshot : List Task
  now : Timestamp
  missed : List (String × TaskType)

structure World where
  db : Db
  statements : List Statement
  nextCall : Nat

def World.empty (clock : Timestamp) (projects : List Project) : World :=
  { db := { clock, uuid := 0, projects, tasks := [], attempts := [] }, statements := [], nextCall := 0 }

inductive Event where
  | tick (elapsed : Nat)
  | createTask (input : CreateTaskInput)
  | begin (claim : Claim)
  | commit (call : Nat) (skip : List Uuid)
  | recoverExpiredLeases (started : Timestamp) (projectRef : Option String) (taskTypes : List TaskType)
  | renew (key : Key) (duration : Nat)
  | start (key : Key) (duration : Nat)
  | finish (key : Key) (completion : Completion)
  | requestCancellation (key : Key)
  | recoverCancelled (skip : List Uuid)
  | retryTask (id : Uuid) (projectRef : String)
  | markTaskRunning (id : Uuid)
  | markTaskSucceeded (id : Uuid)
  | scheduleRetry (id : Uuid) (error : String) (nextRunAt : Timestamp)
  | markTaskFailed (id : Uuid) (error : String)
  | acknowledgeQueueMessage (id : Uuid)

def Statement.result (s : Statement) (db : Db) (skip : List Uuid) : Option (Task × List Task) :=
  match s.claim with
  | .next options => claimNextTask db.projects db.tasks s.snapshot s.now skip options
  | .queue options => claimQueueMessage db.tasks s.snapshot s.now skip options

def World.begin (w : World) (claim : Claim) : World :=
  { w with
    statements := { call := w.nextCall, claim, snapshot := w.db.tasks, now := w.db.clock, missed := [] } :: w.statements
    nextCall := w.nextCall + 1 }

def World.statement (w : World) (call : Nat) : Option Statement := w.statements.find? fun s => s.call = call

def World.commit (w : World) (call : Nat) (skip : List Uuid) : World :=
  match w.statement call with
  | none => w
  | some s =>
    let rest := w.statements.filter fun r => r.call ≠ call
    match s.result w.db skip with
    | none => { w with statements := rest }
    | some (t, tasks) =>
      { w with
        db := { w.db with tasks }
        statements := rest.map fun r => { r with missed := (t.projectRef, t.taskType) :: r.missed } }

def World.setTasks (w : World) (tasks : List Task) : World := { w with db := { w.db with tasks } }

def World.transact {α : Type} (w : World) (x : Except StoreError (Db × α)) : World :=
  match x with
  | .ok (db, _) => { w with db }
  | .error _ => w

def step (w : World) : Event → World
  | .tick elapsed => { w with db := { w.db with clock := w.db.clock + elapsed } }
  | .createTask input => { w with
      db := { w.db with uuid := w.db.uuid + 1, tasks := Tasks.createTask w.db.tasks w.db.uuid w.db.clock input } }
  | .begin claim => w.begin claim
  | .commit call skip => w.commit call skip
  | .recoverExpiredLeases started projectRef taskTypes =>
    w.setTasks (Tasks.recoverExpiredLeases w.db.tasks (min started w.db.clock) projectRef taskTypes)
  | .renew key duration => w.transact (Tasks.renew w.db key duration)
  | .start key duration => w.transact (Tasks.start w.db key duration)
  | .finish key completion => w.transact (Tasks.finish w.db key completion)
  | .requestCancellation key => w.transact (Tasks.requestCancellation w.db key)
  | .recoverCancelled skip => { w with db := Tasks.recoverCancelled w.db skip }
  | .retryTask id projectRef => w.setTasks (Tasks.retryTask w.db.tasks w.db.clock id projectRef)
  | .markTaskRunning id => w.setTasks (Tasks.markTaskRunning w.db.tasks id)
  | .markTaskSucceeded id => w.setTasks (Tasks.markTaskSucceeded w.db.tasks w.db.clock id)
  | .scheduleRetry id error nextRunAt => w.setTasks (Tasks.scheduleRetry w.db.tasks id error nextRunAt)
  | .markTaskFailed id error => w.setTasks (Tasks.markTaskFailed w.db.tasks w.db.clock id error)
  | .acknowledgeQueueMessage id => w.setTasks (Tasks.acknowledgeQueueMessage w.db.tasks w.db.clock id)

def reached (clock : Timestamp) (projects : List Project) (es : List Event) : World :=
  run step (World.empty clock projects) es

/-! ## 決めた上限 -/

/-- 受け持ちの文が使う上限は、どの案件と種類でも、決めた数 limit を超えない。 -/
def Claim.Conforms (limit : String → TaskType → Nat) (projects : List Project) : Claim → Prop
  | .next o => ∀ p ∈ projects, ∀ type, (o.allowedTaskTypes = [] ∨ type ∈ o.allowedTaskTypes) →
      projectLimit o.concurrency p ≤ limit p.ref type
  | .queue o => ∃ n, o.limit = some n ∧ n ≤ limit o.projectRef o.queueName

def Configured (limit : String → TaskType → Nat) (w : World) : Event → Prop
  | .begin claim => claim.Conforms limit w.db.projects
  | _ => True

/-- 写しを取った後に同じ案件と種類の受け持ちが済んでいたなら、それを数に入れても空きがある。 -/
def Spare (limit : String → TaskType → Nat) (w : World) : Event → Prop
  | .commit call skip => ∀ s ∈ w.statement call, ∀ r ∈ s.result w.db skip, 0 < s.missed.count (r.1.projectRef, r.1.taskType) →
        activeCount s.snapshot r.1.projectRef r.1.taskType s.now + s.missed.count (r.1.projectRef, r.1.taskType) <
          limit r.1.projectRef r.1.taskType
  | _ => True

instance (limit : String → TaskType → Nat) (w : World) : (e : Event) → Decidable (Spare limit w e)
  | .commit call skip => inferInstanceAs (Decidable (∀ s ∈ w.statement call, ∀ r ∈ s.result w.db skip, _ → _))
  | .tick .. | .createTask .. | .begin .. | .recoverExpiredLeases .. | .renew .. | .start .. | .finish ..
  | .requestCancellation .. | .recoverCancelled .. | .retryTask .. | .markTaskRunning .. | .markTaskSucceeded ..
  | .scheduleRetry .. | .markTaskFailed .. | .acknowledgeQueueMessage .. => isTrue trivial

end Supacloud.Tasks.Concurrency
