import Mathlib.Algebra.GroupWithZero.Nat
import Supacloud.Library.Runs
import Supacloud.Tasks.Rows

/-!
# 案件の用意の連鎖（services/task.worker.ts）

過程は一度に一つの `poll` を行い、どの待ち（`await`）の間でも倒れうる。仕事の終わりの書き込みと、その後に続く書き込みは、
別々の取引である。
-/

namespace Supacloud.Tasks.Saga

open Library

inductive ProjectStatus where
  | creating | active | paused
  deriving DecidableEq

def cleanup : TaskType → Bool
  | .cleanupDb | .cleanupS3 | .cleanupRuntime | .cleanupRealtime | .cleanupRouter => true
  | _ => false

/-! ## 終わりの後に続く書き込み -/

inductive FollowUp where
  | pause
  | activate
  | enqueue (type : TaskType)
  deriving DecidableEq

def handleTaskCompletion : TaskType → List FollowUp
  | .provisionDb => [.enqueue .provisionS3]
  | .provisionS3 => [.enqueue .provisionRuntime]
  | .provisionRuntime => [.enqueue .provisionRealtime]
  | .provisionRealtime => [.enqueue .provisionRouter]
  | .provisionRouter => [.enqueue .provisionGateway]
  | .provisionGateway => [.enqueue .provisionSecrets]
  | .provisionSecrets => [.activate]
  | .cleanupRuntime => [.enqueue .cleanupRealtime]
  | .cleanupRealtime => [.enqueue .cleanupS3]
  | .cleanupS3 => [.enqueue .cleanupDb]
  | .cleanupDb => [.enqueue .cleanupRouter]
  | .cleanupRouter | .edgeFunction | .queue _ => []

def compensation : TaskType → List FollowUp
  | .provisionRealtime => [.enqueue .provisionRouter]
  | .provisionDb => [.pause]
  | .provisionS3 | .provisionRuntime => [.pause, .enqueue .cleanupRuntime, .enqueue .cleanupS3, .enqueue .cleanupDb]
  | _ => []

inductive Ending where
  | succeeded | failed

def Ending.followUps : Ending → TaskType → List FollowUp
  | .succeeded => handleTaskCompletion
  | .failed => compensation

def maxRetries (type : TaskType) : Nat := if cleanup type then 10 else 3

/-- `baseDelayMs * Math.pow(2, cappedAttempt - 1)` -/
def retryDelay (retries : Nat) : Nat := seconds 5 * 2 ^ (min (max retries 1) 6 - 1)

def failureMessage : String := "Task execution failed"

/-! ## 過程 -/

/-- `poll` の止まっている所。`following` は、終わりを書いた後の、残りの書き込みである。 -/
inductive Point where
  | recovered
  | claiming (snapshot : List Task) (now : Timestamp)
  | claimed (task : Task)
  | executing (task : Task)
  | following (task : Task) (ending : Ending) (rest : List FollowUp)

structure Poll where
  pid : Nat
  point : Point

inductive Entry where
  | ended (task : Task) (ending : Ending)
  | followed (task : Task) (write : FollowUp)

structure World where
  clock : Timestamp
  uuid : Uuid
  project : Project
  status : ProjectStatus
  activated : Bool
  tasks : List Task
  polls : List Poll
  log : List Entry

def World.createTask (w : World) (type : TaskType) : World :=
  { w with
    uuid := w.uuid + 1
    tasks := Tasks.createTask w.tasks w.uuid w.clock
      { ref := w.project.ref, type, maxAttempts := 0, idempotencyKey := none, nextRunAt := none } }

def World.provisionResources (clock : Timestamp) (project : Project) : World :=
  World.createTask
    { clock, uuid := 0, project, status := .creating, activated := false, tasks := [], polls := [], log := [] }
    .provisionDb

def allowedTaskTypes : List TaskType :=
  [.provisionDb, .provisionS3, .provisionRuntime, .provisionRealtime, .provisionRouter, .provisionGateway, .provisionSecrets,
    .cleanupDb, .cleanupS3, .cleanupRuntime, .cleanupRealtime, .cleanupRouter]

def leaseOptions : TaskLeaseOptions := { allowedTaskTypes, leaseSeconds := 600, concurrencyByProject := 1 }

def World.point (w : World) (pid : Nat) : Option Point := (w.polls.find? fun p => p.pid = pid).map Poll.point

variable (w : World)

def World.stop (pid : Nat) : World := { w with polls := w.polls.filter fun p => p.pid ≠ pid }

def World.move (pid : Nat) (point : Point) : World :=
  { w with polls := { pid, point } :: w.polls.filter fun p => p.pid ≠ pid }

def World.follow (pid : Nat) (task : Task) (ending : Ending) (rest : List FollowUp) : World :=
  if rest = [] then w.stop pid else w.move pid (.following task ending rest)

def World.finish (pid : Nat) (task : Task) (ending : Ending) : World :=
  let tasks := match ending with
    | .succeeded => markTaskSucceeded w.tasks w.clock task.id
    | .failed => markTaskFailed w.tasks w.clock task.id failureMessage
  { w with tasks, log := .ended task ending :: w.log }.follow pid task ending (ending.followUps task.taskType)

def World.handleTaskFailure (pid : Nat) (task : Task) : World :=
  if task.taskType ≠ .provisionRealtime ∧ task.retries < maxRetries task.taskType then
    { w with tasks := scheduleRetry w.tasks task.id failureMessage (w.clock + retryDelay task.retries) }.stop pid
  else w.finish pid task .failed

/-- `activateCreatingProject`：助言の錠が取れなければ、何もしない。 -/
def World.activate (locked : Bool) : World :=
  if locked ∧ w.status = .creating then { w with status := .active, activated := true } else w

def World.write (locked : Bool) : FollowUp → World
  | .pause => { w with status := .paused }
  | .activate => w.activate locked
  | .enqueue type => w.createTask type

inductive Event where
  | tick (elapsed : Nat)
  | poll (pid : Nat)
  | begin (pid : Nat)
  | claim (pid : Nat) (skip : List Uuid)
  | markTaskRunning (pid : Nat)
  | executeTask (pid : Nat) (success : Bool)
  | followUp (pid : Nat) (locked : Bool)
  | crash (pid : Nat)

/-- 過程の、次の一つの書き込み。止まっている所に合わない出来事は、何も起こさない。 -/
def step : Event → World
  | .tick elapsed => { w with clock := w.clock + elapsed }
  | .poll pid => match w.point pid with
    | none => { w with tasks := recoverExpiredLeases w.tasks w.clock none allowedTaskTypes }.move pid .recovered
    | some _ => w
  | .begin pid => match w.point pid with
    | some .recovered => w.move pid (.claiming w.tasks w.clock)
    | _ => w
  | .claim pid skip => match w.point pid with
    | some (.claiming snapshot now) => match claimNextTask [w.project] w.tasks snapshot now skip leaseOptions with
      | some (task, tasks) => { w with tasks }.move pid (.claimed task)
      | none => w.stop pid
    | _ => w
  | .markTaskRunning pid => match w.point pid with
    | some (.claimed task) => { w with tasks := Tasks.markTaskRunning w.tasks task.id }.move pid (.executing task)
    | _ => w
  | .executeTask pid success => match w.point pid with
    | some (.executing task) => if success then w.finish pid task .succeeded else w.handleTaskFailure pid task
    | _ => w
  | .followUp pid locked => match w.point pid with
    | some (.following task ending (next :: rest)) =>
      { w.write locked next with log := .followed task next :: w.log }.follow pid task ending rest
    | _ => w
  | .crash pid => w.stop pid

def reached (clock : Timestamp) (project : Project) (es : List Event) : World :=
  run step (World.provisionResources clock project) es

/-! ## 連鎖の行き着く先 -/

def active (t : Task) : Bool := t.queued ∨ t.held

def World.Quiet : Prop := ∀ t ∈ w.tasks, active t = false

/-- 案件が動き始めたか、失敗した仕事の補いがすべて済んだ。provision_realtime の失敗は連鎖を止めないので、数えない。 -/
def World.Settled : Prop :=
  w.activated = true ∨ ∃ task, task.taskType ≠ .provisionRealtime ∧ .ended task .failed ∈ w.log ∧
    ∀ c ∈ compensation task.taskType, .followed task c ∈ w.log

def Point.unfinished : Point → Bool
  | .following .. => true
  | .recovered | .claiming .. | .claimed _ | .executing _ => false

def World.enqueued (id : Uuid) (attempt : Nat) (type : TaskType) : Nat :=
  w.log.countP fun e => match e with
    | .followed task write => task.id = id ∧ task.attempt = attempt ∧ write = .enqueue type
    | .ended .. => false

def Point.activates : Point → Bool
  | .following _ _ (.activate :: _) => true
  | _ => false

/-- 続きを書き終えていない過程が倒れず、試みを使い切った行の期限が切れず、活動を始める書き込みは錠を取れる。 -/
def Uninterrupted : Event → Prop
  | .crash pid => ∀ point ∈ w.point pid, point.unfinished = false
  | .poll pid => w.point pid = none → ∀ t ∈ w.tasks, t.recoverable w.clock none allowedTaskTypes = true → t.attempt < t.maxAttempts
  | .followUp pid locked => ∀ point ∈ w.point pid, point.activates = true → w.status = .creating → locked = true
  | _ => True

instance (w : World) : (e : Event) → Decidable (Uninterrupted w e)
  | .crash pid => inferInstanceAs (Decidable (∀ point ∈ w.point pid, point.unfinished = false))
  | .poll pid => inferInstanceAs (Decidable (w.point pid = none → ∀ t ∈ w.tasks, _ → _))
  | .followUp pid _ => inferInstanceAs (Decidable (∀ point ∈ w.point pid, _ → _ → _))
  | .tick _ | .begin _ | .claim .. | .markTaskRunning _ | .executeTask .. => isTrue trivial

instance (w : World) : Decidable w.Quiet := inferInstanceAs (Decidable (∀ t ∈ w.tasks, active t = false))

end Supacloud.Tasks.Saga
