import Mathlib.Data.List.Sort
import Supacloud.Library.Table
import Supacloud.Library.Runs

/-!
# PostgreSQL の主版の引き上げ（services/postgres-major-upgrade.service.ts）

時刻はミリ秒である。
-/

namespace Supacloud.PostgresUpgrade

open Library

abbrev Timestamp := Nat

abbrev UpgradeId := Nat

/-- `randomUUID()` の引換券。作るたびに新しい。 -/
abbrev Token := Nat

def leaseMs : Nat := 30000

inductive PostgresUpgradeStatus where
  | draft
  | preflightRunning
  | preflightFailed
  | awaitingApproval
  | backupRunning
  | upgradeRunning
  | validating
  | succeeded
  | rollbackRequested
  | rollbackRunning
  | rolledBack
  | failed
  | manualRecoveryRequired
  | cancelled
  deriving DecidableEq, Repr

namespace PostgresUpgradeStatus

def transitions : PostgresUpgradeStatus → List PostgresUpgradeStatus
  | draft => [preflightRunning, cancelled]
  | preflightRunning => [preflightFailed, awaitingApproval, cancelled]
  | preflightFailed => [preflightRunning, cancelled]
  | awaitingApproval => [backupRunning, preflightRunning, cancelled]
  | backupRunning => [upgradeRunning, failed, cancelled]
  | upgradeRunning => [validating, rollbackRunning, manualRecoveryRequired]
  | validating => [succeeded, rollbackRunning, manualRecoveryRequired]
  | succeeded => []
  | rollbackRunning => [rolledBack, manualRecoveryRequired]
  | rolledBack => []
  | failed => []
  | manualRecoveryRequired => [rollbackRequested]
  | rollbackRequested => [rollbackRunning, manualRecoveryRequired]
  | cancelled => []

/-- `postgres_major_upgrades_cluster_fence_v2_idx` が数える状態。もう一つの索引が数える状態は、すべてこれに含まれる。 -/
def fenced : PostgresUpgradeStatus → Bool
  | draft | preflightRunning | awaitingApproval | backupRunning | upgradeRunning | validating | rollbackRequested | rollbackRunning
  | manualRecoveryRequired => true
  | preflightFailed | succeeded | rolledBack | failed | cancelled => false

def workable : PostgresUpgradeStatus → Bool
  | backupRunning | upgradeRunning | validating | rollbackRequested | rollbackRunning => true
  | _ => false

end PostgresUpgradeStatus

def canTransitionPostgresUpgrade (previous next : PostgresUpgradeStatus) : Bool := decide (next ∈ previous.transitions)

/-! ## 行 -/

inductive CheckStatus where
  | pass
  | warning
  | fail
  | unknown
  deriving DecidableEq

structure PostgresUpgradeCheck where
  id : String
  status : CheckStatus
  deriving DecidableEq

structure Preflight where
  ready : Bool
  blockers : List String
  warnings : List String
  checks : List PostgresUpgradeCheck
  deriving DecidableEq

def summarizePostgresUpgradePreflight (checks : List PostgresUpgradeCheck) : Preflight :=
  { ready := checks.all fun check => check.status = .pass || check.status = .warning
    blockers := (checks.filter fun check => check.status = .fail || check.status = .unknown).map PostgresUpgradeCheck.id
    warnings := (checks.filter fun check => check.status = .warning).map PostgresUpgradeCheck.id
    checks }

structure ScopedProject where
  ref : String
  databaseName : String
  deriving DecidableEq

structure ScopeSnapshot where
  projectCount : Nat
  projects : List ScopedProject
  deriving DecidableEq

def buildPostgresUpgradeScopeSnapshot (projects : List ScopedProject) : ScopeSnapshot := { projectCount := projects.length, projects }

/-- 供給側の実行器が返す証拠のうち、引き上げが見る欄。 -/
structure ExecutorEvidence where
  clusterScope : Bool
  cutoverVerified : Bool
  rollbackVerified : Bool
  fencingToken : Option Token
  deriving DecidableEq

structure ProjectEvidence where
  ref : String
  databaseName : String
  observedMajor : Nat
  deriving DecidableEq

structure Validation where
  observedMajor : Nat
  projectCount : Nat
  databases : List ProjectEvidence
  deriving DecidableEq

structure Failure where
  code : String
  message : String
  deriving DecidableEq

structure Upgrade where
  id : UpgradeId
  requestedProjectRef : String
  currentMajor : Nat
  targetMajor : Nat
  status : PostgresUpgradeStatus
  preflight : Option Preflight
  backupId : Option String
  scopeSnapshot : Option ScopeSnapshot
  executorEvidence : Option ExecutorEvidence
  validation : Option Validation
  errorCode : Option String
  errorMessage : Option String
  leaseToken : Option Token
  leaseExpiresAt : Option Timestamp
  fencingEpoch : Nat
  rollbackRequestedAt : Option Timestamp
  deriving DecidableEq

def Upgrade.insert (id : UpgradeId) (requestedProjectRef : String) (currentMajor targetMajor : Nat) : Upgrade :=
  { id, requestedProjectRef, currentMajor, targetMajor
    status := .draft
    preflight := none
    backupId := none
    scopeSnapshot := none
    executorEvidence := none
    validation := none
    errorCode := none
    errorMessage := none
    leaseToken := none
    leaseExpiresAt := none
    fencingEpoch := 0
    rollbackRequestedAt := none }

/-! ## 検証 -/

def scopeIncomplete : Failure := ⟨"postgres_upgrade_scope_invalid", "PostgreSQL upgrade scope snapshot is incomplete"⟩

def scopeDuplicate : Failure := ⟨"postgres_upgrade_scope_invalid", "PostgreSQL upgrade scope contains missing or duplicate databases"⟩

def scopeChanged : Failure :=
  ⟨"postgres_upgrade_scope_changed", "The active project database scope changed after the upgrade backup"⟩

def parsePostgresUpgradeScopeDatabases : Option ScopeSnapshot → Except Failure (List ScopedProject)
  | none => .error scopeIncomplete -- 列の既定の `{}`
  | some snapshot =>
    if snapshot.projectCount ≠ snapshot.projects.length then .error scopeIncomplete
    else if snapshot.projects.any (fun p => p.ref = "" || p.databaseName = "") ∨ ¬ (snapshot.projects.map ScopedProject.ref).Nodup ∨
        ¬ (snapshot.projects.map ScopedProject.databaseName).Nodup then .error scopeDuplicate
    else .ok snapshot.projects

def ScopedProject.line (p : ScopedProject) : String := p.ref ++ "\x00" ++ p.databaseName

def assertPostgresUpgradeScopeUnchanged (snapshot : Option ScopeSnapshot) (currentProjects : List ScopedProject) :
    Except Failure Unit := do
  let expected ← parsePostgresUpgradeScopeDatabases snapshot
  let lines := fun projects : List ScopedProject => (projects.map ScopedProject.line).mergeSort
  if lines expected = lines currentProjects then .ok () else .error scopeChanged

/-- 検証が読むもの。読むたびに別の値でよい。 -/
structure Observation where
  serverMajor : Nat
  currentProjects : List ScopedProject
  metadata : String → Option String
  database : String → Nat × String

def validateProject (target : Nat) (observation : Observation) (project : ScopedProject) : Except Failure ProjectEvidence :=
  if observation.metadata project.ref ≠ some project.databaseName then
    .error ⟨"postgres_upgrade_scope_changed", "Project " ++ project.ref ++ " no longer matches the backed-up cluster scope"⟩
  else if observation.database project.databaseName ≠ (target, project.databaseName) then
    .error ⟨"postgres_upgrade_project_validation_failed", "Project " ++ project.ref ++ " database validation failed after cutover"⟩
  else .ok { ref := project.ref, databaseName := project.databaseName, observedMajor := target }

def validateUpgrade (target : Nat) (scopeSnapshot : Option ScopeSnapshot) (observation : Observation) : Except Failure Validation := do
  if observation.serverMajor ≠ target then
    throw ⟨"postgres_upgrade_validation_failed",
      "Post-upgrade validation observed PostgreSQL " ++ toString observation.serverMajor ++ ", expected " ++ toString target⟩
  let scopedDatabases ← parsePostgresUpgradeScopeDatabases scopeSnapshot
  assertPostgresUpgradeScopeUnchanged scopeSnapshot observation.currentProjects
  let databases ← scopedDatabases.mapM (validateProject target observation)
  return { observedMajor := target, projectCount := databases.length, databases }

/-!
## 引き上げの担い手と走行

呼び出しは await ごとに区切られる。`transition` は、行の読み取りと、読んだ状態を条件とする更新に分かれ、更新は、
確定したのに失敗と知らされることもある。実行器の子の過程は、呼び出しが終わっても走り続ける。
-/

inductive Goal where
  | preflightRunning
  | preflightDone (preflight : Preflight)
  | backupRunning
  | rollbackRequested (errorCode errorMessage : Option String)
  | upgradeRunning (backupId : String) (scopeSnapshot : ScopeSnapshot)
  | validating (evidence : ExecutorEvidence)
  | succeeded (evidence : Option ExecutorEvidence) (validation : Validation)
  | failed (error : Failure)
  | manualRecoveryRequired (error : Failure)
  | rollbackRunning
  | rolledBack (evidence : ExecutorEvidence) (error : Failure)
  deriving DecidableEq

def Goal.next : Goal → PostgresUpgradeStatus
  | .preflightRunning => .preflightRunning
  | .preflightDone preflight => if preflight.ready then .awaitingApproval else .preflightFailed
  | .backupRunning => .backupRunning
  | .rollbackRequested .. => .rollbackRequested
  | .upgradeRunning .. => .upgradeRunning
  | .validating _ => .validating
  | .succeeded .. => .succeeded
  | .failed _ => .failed
  | .manualRecoveryRequired _ => .manualRecoveryRequired
  | .rollbackRunning => .rollbackRunning
  | .rolledBack .. => .rolledBack

def Goal.clearLease : Goal → Bool
  | .succeeded .. | .failed _ | .manualRecoveryRequired _ | .rolledBack .. => true
  | _ => false

def Goal.error : Goal → Option String × Option String
  | .rollbackRequested errorCode errorMessage => (errorCode, errorMessage)
  | .failed error | .manualRecoveryRequired error | .rolledBack _ error => (some error.code, some error.message)
  | _ => (none, none)

def Goal.evidence : Goal → Option ExecutorEvidence
  | .validating evidence | .rolledBack evidence _ => some evidence
  | .succeeded evidence _ => evidence
  | _ => none

def Goal.apply (now : Timestamp) (goal : Goal) (row : Upgrade) : Upgrade :=
  { row with
    status := goal.next
    preflight := match goal with
      | .preflightDone preflight => some preflight
      | _ => row.preflight
    backupId := match goal with
      | .upgradeRunning backupId _ => some backupId
      | _ => row.backupId
    scopeSnapshot := match goal with
      | .upgradeRunning _ scopeSnapshot => some scopeSnapshot
      | _ => row.scopeSnapshot
    executorEvidence := goal.evidence.or row.executorEvidence
    validation := match goal with
      | .succeeded _ validation => some validation
      | _ => row.validation
    errorCode := goal.error.1
    errorMessage := goal.error.2
    leaseToken := if goal.clearLease then none else row.leaseToken
    leaseExpiresAt := if goal.clearLease then none else row.leaseExpiresAt
    rollbackRequestedAt := match goal with
      | .rollbackRequested .. => some now
      | _ => row.rollbackRequestedAt }

/-! ## 呼び出し -/

inductive ExecutorAction where
  | execute
  | rollback
  deriving DecidableEq

/-- 呼び出しが待っているもの。`reading` と `writing` は、`transition` の読み取りと更新である。 -/
inductive Stage where
  | reading (goal : Goal)
  | writing (goal : Goal) (previous : PostgresUpgradeStatus)
  | preflight
  | backup
  | spawning (action : ExecutorAction)
  | executing (action : ExecutorAction) (child : Nat)
  | rereading (evidence : ExecutorEvidence)
  | validating (evidence : Option ExecutorEvidence) (scopeSnapshot : Option ScopeSnapshot)
  | done
  deriving DecidableEq

/-- 進行中の呼び出し。`row` は、受け持ったときか呼ばれたときの行で、`token` は担い手の引換券である。 -/
structure Thread where
  call : Nat
  row : Upgrade
  token : Option Token
  stage : Stage

structure Child where
  child : Nat
  call : Nat
  id : UpgradeId
  action : ExecutorAction
  running : Bool

inductive Entry where
  | backedUp (id : UpgradeId) (backupId : String)
  | committed (row : Upgrade)
  | accepted (id : UpgradeId)
  | started (action : ExecutorAction) (id : UpgradeId)
  | validated (id : UpgradeId) (target : Nat) (scopeSnapshot : Option ScopeSnapshot)
  deriving DecidableEq

/-- `nextCall` は、次の呼び出しと引換券の番号、`nextId` は次の引き上げの番号である。 -/
structure World where
  now : Timestamp
  rows : List Upgrade
  threads : List Thread
  children : List Child
  nextCall : Nat
  nextId : UpgradeId
  log : List Entry

def World.start (now : Timestamp) : World :=
  { now, rows := [], threads := [], children := [], nextCall := 0, nextId := 0, log := [] }

def World.find (w : World) (id : UpgradeId) : Option Upgrade := w.rows.find? fun row => row.id = id

variable (w : World)

def World.thread (call : Nat) : Option Thread := w.threads.find? fun t => t.call = call

def World.setStage (call : Nat) (stage : Stage) : World :=
  { w with threads := update (fun t => t.call = call) (fun t => { t with stage }) w.threads }

def World.spawnThread (row : Upgrade) (token : Option Token) (stage : Stage) : World :=
  { w with threads := w.threads ++ [{ call := w.nextCall, row, token, stage }], nextCall := w.nextCall + 1 }

def World.record (entry : Entry) : World := { w with log := entry :: w.log }

/-! ## 例外と続き -/

def invalidTransition (previous next : PostgresUpgradeStatus) : Failure :=
  ⟨"postgres_upgrade_invalid_transition", "Cannot transition PostgreSQL upgrade from " ++ reprStr previous ++ " to " ++ reprStr next⟩

def changedConcurrently : Failure := ⟨"postgres_upgrade_conflict", "PostgreSQL upgrade changed concurrently"⟩

def upgradeNotFound : Failure := ⟨"postgres_upgrade_not_found", "PostgreSQL upgrade was not found"⟩

variable (t : Thread) (error : Failure)

def executionFailed : Goal :=
  .manualRecoveryRequired
    ⟨error.code, error.message ++ "; automatic rollback is blocked until post-cutover writes and tenant validation are reconciled"⟩

def revalidationFailed : Goal := .manualRecoveryRequired ⟨"postgres_upgrade_validation_failed", error.message⟩

def Thread.originalError : Failure :=
  ⟨t.row.errorCode.getD "postgres_upgrade_manual_rollback", t.row.errorMessage.getD "Manual rollback requested"⟩

def Thread.rollbackFailed : Goal :=
  .manualRecoveryRequired ⟨"postgres_upgrade_rollback_failed", t.originalError.message ++ "; rollback: " ++ error.message⟩

def Thread.validationFailed : Goal :=
  if t.row.status = .validating then revalidationFailed error else executionFailed error

def Thread.afterFailure : Goal → Stage
  | .upgradeRunning .. => .reading (.failed error)
  | .validating _ => .reading (executionFailed error)
  | .succeeded .. => .reading (t.validationFailed error)
  | .rolledBack .. => .reading (t.rollbackFailed error)
  | .preflightRunning | .preflightDone _ | .backupRunning | .rollbackRequested .. | .failed _ | .manualRecoveryRequired _
  | .rollbackRunning => .done

def Goal.afterCommit : Goal → Stage
  | .preflightRunning => .preflight
  | .upgradeRunning .. => .spawning .execute
  | .validating evidence => .rereading evidence
  | .rollbackRunning => .spawning .rollback
  | _ => .done

def Thread.executorFailed : ExecutorAction → Stage
  | .execute => .reading (executionFailed error)
  | .rollback => .reading (t.rollbackFailed error)

def Thread.executorFinished (evidence : ExecutorEvidence) : ExecutorAction → Stage
  | .execute =>
    if evidence.clusterScope ∧ evidence.cutoverVerified ∧ evidence.fencingToken = t.token then .reading (.validating evidence)
    else
      t.executorFailed
        ⟨"postgres_upgrade_executor_evidence_missing", "Provider executor must return cluster cutover evidence"⟩ .execute
  | .rollback =>
    if evidence.rollbackVerified ∧ evidence.fencingToken = t.token then .reading (.rolledBack evidence t.originalError)
    else t.executorFailed ⟨"postgres_upgrade_rollback_evidence_missing", "Provider rollback evidence is incomplete"⟩ .rollback

def claimedStage (row : Upgrade) : Stage :=
  match row.status with
  | .upgradeRunning =>
    .reading (.manualRecoveryRequired ⟨"postgres_upgrade_executor_state_unknown",
      "The Management API restarted while the provider executor was running; automatic re-execution is forbidden"⟩)
  | .rollbackRequested => .reading .rollbackRunning
  | .rollbackRunning =>
    .reading (.manualRecoveryRequired ⟨"postgres_upgrade_rollback_state_unknown",
      "The Management API restarted while rollback was running; manual provider reconciliation is required"⟩)
  | .validating => .validating row.executorEvidence row.scopeSnapshot
  | .backupRunning => .backup
  | _ => .done

/-! ## 一歩 -/

inductive Event where
  | tick (elapsed : Nat)
  | request (requestedProjectRef : String) (currentMajor targetMajor : Nat)
  | approve (id : UpgradeId) (confirmation : String) (requestedRef : Option String)
  | rollback (id : UpgradeId) (confirmation : String) (requestedRef : Option String)
  | claim (skip : List UpgradeId) (lost : Bool)
  | heartbeat (id : UpgradeId) (token : Token)
  | readStatus (call : Nat)
  | writeStatus (call : Nat) (lost : Option Failure)
  | raise (call : Nat) (error : Failure)
  | finishPreflight (call : Nat) (checks : List PostgresUpgradeCheck)
  | finishBackup (call : Nat) (backupId : String) (projects : List ScopedProject)
  | spawn (call : Nat)
  | childExit (child : Nat)
  | settle (call : Nat) (output : Except Failure ExecutorEvidence)
  | reread (call : Nat)
  | validate (call : Nat) (observation : Observation)
  | crash (call : Nat)

/-- 索引に重なる行がなければ登録し、下調べを始める。 -/
def World.request (requestedProjectRef : String) (currentMajor targetMajor : Nat) : World :=
  if w.rows.any fun row => row.status.fenced then w
  else
    let row := Upgrade.insert w.nextId requestedProjectRef currentMajor targetMajor
    { w with rows := w.rows ++ [row], nextId := w.nextId + 1 }.spawnThread row none (.reading .preflightRunning)

/-- `buildPostgresMajorUpgradePlan` の `required_confirmation` -/
def Upgrade.requiredConfirmation (row : Upgrade) : String :=
  "UPGRADE POSTGRES CLUSTER " ++ toString row.currentMajor ++ " TO " ++ toString row.targetMajor ++ ":" ++ toString row.id

def Upgrade.rollbackConfirmation (row : Upgrade) : String := "ROLLBACK POSTGRES CLUSTER:" ++ toString row.id

def World.operate (id : UpgradeId) (requestedRef : Option String) (confirmation : String) (expected : Upgrade → String)
    (status : PostgresUpgradeStatus) (goal : Upgrade → Goal) : World :=
  match w.find id with
  | none => w
  | some row =>
    if requestedRef.any (· ≠ row.requestedProjectRef) ∨ confirmation ≠ expected row ∨ row.status ≠ status then w
    else w.spawnThread row none (.reading (goal row))

def World.candidate (skip : List UpgradeId) : Option Upgrade :=
  w.rows.find? fun row => row.status.workable && (row.leaseExpiresAt.all (· < w.now)) && decide (row.id ∉ skip)

def Upgrade.lease (now : Timestamp) (token : Token) (row : Upgrade) : Upgrade :=
  { row with leaseToken := some token, leaseExpiresAt := some (now + leaseMs), fencingEpoch := row.fencingEpoch + 1 }

/-- `claimNextWork`。確定したのに失敗と知らされれば、仕事は始まらない。 -/
def World.claim (skip : List UpgradeId) (lost : Bool) : World :=
  match w.candidate skip with
  | none => w
  | some row =>
    let claimed := row.lease w.now w.nextCall
    { w with rows := update (fun r => r.id = row.id) (Upgrade.lease w.now w.nextCall) w.rows }.spawnThread claimed (some w.nextCall)
      (if lost then .done else claimedStage claimed)

def World.heartbeat (id : UpgradeId) (token : Token) : World :=
  { w with
    rows := update (fun row => decide (row.id = id) && decide (row.leaseToken = some token))
      (fun row => { row with leaseExpiresAt := some (w.now + leaseMs) }) w.rows }

def World.readStatus (goal : Goal) : World :=
  match w.find t.row.id with
  | none => w.setStage t.call (t.afterFailure upgradeNotFound goal)
  | some row =>
    if canTransitionPostgresUpgrade row.status goal.next then w.setStage t.call (.writing goal row.status)
    else w.setStage t.call (t.afterFailure (invalidTransition row.status goal.next) goal)

def Thread.updates (previous : PostgresUpgradeStatus) (row : Upgrade) : Bool :=
  row.id = t.row.id && row.status = previous && t.token.all fun token => row.leaseToken = some token

/-- 一意の索引は、重なりを作る更新を例外にする。 -/
def World.writeStatus (goal : Goal) (previous : PostgresUpgradeStatus) (lost : Option Failure) : World :=
  match w.rows.find? (t.updates previous) with
  | none => w.setStage t.call (t.afterFailure changedConcurrently goal)
  | some row =>
    if goal.next.fenced && w.rows.any fun other => other.id ≠ row.id && other.status.fenced then
      w.setStage t.call (t.afterFailure ⟨"postgres_upgrade_failed",
        "duplicate key value violates unique constraint \"postgres_major_upgrades_cluster_fence_v2_idx\""⟩ goal)
    else
      let committed := goal.apply w.now row
      let w := { w with rows := update (t.updates previous) (goal.apply w.now) w.rows }.record (.committed committed)
      let w := if goal.next = .rollbackRequested then w.record (.accepted row.id) else w
      w.setStage t.call
        (match lost with
          | none => goal.afterCommit
          | some error => t.afterFailure error goal)

def Thread.raised : Stage :=
  match t.stage with
  | .reading goal => t.afterFailure error goal
  | .writing goal _ => t.afterFailure error goal
  | .backup => .reading (.failed error)
  | .spawning action => t.executorFailed error action
  | .rereading _ => .reading (executionFailed error)
  | .validating .. => .reading (t.validationFailed error)
  | .executing action child => .executing action child
  | .preflight | .done => .done

def World.spawn (action : ExecutorAction) : World :=
  ({ w with
    children := { child := w.nextCall, call := t.call, id := t.row.id, action, running := true } :: w.children
    nextCall := w.nextCall + 1 }.record (.started action t.row.id)).setStage t.call (.executing action w.nextCall)

def World.runningChild (child : Nat) : Bool := w.children.any fun c => c.child = child && c.running

/-- `runExecutor` の終わり。出力は、子の過程が終わってからしか返らない。 -/
def World.settle (action : ExecutorAction) (child : Nat) (output : Except Failure ExecutorEvidence) : World :=
  match output with
  | .ok evidence => if w.runningChild child then w else w.setStage t.call (t.executorFinished evidence action)
  | .error error => w.setStage t.call (t.executorFailed error action)

def World.validate (evidence : Option ExecutorEvidence) (scopeSnapshot : Option ScopeSnapshot) (observation : Observation) : World :=
  match validateUpgrade t.row.targetMajor scopeSnapshot observation with
  | .ok validation => (w.record (.validated t.row.id t.row.targetMajor scopeSnapshot)).setStage t.call (.reading (.succeeded evidence validation))
  | .error error => w.setStage t.call (.reading (t.validationFailed error))

def World.resume : Event → World
  | .readStatus _ =>
    match t.stage with
    | .reading goal => w.readStatus t goal
    | _ => w
  | .writeStatus _ lost =>
    match t.stage with
    | .writing goal previous => w.writeStatus t goal previous lost
    | _ => w
  | .raise _ error => w.setStage t.call (t.raised error)
  | .finishPreflight _ checks =>
    match t.stage with
    | .preflight => w.setStage t.call (.reading (.preflightDone (summarizePostgresUpgradePreflight checks)))
    | _ => w
  | .finishBackup _ backupId projects =>
    match t.stage with
    | .backup =>
      (w.record (.backedUp t.row.id backupId)).setStage t.call
        (.reading (.upgradeRunning backupId (buildPostgresUpgradeScopeSnapshot projects)))
    | _ => w
  | .spawn _ =>
    match t.stage with
    | .spawning action => w.spawn t action
    | _ => w
  | .settle _ output =>
    match t.stage with
    | .executing action child => w.settle t action child output
    | _ => w
  | .reread _ =>
    match t.stage with
    | .rereading evidence =>
      match w.find t.row.id with
      | some row => w.setStage t.call (.validating (some evidence) row.scopeSnapshot)
      | none => w.setStage t.call (.reading (executionFailed upgradeNotFound))
    | _ => w
  | .validate _ observation =>
    match t.stage with
    | .validating evidence scopeSnapshot => w.validate t evidence scopeSnapshot observation
    | _ => w
  | .crash _ => w.setStage t.call .done
  | _ => w

def Event.call? : Event → Option Nat
  | .readStatus call | .writeStatus call _ | .raise call _ | .finishPreflight call _ | .finishBackup call .. | .spawn call
  | .settle call _ | .reread call | .validate call _ | .crash call => some call
  | .tick _ | .request .. | .approve .. | .rollback .. | .claim .. | .heartbeat .. | .childExit _ => none

def step (e : Event) : World :=
  match e with
  | .tick elapsed => { w with now := w.now + elapsed }
  | .request requestedProjectRef currentMajor targetMajor => w.request requestedProjectRef currentMajor targetMajor
  | .approve id confirmation requestedRef =>
    w.operate id requestedRef confirmation Upgrade.requiredConfirmation .awaitingApproval fun _ => .backupRunning
  | .rollback id confirmation requestedRef =>
    w.operate id requestedRef confirmation Upgrade.rollbackConfirmation .manualRecoveryRequired fun row =>
      .rollbackRequested row.errorCode row.errorMessage
  | .claim skip lost => w.claim skip lost
  | .heartbeat id token => w.heartbeat id token
  | .childExit child => { w with children := update (fun c => c.child = child) (fun c => { c with running := false }) w.children }
  | e =>
    match e.call?.bind w.thread with
    | some t => w.resume t e
    | none => w

/-! ## 引き上げが守るべきこと -/

def World.started (w : World) (action : ExecutorAction) (id : UpgradeId) : Nat := w.log.count (.started action id)

def World.accepted (w : World) (id : UpgradeId) : Nat := w.log.count (.accepted id)

/-- 全体の控えが済み、その番号と範囲が `upgrade_running` とともに確定している。 -/
def Justified (log : List Entry) (id : UpgradeId) : Prop :=
  ∃ row backupId scopeSnapshot, Entry.committed row ∈ log ∧ row.id = id ∧ row.status = .upgradeRunning ∧
    row.backupId = some backupId ∧ row.scopeSnapshot = some scopeSnapshot ∧ Entry.backedUp id backupId ∈ log

def PostgresUpgradeStatus.terminal : PostgresUpgradeStatus → Bool
  | succeeded | rolledBack | failed | cancelled => true
  | _ => false

/-- 実行は一生に一度、控えのあとにだけ始まり、巻き戻しは受け付けた数を超えず、成功した引き上げは検証を通っている。 -/
structure World.Safe (w : World) : Prop where
  once : ∀ id, w.started .execute id ≤ 1
  justified : ∀ later id earlier, w.log = later ++ .started .execute id :: earlier → Justified earlier id
  rollbacks : ∀ id, w.started .rollback id ≤ w.accepted id
  failed : ∀ row ∈ w.rows, row.status = .failed → w.started .execute row.id = 0
  succeeded : ∀ row ∈ w.rows, row.status = .succeeded → Entry.validated row.id row.targetMajor row.scopeSnapshot ∈ w.log
  single : ∀ a ∈ w.rows, ∀ b ∈ w.rows, a.status.fenced = true → b.status.fenced = true → a = b

def World.Settled (e : Event) : Prop :=
  ∀ row ∈ w.rows, row.status.terminal = true → ∃ row' ∈ (step w e).rows, row'.id = row.id ∧ row'.status = row.status

def World.starts : Event → Option UpgradeId
  | .spawn call =>
    match w.thread call with
    | some t =>
      match t.stage with
      | .spawning _ => some t.row.id
      | _ => none
    | none => none
  | _ => none

/-- 実行器は、同じ引き上げの前の実行器が終わってからしか始まらない。 -/
def World.Apart (e : Event) : Prop :=
  ∀ id, w.starts e = some id → ∀ c ∈ w.children, c.id = id → c.running = false

def World.Quiet (id : UpgradeId) : Prop :=
  (∀ c ∈ w.children, c.id = id → c.running = false) ∧ ∀ t ∈ w.threads, t.row.id = id → ∀ action, t.stage ≠ .spawning action

/-- 実行器の走る間、引き上げは受け持ち直されず、`runExecutor` はあきらめない。 -/
def World.Contained : Event → Prop
  | .claim skip _ =>
    ∀ row ∈ w.rows, row.status = .upgradeRunning ∨ row.status = .rollbackRunning → row.leaseExpiresAt.all (· < w.now) = true →
      row.id ∉ skip → w.Quiet row.id
  | .settle call (.error _) => ∀ c ∈ w.children, c.call = call → c.running = false
  | _ => True

end Supacloud.PostgresUpgrade
