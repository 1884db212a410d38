import Supacloud.Approval.Definitions
import Supacloud.Library.Table

/-!
# 承認の進行（sql/001, 002, 005, 006, 007, 008, 011, 018）

段を持つ承認の中核。版 1 と版 2 の違い（仕事の開き方と段の満たし方）は `Core` が持つ。一つの取引は一つの時刻で進む。
-/

namespace Supacloud.Approval

open Library

variable (core : Core) (env : Env) (db : Db) (r : Run) (c : ActionContext) (tenant : String) (run : Uuid)

def Db.findRun : Option Run :=
  db.runs.find? fun r => r.tenant = tenant ∧ r.id = run

def Db.updateRun (f : Run → Run) : Db :=
  { db with runs := update (fun r => r.id = run) f db.runs }

def Definition.schemaVersion : Definition → Nat
  | .stepped v _ _ => v
  | .graph _ => 5

def Definition.subject : Definition → Option String
  | .stepped _ s _ => s
  | .graph g => some g.subjectResolver

def Definition.steps : Definition → List Step
  | .stepped _ _ steps => steps
  | .graph _ => []

def Db.definitionOf : Option Definition :=
  db.findDefinition r.tenant r.definitionKey r.definitionVersion

def Task.at (t : Task) (tenant : String) (run : Uuid) (step : Nat) : Prop :=
  t.tenant = tenant ∧ t.runId = run ∧ t.stepIndex = step

instance (t : Task) (tenant : String) (run : Uuid) (step : Nat) : Decidable (t.at tenant run step) :=
  inferInstanceAs (Decidable (_ ∧ _ ∧ _))

def Db.stepTasks (step : Nat) : List Task :=
  db.tasks.filter fun t => t.at tenant run step

def Db.findAssignment (step : Nat) : Option Assignment :=
  db.assignments.find? fun a => a.tenant = tenant ∧ a.runId = run ∧ a.stepIndex = step

def Db.claimant (step : Nat) : Option String :=
  (db.taskClaims.find? fun c => c.tenant = tenant ∧ c.runId = run ∧ c.stepIndex = step).map TaskClaim.actor

def replay (request : Uuid) (command : Command) :
    Except ApprovalError (Option Uuid) := do
  require (validIdentity tenant = true) .invalidIdentity
  match db.receipts.find? fun r => r.tenant = tenant ∧ r.requestId = request with
  | some saved =>
    require (saved.command = command) .idempotencyConflict
    pure (some saved.runId)
  | none => pure none

def saveReceipt (request : Uuid) (command : Command) (run : Uuid) :
    Except ApprovalError Db := do
  require (∀ r ∈ db.receipts, ¬ (r.tenant = tenant ∧ r.requestId = request)) .uniqueViolation
  pure { db with receipts := db.receipts ++ [⟨tenant, request, command, run⟩] }

def idempotent (request : Uuid) (command : Command) (body : Except ApprovalError (Db × Uuid)) : Except ApprovalError (Db × Uuid) := do
  match ← replay db tenant request command with
  | some run => pure (db, run)
  | none =>
    let (db, run) ← body
    let db ← saveReceipt db tenant request command run
    pure (db, run)

def scheduleWait : Db :=
  match db.findRun tenant run with
  | none => db
  | some r =>
    if r.status ≠ .pending then db
    else
      { db with seed := db.seed + 2 }.updateRun run fun r =>
        { r with waitToken := some db.seed, engineId := some (db.seed + 1) }

def insertWakeup (w : Wakeup) : Except ApprovalError Db := do
  require (∀ x ∈ db.wakeups, ¬ (x.tenant = w.tenant ∧ x.requestId = w.requestId)) .uniqueViolation
  pure { db with wakeups := db.wakeups ++ [w] }

def enqueueWakeup (request run : Uuid) (target : Option Uuid) :
    Except ApprovalError Db :=
  insertWakeup { db with seed := db.seed + 1 }
    { tenant, requestId := request, runId := run, engineId := some db.seed, targetEngineId := target, graphRunId := none,
      deliveredAt := none, recoveryAttempts := 0, recoveryAfter := db.clock }

/-! ## 状態の列の引き金 -/

def outcomePayload : Payload :=
  { tenant := r.tenant, runId := r.id, entityId := r.entityId, definitionKey := r.definitionKey,
    definitionVersion := r.definitionVersion, status := r.status, rowVersion := r.rowVersion, round := r.reviewRound,
    rootRunId := r.rootRunId, executionVersion := r.executionVersion, businessSnapshot := r.businessSnapshot }

def newOutcome : Outcome :=
  { tenant := r.tenant, runId := r.id, payload := outcomePayload r, createdAt := db.clock, availableAt := db.clock,
    attempts := 0, leaseToken := none, leaseUntil := none, acknowledgedAt := none, deadLetteredAt := none,
    lastErrorCode := none }

def emitOutcome (new : Run) : Except ApprovalError Db := do
  if new.graphParentId.isSome then pure db
  else
    require (∀ o ∈ db.outcomes, ¬ (o.tenant = new.tenant ∧ o.runId = new.id)) .uniqueViolation
    pure { db with outcomes := db.outcomes ++ [newOutcome db new] }

def graphChildOutcome (new : Run) : Except ApprovalError Db :=
  match new.graphParentId with
  | none => pure db
  | some parent =>
    insertWakeup { db with seed := db.seed + 2 }
      { tenant := new.tenant, requestId := db.seed, runId := parent, engineId := some (db.seed + 1),
        targetEngineId := (db.findRun new.tenant parent).bind Run.engineId, graphRunId := some parent,
        deliveredAt := none, recoveryAttempts := 0, recoveryAfter := db.clock }

/-- `UPDATE approval.runs SET status = s, row_version = row_version + 1` と、その後の引き金。 -/
def updateStatusWith (terminal : Db → Run → Except ApprovalError Db) (db : Db) (r : Run) (s : RunStatus) :
    Except ApprovalError Db := do
  let new := { r with status := s, rowVersion := r.rowVersion + 1 }
  let db := db.updateRun r.id fun row => { row with status := s, rowVersion := row.rowVersion + 1 }
  let db ← graphChildOutcome db new
  let db ← terminal db new
  emitOutcome db new

def cancelTasks : Db :=
  { db with
    tasks := update (fun t => t.tenant = tenant ∧ t.runId = run ∧ t.status = .pending)
      (fun t => { t with status := .cancelled }) db.tasks }

def cancelChildren : List Run → Db → Except ApprovalError Db
  | [], db => pure db
  | child :: rest, db => do
    let db ← updateStatusWith (fun db _ => pure db) db child .cancelled
    let db := cancelTasks db child.tenant child.id
    let db ← enqueueWakeup { db with seed := db.seed + 1 } child.tenant db.seed child.id child.engineId
    cancelChildren rest db

def pendingChildren : List Run :=
  (db.runs.filter fun c => c.tenant = r.tenant ∧ c.graphParentId = some r.id ∧ c.status = .pending).insertionSort
    (fun a b => a.id ≤ b.id)

def graphTerminal (new : Run) : Except ApprovalError Db := do
  if new.executionVersion ≠ 3 then pure db
  else
    let db := { db with
      graphNodes := update (fun n => n.tenant = new.tenant ∧ n.runId = new.id ∧ n.status = .waiting)
        (fun n => { n with status := .cancelled }) db.graphNodes }
    let db ← cancelChildren (pendingChildren db new) db
    enqueueWakeup { db with seed := db.seed + 1 } new.tenant db.seed new.id new.engineId

def updateStatus (s : RunStatus) : Except ApprovalError Db :=
  updateStatusWith graphTerminal db r s

def finish (s : RunStatus) : Except ApprovalError Db := do
  let db ← updateStatus db r s
  pure (cancelTasks db r.tenant r.id)

/-! ## 業務の写し -/

def verifySubject (entity resolver : String) (expected : Option Snapshot) :
    Except ApprovalError Unit := do
  let expected ← fetch expected .invalidSnapshot
  require (validBusinessSnapshot expected = true) .invalidSnapshot
  let actual ← fetch (env.resolveSubject tenant entity resolver) .subjectResolutionInvalid
  require (validBusinessSnapshot actual = true) .subjectResolutionInvalid
  require (actual = expected) .subjectChanged

/-- 挿し入れの前の引き金。版 3 以上の定義では、業務の写しを確かめて結び付ける。 -/
def protectSubject : Except ApprovalError Run := do
  let d ← fetch (db.definitionOf r) .notFound
  if 3 ≤ d.schemaVersion then
    let resolver ← fetch d.subject .checkViolation
    verifySubject env r.tenant r.entityId resolver r.businessSnapshot
    pure { r with subjectResolver := some resolver }
  else
    require (r.businessSnapshot = none) .snapshotUnsupported
    pure r

/-! ## 承認の開始 -/

inductive Core where
  | v1 | v2

def Core.version : Core → Nat
  | .v1 => 1
  | .v2 => 2

def newRun (key : String) (version : Nat) (entity requester : String) (timeout : Nat) (snapshot : Option Snapshot)
    (executionVersion : Nat) : Run :=
  { id := db.seed, tenant, definitionKey := key, definitionVersion := version, entityId := entity, requester,
    status := .pending, stepIndex := 0, rowVersion := 1, deadline := db.clock + seconds timeout, engineId := none,
    waitToken := none, recoveryAttempts := 0, recoveryAfter := db.clock, timeoutFailures := 0, timeoutRetryAfter := 0,
    businessSnapshot := snapshot, subjectResolver := none, executionVersion, rootRunId := db.seed,
    previousRunId := none, reviewRound := 1, graphParentId := none, graphFacts := none }

def insertRun : Except ApprovalError Db := do
  let r ← protectSubject env db r
  require (validText 256 r.entityId = true ∧ validIdentity r.requester = true ∧ r.reviewRound ≤ 1000) .checkViolation
  require (∀ x ∈ db.runs, ¬ (x.tenant = r.tenant ∧ x.definitionKey = r.definitionKey ∧ x.entityId = r.entityId
    ∧ x.status = .pending)) .uniqueViolation
  require (∀ x ∈ db.runs, ¬ (x.tenant = r.tenant ∧ x.rootRunId = r.rootRunId ∧ x.reviewRound = r.reviewRound))
    .uniqueViolation
  require (r.previousRunId.isNone ∨ ∀ x ∈ db.runs, ¬ (x.tenant = r.tenant ∧ x.previousRunId = r.previousRunId))
    .uniqueViolation
  pure { db with seed := db.seed + 1, runs := db.runs ++ [r] }

def assignmentResolution (entity : String) (rule : Rule) : Except ApprovalError Resolution := do
  let resolution ← fetch (env.resolveAssignment tenant entity rule) .assignmentResolutionInvalid
  require (validAssignmentResolution resolution = true) .assignmentResolutionInvalid
  pure resolution

def quorumReachable (step : Step) (actors : List String) : Bool :=
  match core with
  | .v1 => true
  | .v2 => step.mode ≠ .quorum || step.quorum.all (fun q => q ≤ actors.length)

def Core.resolves (schemaVersion : Nat) : Bool :=
  match core with
  | .v1 => schemaVersion = 2 || schemaVersion = 3
  | .v2 => schemaVersion = 2 || schemaVersion = 3 || schemaVersion = 4

def insertTasks (step : Nat) (actors : List String) :
    Except ApprovalError Db := do
  require (actors.Nodup ∧ ∀ t ∈ db.tasks, t.at tenant run step → t.actor ∉ actors) .uniqueViolation
  pure { db with tasks := db.tasks ++ actors.map fun actor => ⟨tenant, run, step, actor, .pending, none⟩ }

def insertAssignment (step : Nat) (rule : Rule) (resolution : Resolution) :
    Except ApprovalError Db := do
  require (db.findAssignment tenant run step = none) .uniqueViolation
  pure { db with assignments := db.assignments ++ [⟨tenant, run, step, rule, resolution⟩] }

def openTasks : Except ApprovalError Db := do
  let r ← fetch (db.findRun tenant run) .notFound
  let d ← fetch (db.definitionOf r) .notFound
  let step ← fetch d.steps[r.stepIndex]? .notFound
  if core.resolves d.schemaVersion then
    let rule ← fetch step.assignment .assignmentResolutionInvalid
    let resolution ← assignmentResolution env tenant r.entityId rule
    require (quorumReachable core step resolution.actors = true) .quorumUnreachable
    require (r.requester ∉ resolution.actors) .makerChecker
    let db ← insertAssignment db tenant run r.stepIndex rule resolution
    insertTasks db tenant run r.stepIndex resolution.actors
  else
    insertTasks db tenant run r.stepIndex (step.approvers.getD [])

def notApprover (d : Definition) (actor : String) : Prop :=
  ∀ s ∈ d.steps, actor ∉ s.approvers.getD []

instance (d : Definition) (actor : String) : Decidable (notApprover d actor) :=
  inferInstanceAs (Decidable (∀ s ∈ d.steps, actor ∉ s.approvers.getD []))

def startBody (actor key : String) (version : Nat) (entity : String) (snapshot : Option Snapshot) : Except ApprovalError (Db × Uuid) := do
  require (validIdentity actor = true) .invalidActor
  let d ← fetch (db.findDefinition tenant key version) .definitionNotFound
  require (notApprover d actor) .makerChecker
  let first ← fetch d.steps.head? .checkViolation
  let run := db.seed
  let db ← insertRun env db (newRun db tenant key version entity actor first.timeoutSeconds snapshot core.version)
  let db ← openTasks core env db tenant run
  pure (scheduleWait db tenant run, run)

def startCore (actor : String) (request : Uuid) (key : String) (version : Nat) (entity : String) (snapshot : Option Snapshot) : Except ApprovalError (Db × Uuid) :=
  idempotent db tenant request (.start actor key version entity snapshot)
    (startBody core env db tenant actor key version entity snapshot)

def startV1 := startCore .v1
def startV2 := startCore .v2

/-! ## 段の進行 -/

/-- 段が満たされたか。版 1 の「全員」は、残りがないことだけを見る。 -/
def Core.satisfied (step : Step) (approved remaining : Nat) : Bool :=
  match core with
  | .v1 => 0 < approved && (step.mode = .any || remaining = 0)
  | .v2 => 0 < approved && (step.mode = .any || step.mode = .claim || (step.mode = .all && remaining = 0)
      || (step.mode = .quorum && step.quorum.any (fun q => q ≤ approved)))

def cancelStepTasks (step : Nat) : Db :=
  { db with
    tasks := update (fun t => t.at tenant run step ∧ t.status = .pending) (fun t => { t with status := .cancelled })
      db.tasks }

def openNextStep (next : Step) : Except ApprovalError Db := do
  let db := db.updateRun r.id fun row =>
    { row with
      stepIndex := r.stepIndex + 1
      rowVersion := row.rowVersion + 1
      deadline := db.clock + seconds next.timeoutSeconds }
  let db ← openTasks core env db r.tenant r.id
  pure (scheduleWait db r.tenant r.id)

/-- 決定を数え、満たされた段を進める。期限の前に受け付けた決定は、遅れて働いても有効である。 -/
def advanceCore : Except ApprovalError Db := do
  let r ← fetch (db.findRun tenant run) .notFound
  if r.status ≠ .pending then pure db
  else
    let d ← fetch (db.definitionOf r) .notFound
    let step ← fetch d.steps[r.stepIndex]? .notFound
    let ts := db.stepTasks tenant run r.stepIndex
    let approved := ts.countP (·.status = .approved)
    let remaining := ts.countP (·.status = .pending)
    if ts.any (·.status = .rejected) then finish db r .rejected
    else if core.satisfied step approved remaining then
      let db := cancelStepTasks db tenant run r.stepIndex
      match d.steps[r.stepIndex + 1]? with
      | none => finish db r .approved
      | some next => openNextStep core env db r next
    else if r.deadline ≤ db.clock then finish db r .timedOut
    else pure db

def advanceV1 := advanceCore .v1
def advanceV2 := advanceCore .v2

def resumeWaitCore (token : Uuid) :
    Except ApprovalError Db :=
  match db.findRun tenant run with
  | none => pure db
  | some r =>
    -- 前の段の待ち、重なった実行、取り替えられた待ちは、この段に触れない
    if r.status ≠ .pending ∨ r.waitToken ≠ some token then pure db
    else if r.deadline ≤ db.clock then advanceCore core env db tenant run
    else pure (scheduleWait db tenant run)

def resumeWaitV1 := resumeWaitCore .v1
def resumeWaitV2 := resumeWaitCore .v2

/-! ## 決定 -/

def taskDecisionGuard (t : Task) : Except ApprovalError Unit := do
  if r.executionVersion ≠ 2 then pure ()
  else
    let mode := ((db.definitionOf r).bind fun d => d.steps[t.stepIndex]?).map Step.mode
    require (mode = some .claim → db.claimant t.tenant t.runId t.stepIndex = some t.actor) .taskNotClaimed
    require (∀ g ∈ db.taskDelegations, ¬ (g.tenant = t.tenant ∧ g.runId = t.runId ∧ g.stepIndex = t.stepIndex
      ∧ g.ownerActor = t.actor ∧ g.resolvedAt = none)) .delegationPending

def checkTaskEligibility (t : Task) : Except ApprovalError Unit :=
  match db.findAssignment t.tenant t.runId t.stepIndex with
  | none => pure ()
  | some a => do
    let resolution ← assignmentResolution env r.tenant r.entityId a.rule
    require (t.actor ∈ resolution.actors) .actorIneligible

def decideTask (actor : String) (decision : TaskStatus) : Except ApprovalError Db := do
  let t ← fetch (db.tasks.find? fun t => t.at r.tenant r.id r.stepIndex ∧ t.actor = actor ∧ t.status = .pending)
    .actorNotAssigned
  taskDecisionGuard db r t
  checkTaskEligibility env db r t
  pure { db with
    tasks := update (fun t => t.at r.tenant r.id r.stepIndex ∧ t.actor = actor ∧ t.status = .pending)
      (fun t => { t with status := decision, decidedAt := some db.clock }) db.tasks }

def validDecision (decision : TaskStatus) (reason : String) : Bool :=
  (decision = .approved || (decision = .rejected && btrimLength reason ≠ 0)) && reason.length ≤ 4000

def verifyDecisionSnapshot (snapshot : Option Snapshot) : Except ApprovalError Unit :=
  match r.businessSnapshot with
  | some saved => do
    require (snapshot = some saved) .snapshotMismatch
    verifySubject env r.tenant r.entityId (r.subjectResolver.getD "") (some saved)
  | none => require (snapshot = none) .snapshotUnsupported

def wakeAfterDecision (request : Uuid) : Except ApprovalError Db :=
  if db.runs.any fun x => x.id = r.id && (x.status ≠ .pending || x.stepIndex ≠ r.stepIndex) then
    enqueueWakeup db r.tenant request r.id r.engineId
  else pure db

def decideCore (actor : String) (request run : Uuid) (expected : Nat) (decision : TaskStatus) (reason : String)
    (snapshot : Option Snapshot) : Except ApprovalError (Db × Uuid) :=
  idempotent db tenant request (.decide actor run expected decision reason snapshot) do
    require (validDecision decision reason = true) .invalidDecision
    let r ← fetch (db.findRun tenant run) .notFound
    require (r.status = .pending ∧ db.clock < r.deadline) .notPending
    require (r.rowVersion = expected) .staleVersion
    verifyDecisionSnapshot env r snapshot
    let db ← decideTask env db r actor decision
    let db := db.updateRun run fun row => { row with rowVersion := row.rowVersion + 1 }
    let db ← advanceCore core env db tenant run
    let db ← wakeAfterDecision db r request
    pure (db, run)

def decideV1 := decideCore .v1
def decideV2 := decideCore .v2

/-! ## 取り消しと差し戻し -/

def cancel (db : Db) (tenant actor : String) (request run : Uuid) (expected : Nat) :
    Except ApprovalError (Db × Uuid) := do
  let _ ← fetch (db.findRun tenant run) .notFound
  idempotent db tenant request (.cancel actor run expected) do
    let r ← fetch (db.findRun tenant run) .notFound
    require (actor = r.requester) .notRequester
    require (r.status = .pending ∧ db.clock < r.deadline) .notPending
    require (r.rowVersion = expected) .staleVersion
    let db ← finish db r .cancelled
    let db ← enqueueWakeup db tenant request run r.engineId
    pure (db, run)

def hasPendingTask (step : Nat) (actor : String) : Prop :=
  ∃ t ∈ db.tasks, t.at tenant run step ∧ t.actor = actor ∧ t.status = .pending

instance (db : Db) (tenant : String) (run : Uuid) (step : Nat) (actor : String) :
    Decidable (hasPendingTask db tenant run step actor) :=
  inferInstanceAs (Decidable (∃ t ∈ db.tasks, _))

def Db.stepMode : Option Mode :=
  ((db.definitionOf r).bind fun d => d.steps[r.stepIndex]?).map Step.mode

def returnForChanges (actor : String) (request run : Uuid) (expected : Nat) (reason : String) : Except ApprovalError (Db × Uuid) :=
  idempotent db tenant request (.returned actor run expected reason) do
    require (validReason reason = true) .returnReasonRequired
    let r ← fetch (db.findRun tenant run) .notFound
    require (r.status = .pending ∧ db.clock < r.deadline) .notPending
    require (r.rowVersion = expected) .staleVersion
    require (hasPendingTask db tenant run r.stepIndex actor) .actorNotAssigned
    require (r.executionVersion = 2 → db.stepMode r = some .claim → db.claimant tenant run r.stepIndex = some actor) .taskNotClaimed
    match db.findAssignment tenant run r.stepIndex with
    | none => pure ()
    | some a =>
      let resolution ← assignmentResolution env tenant r.entityId a.rule
      require (actor ∈ resolution.actors) .actorIneligible
    let db ← finish db r .returned
    let db ← enqueueWakeup db tenant request run r.engineId
    pure (db, run)

def resubmitWithoutGraph (actor : String) (request run : Uuid) (expected : Nat) (snapshot : Option Snapshot) (reason : String) : Except ApprovalError (Db × Uuid) :=
  idempotent db tenant request (.resubmit actor run expected snapshot reason) do
    require (validReason reason = true) .returnReasonRequired
    let old ← fetch (db.findRun tenant run) .notFound
    require (actor = old.requester) .notRequester
    require (old.status = .returned) .notReturned
    require (old.rowVersion = expected) .staleVersion
    require (old.reviewRound < 1000 ∧ ∀ x ∈ db.runs, ¬ (x.tenant = tenant ∧ x.previousRunId = some run))
      .resubmissionConflict
    let d ← fetch (db.findDefinition tenant old.definitionKey old.definitionVersion) .notFound
    require (notApprover d actor) .makerChecker
    let first ← fetch d.steps.head? .checkViolation
    let next := db.seed
    let fresh := newRun db tenant old.definitionKey old.definitionVersion old.entityId actor first.timeoutSeconds snapshot
      old.executionVersion
    let db ← insertRun env db
      { fresh with rootRunId := old.rootRunId, previousRunId := some run, reviewRound := old.reviewRound + 1 }
    let db ← openTasks (if old.executionVersion = 2 then .v2 else .v1) env db tenant next
    pure (scheduleWait db tenant next, next)

/-! ## 仕事の受け渡し（sql/018 の task_action） -/

structure ActionContext where
  run : Run
  mode : Option Mode
  resolution : Resolution
  actor : String
  hasTask : Bool
  claimant : Option String

def ActionContext.onStep (t : Task) : Prop := t.at c.run.tenant c.run.id c.run.stepIndex

instance (c : ActionContext) (t : Task) : Decidable (c.onStep t) := inferInstanceAs (Decidable (t.at _ _ _))

def ActionContext.delegated (owner : String) (g : TaskDelegation) : Prop :=
  g.tenant = c.run.tenant ∧ g.runId = c.run.id ∧ g.stepIndex = c.run.stepIndex ∧ g.ownerActor = owner

instance (c : ActionContext) (owner : String) (g : TaskDelegation) : Decidable (c.delegated owner g) :=
  inferInstanceAs (Decidable (_ ∧ _ ∧ _ ∧ _))

def claimTask : Except ApprovalError Db := do
  require (c.actor ∈ c.resolution.actors) .actorIneligible
  require (c.claimant = none) .alreadyClaimed
  pure { db with taskClaims := db.taskClaims ++ [⟨c.run.tenant, c.run.id, c.run.stepIndex, c.actor⟩] }

def TaskClaim.on (x : TaskClaim) (r : Run) : Prop :=
  x.tenant = r.tenant ∧ x.runId = r.id ∧ x.stepIndex = r.stepIndex

instance (x : TaskClaim) (r : Run) : Decidable (x.on r) := inferInstanceAs (Decidable (_ ∧ _ ∧ _))

def releaseTask : Except ApprovalError Db := do
  require (c.claimant = some c.actor) .taskNotClaimed
  require (∀ g ∈ db.taskDelegations, ¬ (c.delegated c.actor g ∧ g.resolvedAt = none)) .delegationPending
  pure { db with taskClaims := db.taskClaims.filter fun x => ¬ x.on c.run }

def resolveTask (owner : String) : Except ApprovalError Db := do
  require (c.actor ∈ c.resolution.actors) .actorIneligible
  require (∃ g ∈ db.taskDelegations, c.delegated owner g ∧ g.delegateActor = c.actor ∧ g.resolvedAt = none)
    .delegationNotFound
  pure { db with
    taskDelegations := update
      (fun g => c.delegated owner g ∧ g.delegateActor = c.actor ∧ g.resolvedAt = none)
      (fun g => { g with resolvedAt := some db.clock }) db.taskDelegations }

def delegateTask (target : String) : Except ApprovalError Db :=
  pure { db with
    taskDelegations := db.taskDelegations ++ [⟨c.run.tenant, c.run.id, c.run.stepIndex, c.actor, target, none⟩] }

def transferClaim (target : String) : Except ApprovalError Db := do
  require (hasPendingTask db c.run.tenant c.run.id c.run.stepIndex target) .targetNotCandidate
  pure { db with taskClaims := update (fun x => x.on c.run) (fun x => { x with actor := target }) db.taskClaims }

def cancelOwnTask : Db :=
  { db with
    tasks := update (fun t => c.onStep t ∧ t.actor = c.actor ∧ t.status = .pending)
      (fun t => { t with status := .cancelled }) db.tasks }

def assignTask (transfers : Bool) (target : String) : Except ApprovalError Db := do
  require (∀ t ∈ db.tasks, ¬ (c.onStep t ∧ t.actor = target)) .targetAlreadyAssigned
  require ((db.stepTasks c.run.tenant c.run.id c.run.stepIndex).length < 50) .taskLimit
  let db := if transfers then cancelOwnTask db c else db
  pure { db with tasks := db.tasks ++ [⟨c.run.tenant, c.run.id, c.run.stepIndex, target, .pending, none⟩] }

def checkTaskChange (action : TaskAction) (target : String) :
    Except ApprovalError Unit := do
  let allowed := env.authorizeTaskChange c.run.tenant c.run.id c.actor action target
  if action = .add then
    require (c.mode = some .all ∧ allowed = true) .taskChangeForbidden
  else
    require ((c.hasTask = true ∧ c.actor ∈ c.resolution.actors) ∨ allowed = true) .taskChangeForbidden
    require (c.hasTask = true) .actorNotAssigned
    require (c.mode = some .claim → c.claimant = some c.actor) .taskNotClaimed
    require (∀ g ∈ db.taskDelegations, ¬ c.delegated c.actor g) .delegationConflict

def changeTask (action : TaskAction) (target : Option String) :
    Except ApprovalError Db := do
  let target ← fetch target .invalidTaskTarget
  require (validIdentity target = true ∧ target ≠ c.actor ∧ target ≠ c.run.requester) .invalidTaskTarget
  require (target ∈ c.resolution.actors) .targetIneligible
  checkTaskChange env db c action target
  if action = .delegate then delegateTask db c target
  else if c.mode = some .claim ∧ action = .transfer then transferClaim db c target
  else assignTask db c (action = .transfer) target

def performAction (action : TaskAction) (target : Option String) :
    Except ApprovalError Db :=
  match action with
  | .claim => do
    require (target = none ∧ c.mode = some .claim ∧ c.hasTask = true) .invalidClaim
    claimTask db c
  | .release => do
    require (target = none ∧ c.mode = some .claim ∧ c.hasTask = true) .invalidClaim
    releaseTask db c
  | .resolve => do
    let owner ← fetch target .invalidTaskTarget
    resolveTask db c owner
  | .transfer | .delegate | .add => changeTask env db c action target

def taskAction (env : Env) (db : Db) (tenant actor : String) (request run : Uuid) (expected : Nat)
    (action : TaskAction) (target : Option String) (reason : String) : Except ApprovalError (Db × Uuid) :=
  idempotent db tenant request (.taskAction actor run expected action target reason) do
    require (validIdentity actor = true ∧ validReason reason = true) .invalidTaskAction
    let r ← fetch (db.findRun tenant run) .notFound
    require (r.executionVersion = 2) .taskActionUnsupported
    require (r.status = .pending ∧ db.clock < r.deadline) .notPending
    require (r.rowVersion = expected) .staleVersion
    let a ← fetch (db.findAssignment tenant run r.stepIndex) .notFound
    let resolution ← assignmentResolution env tenant r.entityId a.rule
    let c : ActionContext :=
      { run := r, mode := db.stepMode r, resolution, actor,
        hasTask := hasPendingTask db tenant run r.stepIndex actor, claimant := db.claimant tenant run r.stepIndex }
    let db ← performAction env db c action target
    pure (db.updateRun run fun row => { row with rowVersion := row.rowVersion + 1 }, run)

end Supacloud.Approval
