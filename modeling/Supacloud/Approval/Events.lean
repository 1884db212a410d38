import Mathlib.Algebra.GroupWithZero.Nat
import Supacloud.Approval.Runs

/-!
# グラフの承認（sql/011, 012, 018）

版 3 の承認は自分の仕事を持たず、動く節点ごとに版 2 の子の承認を開く。
-/

namespace Supacloud.Approval

open Library

variable (nodes : List GraphNode) (env : Env) (db : Db) (n : GraphNode) (tenant actor : String) (request run : Uuid)

def Db.nodesOf : List GraphNode :=
  db.graphNodes.filter fun n => n.tenant = tenant ∧ n.runId = run

def Db.updateNode (f : GraphNode → GraphNode) : Db :=
  { db with
    graphNodes := update (fun m => m.tenant = n.tenant ∧ m.runId = n.runId ∧ m.key = n.key) f db.graphNodes }

def NodeStatus.settled (s : NodeStatus) : Bool := s = .approved || s = .skipped

def NodeStatus.outcome? : NodeStatus → Option RunStatus
  | .rejected => some .rejected
  | .returned => some .returned
  | .cancelled => some .cancelled
  | .timedOut => some .timedOut
  | .waiting | .running | .approved | .skipped => none

def NodeStatus.ofRun : RunStatus → NodeStatus
  | .pending => .running
  | .approved => .approved
  | .rejected => .rejected
  | .cancelled => .cancelled
  | .timedOut => .timedOut
  | .returned => .returned

def orderByPosition : List GraphNode :=
  nodes.insertionSort (fun a b => a.position ≤ b.position)

def depsSettled : Prop :=
  ∀ dep ∈ n.node.after, ∀ d ∈ nodes, d.key = dep → d.status.settled = true

instance (nodes : List GraphNode) (n : GraphNode) : Decidable (depsSettled nodes n) :=
  inferInstanceAs (Decidable (∀ dep ∈ n.node.after, ∀ d ∈ nodes, d.key = dep → d.status.settled = true))

def depApproved : Prop :=
  ∃ dep ∈ n.node.after, ∃ d ∈ nodes, d.key = dep ∧ d.status = .approved

instance (nodes : List GraphNode) (n : GraphNode) : Decidable (depApproved nodes n) :=
  inferInstanceAs (Decidable (∃ dep ∈ n.node.after, ∃ d ∈ nodes, d.key = dep ∧ d.status = .approved))

def readyNodes : List GraphNode :=
  orderByPosition (nodes.filter fun n => n.status = .waiting ∧ depsSettled nodes n)

def skips : Prop :=
  n.selected = false ∨ (n.node.after ≠ [] ∧ ¬ depApproved nodes n)

instance (nodes : List GraphNode) (n : GraphNode) : Decidable (skips nodes n) :=
  inferInstanceAs (Decidable (_ ∨ _))

/-! ## 子の承認 -/

/-- 割合による定足数は、開くときの担当の数から切り上げて決める。 -/
def nodeQuorum (r : Run) (n : Node) : Except ApprovalError (Option Nat) :=
  match n.quorumPercent with
  | none => pure n.quorum
  | some percent => do
    let resolution ← assignmentResolution env r.tenant r.entityId n.assignment
    pure (some ((resolution.actors.length * percent + 99) / 100))

def childDefinition (subject : String) (n : Node) (quorum : Option Nat) : Definition :=
  .stepped 4 (some subject)
    [{ key := n.key, mode := n.mode, approvers := none, assignment := some n.assignment, timeoutSeconds := n.timeoutSeconds, quorum }]

def childKey (position : Nat) : String := "graph." ++ toString run ++ "." ++ toString position

/-- 節点の子を開く。要求番号は今払い出したものなので、再送にはならない。 -/
def startNode (r : Run) (subject : String) (n : GraphNode) : Except ApprovalError Db := do
  let quorum ← nodeQuorum env r n.node
  let key := childKey r.id n.position
  let db ← insertDefinition db r.tenant key 1 (childDefinition subject n.node quorum)
  let request := db.seed
  let (db, child) ← startBody .v2 env { db with seed := db.seed + 1 } r.tenant r.requester key 1 r.entityId
    r.businessSnapshot
  let db ← saveReceipt db r.tenant request (.start r.requester key 1 r.entityId r.businessSnapshot) child
  let db := db.updateRun child fun row => { row with graphParentId := some r.id }
  pure (db.updateNode n fun m => { m with status := .running, childRunId := some child })

def progressNode (r : Run) (subject : String) (n : GraphNode) : Except ApprovalError Db :=
  if skips (db.nodesOf r.tenant r.id) n then pure (db.updateNode n fun m => { m with status := .skipped })
  else startNode env db r subject n

/-- 内側の繰り返し。進める節点は、繰り返しの始めに選んである。 -/
def progressNodes (env : Env) (r : Run) (subject : String) : List GraphNode → Db → Except ApprovalError Db
  | [], db => pure db
  | n :: rest, db => do
    let db ← progressNode env db r subject n
    progressNodes env r subject rest db

/-- 外側の繰り返し。一巡で待っている節点が少なくとも一つ減るので、節点の数より一つ多く回れば足りる。 -/
def progressLoop (env : Env) (r : Run) (subject : String) : Nat → Db → Except ApprovalError Db
  | 0, db => pure db
  | fuel + 1, db =>
    match readyNodes (db.nodesOf r.tenant r.id) with
    | [] => pure db
    | n :: rest => do
      let db ← progressNodes env r subject (n :: rest) db
      progressLoop env r subject fuel db

/-! ## 全体の進行 -/

def nodeOutcome : Option RunStatus :=
  (orderByPosition nodes).findSome? fun n => n.status.outcome?

def isOpen : Bool := n.status = .waiting || n.status = .running

def graphProgress : Except ApprovalError Db := do
  let r ← fetch (db.findRun tenant run) .notFound
  if r.status ≠ .pending then pure db
  else
    match nodeOutcome (db.nodesOf tenant run) with
    | some outcome => updateStatus db r outcome
    | none =>
      let d ← fetch (db.definitionOf r) .notFound
      let subject ← fetch d.subject .notFound
      let db ← progressLoop env r subject ((db.nodesOf tenant run).length + 1) db
      if (db.nodesOf tenant run).any isOpen then pure db
      else updateStatus db r .approved

def copied : GraphNode :=
  match n.status, n.childRunId.bind (db.findRun n.tenant) with
  | .running, some c => { n with status := NodeStatus.ofRun c.status }
  | _, _ => n

def copyOutcomes : Db :=
  { db with graphNodes := update (fun n => n.tenant = tenant ∧ n.runId = run) (copied db) db.graphNodes }

def bumpIfChanged (next : Db) (run : Uuid) : Db :=
  if next.graphNodes = db.graphNodes then next
  else next.updateRun run fun row => { row with rowVersion := row.rowVersion + 1 }

def reconcileGraph : Except ApprovalError Db :=
  match db.findRun tenant run with
  | none => pure db
  | some r =>
    if r.status ≠ .pending then pure db
    else graphProgress env (bumpIfChanged db (copyOutcomes db tenant run) run) tenant run

def scheduleGraph : Db := scheduleWait db tenant run

def graphTick (token : Option Uuid) :
    Except ApprovalError Db :=
  match db.findRun tenant run with
  | none => pure db
  | some r =>
    if r.status ≠ .pending ∨ r.waitToken ≠ token then pure db
    else if r.deadline ≤ db.clock then updateStatus db r .timedOut
    else do
      let db ← reconcileGraph env db tenant run
      pure (scheduleGraph db tenant run)

/-! ## グラフの開始 -/

def graphRows (tenant : String) (run : Uuid) (facts : Facts) : Nat → List Node → Except ApprovalError (List GraphNode)
  | _, [] => pure []
  | position, n :: rest => do
    require (∀ c ∈ n.whenFact, (facts.lookup c.field).isSome) .graphFactMissing
    let others ← graphRows tenant run facts (position + 1) rest
    pure (⟨tenant, run, n.key, position, n,
      n.choice.isNone || n.whenFact.any (fun c => facts.lookup c.field = some c.equals), .waiting, none⟩ :: others)

def routeGroups : List String → List GraphNode → Except ApprovalError (List GraphNode)
  | [], rows => pure rows
  | choice :: rest, rows => do
    let hits := rows.countP fun n => n.node.choice = some choice ∧ n.selected = true
    require (hits ≤ 1) .ambiguousRoute
    routeGroups rest (update (fun n => n.node.choice = some choice ∧ n.node.isDefault = true)
      (fun n => { n with selected := decide (hits = 0) }) rows)

def rowChoices (rows : List GraphNode) : List String := (rows.filterMap fun n => n.node.choice).dedup

def checkPrevious (previous : Uuid) (expected : Nat) (reason : String) :
    Except ApprovalError Run := do
  let old ← fetch (db.findRun tenant previous) .notFound
  require (old.graphParentId = none) .notFound
  require (old.requester = actor) .notRequester
  require (old.status = .returned) .notReturned
  require (old.rowVersion = expected) .staleVersion
  require (validReason reason = true) .returnReasonRequired
  require (old.reviewRound < 1000 ∧ ∀ x ∈ db.runs, ¬ (x.tenant = tenant ∧ x.previousRunId = some previous))
    .resubmissionConflict
  pure old

/-- 次の回なら、前の回の番号・期待する版・理由が付く。 -/
abbrev Resubmission := Uuid × Nat × String

def graphLineage (previous : Option Resubmission) (r : Run) :
    Except ApprovalError Run :=
  match previous with
  | none => pure r
  | some (run, expected, reason) => do
    let old ← checkPrevious db tenant actor run expected reason
    pure { r with rootRunId := old.rootRunId, previousRunId := some run, reviewRound := old.reviewRound + 1 }

def graphCommand (key : String) (version : Nat) (entity : String) (snapshot : Option Snapshot) :
    Option Resubmission → Command
  | none => .start actor key version entity snapshot
  | some (run, expected, reason) => .resubmit actor run expected snapshot reason

def GraphDefinition.totalSeconds (g : GraphDefinition) : Nat := (g.nodes.map Node.timeoutSeconds).sum

def insertGraph (facts : Facts) (g : GraphDefinition) :
    Except ApprovalError Db := do
  let rows ← graphRows tenant run facts 0 g.nodes
  require ((rows.map GraphNode.key).Nodup ∧ ∀ n ∈ db.graphNodes, ¬ (n.tenant = tenant ∧ n.runId = run))
    .uniqueViolation
  let rows ← routeGroups (rowChoices rows) rows
  pure { db with graphNodes := db.graphNodes ++ rows }

def startGraph (key : String) (version : Nat) (entity : String) (snapshot : Option Snapshot) (previous : Option Resubmission) :
    Except ApprovalError (Db × Uuid) :=
  idempotent db tenant request (graphCommand actor key version entity snapshot previous) do
    require (validIdentity actor = true) .invalidActor
    match db.findDefinition tenant key version with
    | some (.graph g) =>
      let run := db.seed
      let r ← graphLineage db tenant actor previous
        (newRun db tenant key version entity actor g.totalSeconds snapshot 3)
      verifySubject env tenant entity g.subjectResolver snapshot
      let facts ← fetch (env.resolveGraphFacts tenant entity g.subjectResolver) .graphFactsInvalid
      require (validGraphFacts facts = true) .graphFactsInvalid
      let db ← insertRun env db { r with graphFacts := some facts }
      let db ← insertGraph db tenant run facts g
      let db ← graphProgress env (scheduleGraph db tenant run) tenant run
      pure (db, run)
    | _ => throw .graphInvalid

/-! ## 版による振り分けと運用の手続き（sql/003, 004, 011, 013, 018） -/

/-- `p_key LIKE 'graph.%'` -/
def internalKey (key : String) : Bool := "graph.".toList.isPrefixOf key.toList

def start (key : String) (version : Nat) (entity : String) (snapshot : Option Snapshot) : Except ApprovalError (Db × Uuid) := do
  require (internalKey key = false) .internalDefinition
  match db.findDefinition tenant key version with
  | some (.graph _) => startGraph env db tenant actor request key version entity snapshot none
  | some (.stepped 4 _ _) => startV2 env db tenant actor request key version entity snapshot
  | _ => startV1 env db tenant actor request key version entity snapshot

def decide (expected : Nat) (decision : TaskStatus) (reason : String) (snapshot : Option Snapshot) : Except ApprovalError (Db × Uuid) := do
  let r ← fetch (db.findRun tenant run) .notFound
  if r.executionVersion = 2 then decideV2 env db tenant actor request run expected decision reason snapshot
  else decideV1 env db tenant actor request run expected decision reason snapshot

def advance : Except ApprovalError Db := do
  let r ← fetch (db.findRun tenant run) .notFound
  if r.executionVersion = 3 then graphTick env db tenant run r.waitToken
  else if r.executionVersion = 2 then advanceV2 env db tenant run
  else advanceV1 env db tenant run

def resumeWait (token : Uuid) : Except ApprovalError Db :=
  match db.findRun tenant run with
  | none => pure db
  | some r =>
    if r.executionVersion = 3 then graphTick env db tenant run (some token)
    else if r.executionVersion = 2 then resumeWaitV2 env db tenant run token
    else resumeWaitV1 env db tenant run token

def resubmit (expected : Nat) (snapshot : Option Snapshot) (reason : String) : Except ApprovalError (Db × Uuid) := do
  let r ← fetch (db.findRun tenant run) .notFound
  require (r.graphParentId = none) .resubmitGraphRoot
  if r.executionVersion = 3 then
    startGraph env db tenant actor request r.definitionKey r.definitionVersion r.entityId snapshot
      (some (run, expected, reason))
  else resubmitWithoutGraph env db tenant actor request run expected snapshot reason

def markDelivered : Db :=
  { db with
    wakeups := update (fun w => w.tenant = tenant ∧ w.requestId = request)
      (fun w => { w with deliveredAt := some db.clock }) db.wakeups }

/-- グラフへの知らせは突き合わせを起こす。ほかの知らせは、待っている実行に合図するだけである。 -/
def deliverWakeup : Except ApprovalError Db :=
  match db.wakeups.find? fun w => w.tenant = tenant ∧ w.requestId = request with
  | none => pure db
  | some w =>
    if w.deliveredAt.isSome then pure db
    else
      match w.graphRunId with
      | none => pure (markDelivered db tenant request)
      | some run => do
        let db ← reconcileGraph env db tenant run
        pure (markDelivered db tenant request)

def migrateRun (expected targetVersion : Nat) (snapshot : Option Snapshot) (reason : String) : Except ApprovalError (Db × Uuid) :=
  idempotent db tenant request (.migrate actor run expected targetVersion snapshot reason) do
    require (validIdentity actor = true ∧ validReason reason = true) .invalidMigration
    let r ← fetch (db.findRun tenant run) .notFound
    require (r.graphParentId = none) .migrateGraphRoot
    require (r.status = .pending ∧ db.clock < r.deadline) .notPending
    require (r.rowVersion = expected) .staleVersion
    require (targetVersion ≠ r.definitionVersion ∧ (db.findDefinition tenant r.definitionKey targetVersion).isSome)
      .migrationTargetInvalid
    require (env.authorizeMigration tenant run actor targetVersion = true) .migrationForbidden
    let (db, _) ← cancel { db with seed := db.seed + 1 } tenant r.requester db.seed run expected
    let (db, next) ← start env { db with seed := db.seed + 1 } tenant r.requester db.seed r.definitionKey targetVersion
      r.entityId snapshot
    require (∀ m ∈ db.migrations, ¬ (m.tenant = tenant ∧ (m.sourceRunId = run ∨ m.targetRunId = next))) .uniqueViolation
    pure ({ db with migrations := db.migrations ++ [⟨tenant, run, next⟩] }, next)

/-! ## 保守 -/

/-- `df.instances` に実行がないか、終わっている。 -/
def engineEnded : Option Uuid → Bool
  | none => true
  | some e => !(env.engineStatus e = .pending || env.engineStatus e = .running)

def backoff (attempts : Nat) : Nat := seconds (min 3600 (30 * 2 ^ attempts))

def needsRecovery (r : Run) : Bool :=
  r.status = .pending && ((r.deadline ≤ db.clock && r.timeoutFailures < 5 && r.timeoutRetryAfter ≤ db.clock)
    || (db.clock < r.deadline && r.recoveryAttempts < 5 && r.recoveryAfter ≤ db.clock && engineEnded env r.engineId))

def recoveryRuns (limit : Nat) : List Run :=
  ((db.runs.filter fun r => needsRecovery env db r && !env.locked r.id).insertionSort
    (fun a b => a.deadline < b.deadline ∨ (a.deadline = b.deadline ∧ a.id ≤ b.id))).take limit

def recoverRun (r : Run) : Db :=
  let expired := r.deadline ≤ db.clock
  match if expired then advance env db r.tenant r.id else pure (scheduleWait db r.tenant r.id) with
  | .ok next => next.updateRun r.id fun row =>
    { row with
      recoveryAttempts := if expired then row.recoveryAttempts else min 5 (row.recoveryAttempts + 1)
      recoveryAfter := db.clock + backoff r.recoveryAttempts }
  | .error _ => db.updateRun r.id fun row =>
    { row with
      recoveryAttempts := if expired then row.recoveryAttempts else min 5 (row.recoveryAttempts + 1)
      timeoutFailures := if expired then min 5 (row.timeoutFailures + 1) else row.timeoutFailures
      recoveryAfter := db.clock + backoff r.recoveryAttempts
      timeoutRetryAfter := if expired then db.clock + backoff r.timeoutFailures else row.timeoutRetryAfter }

def recoverRuns (env : Env) : List Run → Db → Db
  | [], db => db
  | r :: rest, db => recoverRuns env rest (recoverRun env db r)

def stuckWakeups (limit : Nat) : List Wakeup :=
  (db.wakeups.filter fun w => w.deliveredAt.isNone && w.recoveryAttempts < 5 && w.recoveryAfter ≤ db.clock
    && engineEnded env w.engineId && !env.locked w.requestId).take limit

def recoverWakeups : List Wakeup → Db → Db
  | [], db => db
  | w :: rest, db => recoverWakeups rest { db with
      seed := db.seed + 1
      wakeups := update (fun x => x.tenant = w.tenant ∧ x.requestId = w.requestId)
        (fun x => { x with
          engineId := some db.seed
          recoveryAttempts := x.recoveryAttempts + 1
          recoveryAfter := db.clock + backoff w.recoveryAttempts }) db.wakeups }

def maintenance (limit : Nat) : Except ApprovalError Db := do
  require (1 ≤ limit ∧ limit ≤ 100) .invalidBatch
  let db := recoverRuns env (recoveryRuns env db limit) db
  pure (recoverWakeups (stuckWakeups env db limit) db)

def retryExecution (expectedEngine : Option Uuid) (reason : String) : Except ApprovalError Db := do
  require (validReason reason = true) .recoveryReasonRequired
  let r ← fetch (db.findRun tenant run) .notFound
  require (r.status = .pending ∧ r.engineId = expectedEngine) .recoveryConflict
  let next ←
    if r.deadline ≤ db.clock then advance env db tenant run
    else do
      require (engineEnded env r.engineId = true) .engineStillActive
      pure (scheduleWait db tenant run)
  pure (next.updateRun run fun row =>
    { row with
      recoveryAttempts := 0
      timeoutFailures := 0
      recoveryAfter := db.clock + seconds 30
      timeoutRetryAfter := 0 })

/-! ## 結果の送り箱（sql/002, 003, 018） -/

structure Lease where
  payload : Payload
  leaseToken : Uuid
  leaseUntil : Timestamp
  attempt : Nat

def Db.findOutcome : Option Outcome :=
  db.outcomes.find? fun o => o.tenant = tenant ∧ o.runId = run

/-- `UPDATE approval.outcomes`。引き金が、本文の書き換えと、受け取り済みの行の書き換えを退ける。 -/
def updateOutcome (old new : Outcome) : Except ApprovalError Db := do
  require (new.tenant = old.tenant ∧ new.runId = old.runId ∧ new.payload = old.payload ∧ new.createdAt = old.createdAt)
    .immutableOutcome
  require (old.acknowledgedAt = none ∨ new = old) .acknowledgedOutcome
  pure { db with outcomes := update (fun o => o.tenant = old.tenant ∧ o.runId = old.runId) (fun _ => new) db.outcomes }

def available (o : Outcome) : Prop :=
  o.tenant = tenant ∧ o.acknowledgedAt = none ∧ o.deadLetteredAt = none ∧ o.availableAt ≤ db.clock
    ∧ (∀ u ∈ o.leaseUntil, u ≤ db.clock) ∧ env.locked o.runId = false

instance (env : Env) (db : Db) (tenant : String) (o : Outcome) : Decidable (available env db tenant o) :=
  inferInstanceAs (Decidable (_ ∧ _ ∧ _ ∧ _ ∧ _ ∧ _))

def Outcome.before (a b : Outcome) : Prop :=
  a.availableAt < b.availableAt ∨ (a.availableAt = b.availableAt ∧
    (a.createdAt < b.createdAt ∨ (a.createdAt = b.createdAt ∧ a.runId ≤ b.runId)))

instance : DecidableRel Outcome.before := fun _ _ => inferInstanceAs (Decidable (_ ∨ _))

def nextOutcome : Option Outcome :=
  ((db.outcomes.filter fun o => available env db tenant o).insertionSort Outcome.before).head?

def claimOutcome (leaseSeconds : Nat) :
    Except ApprovalError (Db × Option Lease) := do
  require (validIdentity tenant = true ∧ 1 ≤ leaseSeconds ∧ leaseSeconds ≤ 600) .invalidLease
  match nextOutcome env db tenant with
  | none => pure (db, none)
  | some item =>
    if 10 ≤ item.attempts then
      let db ← updateOutcome db item
        { item with deadLetteredAt := some db.clock, lastErrorCode := some "ATTEMPTS_EXHAUSTED" }
      pure (db, none)
    else
      let token := db.seed
      let leaseUntil := db.clock + seconds leaseSeconds
      let db ← updateOutcome { db with seed := db.seed + 1 } item
        { item with attempts := item.attempts + 1, leaseToken := some token, leaseUntil := some leaseUntil }
      pure (db, some ⟨item.payload, token, leaseUntil, item.attempts + 1⟩)

/-- 今の借りの番号で、期限の前に答えたときだけ受け取る。受け取り済みなら、同じ番号の再送を受け入れる。 -/
def ackOutcome (token : Uuid) : Except ApprovalError Db := do
  let item ← fetch (db.findOutcome tenant run) .staleLease
  require (item.leaseToken = some token) .staleLease
  if item.acknowledgedAt.isSome then pure db
  else
    require (item.deadLetteredAt = none ∧ ∀ u ∈ item.leaseUntil, db.clock < u) .staleLease
    updateOutcome db item { item with acknowledgedAt := some db.clock }

def isErrorCodeChar (c : Char) : Bool := c.isUpper || c.isDigit || c = '_'

/-- `^[A-Z0-9_]{1,80}$` -/
def validErrorCode (s : String) : Bool := validText 80 s && s.toList.all isErrorCodeChar

def nackOutcome (token : Uuid) (errorCode : String) : Except ApprovalError Db := do
  require (validErrorCode errorCode = true) .invalidErrorCode
  let item ← fetch (db.findOutcome tenant run) .staleLease
  require (item.leaseToken = some token ∧ item.acknowledgedAt = none ∧ item.deadLetteredAt = none
    ∧ ∀ u ∈ item.leaseUntil, db.clock < u) .staleLease
  updateOutcome db item
    { item with
      lastErrorCode := some errorCode
      leaseToken := none
      leaseUntil := none
      availableAt := db.clock + backoff item.attempts
      deadLetteredAt := if 10 ≤ item.attempts then some db.clock else none }

def requeueOutcome (reason : String) : Except ApprovalError Db := do
  require (validReason reason = true) .recoveryReasonRequired
  let item ← fetch (db.findOutcome tenant run) .recoveryConflict
  require (item.deadLetteredAt.isSome ∧ item.acknowledgedAt = none) .recoveryConflict
  updateOutcome db item
    { item with
      deadLetteredAt := none
      attempts := 0
      leaseToken := none
      leaseUntil := none
      availableAt := db.clock
      lastErrorCode := none }

/-!
## 出来事と走行

一つの出来事は一つの取引で、例外で終われば何も残らない。順番に決まりはない。
-/

inductive Event where
  | tick (elapsed : Nat)
  | publish (tenant actor : String) (request : Uuid) (key : String) (version : Nat) (definition : Definition)
  | start (env : Env) (tenant actor : String) (request : Uuid) (key : String) (version : Nat) (entity : String)
      (snapshot : Option Snapshot)
  | decide (env : Env) (tenant actor : String) (request run : Uuid) (expected : Nat) (decision : TaskStatus)
      (reason : String) (snapshot : Option Snapshot)
  | taskAction (env : Env) (tenant actor : String) (request run : Uuid) (expected : Nat) (action : TaskAction)
      (target : Option String) (reason : String)
  | returnForChanges (env : Env) (tenant actor : String) (request run : Uuid) (expected : Nat) (reason : String)
  | resubmit (env : Env) (tenant actor : String) (request run : Uuid) (expected : Nat) (snapshot : Option Snapshot)
      (reason : String)
  | cancel (tenant actor : String) (request run : Uuid) (expected : Nat)
  | migrateRun (env : Env) (tenant actor : String) (request run : Uuid) (expected targetVersion : Nat)
      (snapshot : Option Snapshot) (reason : String)
  | resumeWait (env : Env) (tenant : String) (run token : Uuid)
  | advance (env : Env) (tenant : String) (run : Uuid)
  | graphTick (env : Env) (tenant : String) (run : Uuid) (token : Option Uuid)
  | reconcileGraph (env : Env) (tenant : String) (run : Uuid)
  | deliverWakeup (env : Env) (tenant : String) (request : Uuid)
  | maintenance (env : Env) (limit : Nat)
  | retryExecution (env : Env) (tenant : String) (run : Uuid) (expectedEngine : Option Uuid) (reason : String)
  | claimOutcome (env : Env) (tenant : String) (leaseSeconds : Nat)
  | ackOutcome (tenant : String) (run token : Uuid)
  | nackOutcome (tenant : String) (run token : Uuid) (errorCode : String)
  | requeueOutcome (tenant : String) (run : Uuid) (reason : String)

def quiet (x : Except ApprovalError Db) : Except ApprovalError (Db × Option Lease) := x.map fun db => (db, none)

def receipt (x : Except ApprovalError (Db × Uuid)) : Except ApprovalError (Db × Option Lease) :=
  x.map fun r => (r.1, none)

def onGraph (x : Except ApprovalError Db) : Except ApprovalError Db :=
  if (db.findRun tenant run).any fun r => r.executionVersion = 3 then x else pure db

def step : Event → Except ApprovalError (Db × Option Lease)
  | .tick elapsed => .ok ({ db with clock := db.clock + elapsed }, none)
  | .publish tenant actor request key version definition =>
    quiet (publish db tenant actor request key version definition)
  | .start env tenant actor request key version entity snapshot =>
    receipt (start env db tenant actor request key version entity snapshot)
  | .decide env tenant actor request run expected decision reason snapshot =>
    receipt (decide env db tenant actor request run expected decision reason snapshot)
  | .taskAction env tenant actor request run expected action target reason =>
    receipt (taskAction env db tenant actor request run expected action target reason)
  | .returnForChanges env tenant actor request run expected reason =>
    receipt (returnForChanges env db tenant actor request run expected reason)
  | .resubmit env tenant actor request run expected snapshot reason =>
    receipt (resubmit env db tenant actor request run expected snapshot reason)
  | .cancel tenant actor request run expected => receipt (cancel db tenant actor request run expected)
  | .migrateRun env tenant actor request run expected targetVersion snapshot reason =>
    receipt (migrateRun env db tenant actor request run expected targetVersion snapshot reason)
  | .resumeWait env tenant run token => quiet (resumeWait env db tenant run token)
  | .advance env tenant run => quiet (advance env db tenant run)
  | .graphTick env tenant run token => quiet (onGraph db tenant run (graphTick env db tenant run token))
  | .reconcileGraph env tenant run => quiet (onGraph db tenant run (reconcileGraph env db tenant run))
  | .deliverWakeup env tenant request => quiet (deliverWakeup env db tenant request)
  | .maintenance env limit => quiet (maintenance env db limit)
  | .retryExecution env tenant run engine reason => quiet (retryExecution env db tenant run engine reason)
  | .claimOutcome env tenant leaseSeconds => claimOutcome env db tenant leaseSeconds
  | .ackOutcome tenant run token => quiet (ackOutcome db tenant run token)
  | .nackOutcome tenant run token errorCode => quiet (nackOutcome db tenant run token errorCode)
  | .requeueOutcome tenant run reason => quiet (requeueOutcome db tenant run reason)

def commit (e : Event) : Db × Option Lease :=
  match step db e with
  | .ok r => r
  | .error _ => (db, none)

structure Entry where
  before : Db
  event : Event
  lease : Option Lease
  after : Db

def Entry.of (e : Event) : Entry := ⟨db, e, (commit db e).2, (commit db e).1⟩

inductive Trace : List Entry → Db → Prop where
  | empty (clock : Timestamp) (seed : Uuid) : Trace [] (Db.empty clock seed)
  | commit {log db} (e : Event) : Trace log db → Trace (Entry.of db e :: log) (commit db e).1

/-! ## 記録から読む事実 -/

def Entry.accepted (x : Entry) : Prop := ∃ r, step x.before x.event = .ok r

def Surrendered (log : List Entry) (run token : Uuid) : Prop :=
  ∃ x ∈ log, x.accepted ∧ ∃ tenant code, x.event = .nackOutcome tenant run token code

structure HoldsLease (log : List Entry) (db : Db) (l : Lease) : Prop where
  granted : ∃ x ∈ log, x.lease = some l
  unexpired : db.clock < l.leaseUntil
  kept : ¬ Surrendered log l.payload.runId l.leaseToken

end Supacloud.Approval
