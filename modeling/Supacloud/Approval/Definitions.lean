import Mathlib.Data.List.Sort
import Supacloud.Library.Checked

/-!
# 承認の表と行（packages/approval/sql, packages/approval/src/durable.ts, packages/approval/src/graph.ts）

時刻は百万分の一秒の数、識別子（uuid）は払い出した順の番号とする。どの手続きの判断にも使われない notices、events、
receipt と reason の本文は持たない。
-/

namespace Supacloud.Approval

abbrev Uuid := Nat
abbrev Timestamp := Nat

/-- `make_interval(secs => n)` -/
def seconds (n : Nat) : Nat := n * 1000000

inductive RunStatus where
  | pending | approved | rejected | cancelled | timedOut | returned
  deriving DecidableEq

inductive TaskStatus where
  | pending | approved | rejected | cancelled
  deriving DecidableEq

inductive NodeStatus where
  | waiting | running | approved | rejected | returned | cancelled | timedOut | skipped
  deriving DecidableEq

inductive Mode where
  | all | any | claim | quorum
  deriving DecidableEq

inductive TaskAction where
  | claim | release | transfer | delegate | resolve | add
  deriving DecidableEq

/-- `RAISE EXCEPTION` の符号。`uniqueViolation` と `checkViolation` は、表の制約に反したときの例外である。 -/
inductive ApprovalError where
  | notFound | invalidIdentity | invalidActor | idempotencyConflict | definitionInvalid | definitionVersionConflict
  | definitionNotFound | duplicateStep | quorumInvalid | quorumUnreachable | internalDefinition | makerChecker
  | assignmentResolutionInvalid | invalidSnapshot | subjectResolutionInvalid | subjectChanged | snapshotMismatch
  | snapshotUnsupported | invalidDecision | notPending | staleVersion | actorNotAssigned | actorIneligible
  | taskNotClaimed | delegationPending | notRequester | returnReasonRequired | notReturned | resubmissionConflict
  | resubmitGraphRoot | invalidTaskAction | taskActionUnsupported | invalidClaim | alreadyClaimed | invalidTaskTarget
  | delegationNotFound | targetIneligible | taskChangeForbidden | delegationConflict | targetNotCandidate
  | targetAlreadyAssigned | taskLimit | graphInvalid | duplicateNode | graphDependencyInvalid | choiceInvalid
  | graphCycle | graphFactsInvalid | graphFactMissing | ambiguousRoute | invalidMigration | migrateGraphRoot
  | migrationTargetInvalid | migrationForbidden | invalidBatch | recoveryReasonRequired | recoveryConflict
  | engineStillActive | invalidLease | staleLease | invalidErrorCode | acknowledgedOutcome | immutableOutcome
  | uniqueViolation | checkViolation

/-! ## 値 -/

structure Rule where
  resolver : String
  scope : String
  deriving DecidableEq

structure Resolution where
  actors : List String
  revision : String

structure Snapshot where
  revision : String
  sha256 : String
  deriving DecidableEq

/-- 分岐の条件が比べる値。JavaScript の `===` と jsonb の `=` は、この範囲の値では同じ等しさになる。 -/
inductive Scalar where
  | null
  | boolean (value : Bool)
  | number (value : Rat)
  | string (value : String)
  deriving DecidableEq

/-- JSON の対象。鍵は重ならない（`validGraphFacts`）。 -/
abbrev Facts := List (String × Scalar)

structure Step where
  key : String
  mode : Mode
  approvers : Option (List String)
  assignment : Option Rule
  timeoutSeconds : Nat
  quorum : Option Nat
  deriving DecidableEq

structure Condition where
  field : String
  equals : Scalar
  deriving DecidableEq

structure Node where
  key : String
  after : List String
  mode : Mode
  assignment : Rule
  timeoutSeconds : Nat
  quorum : Option Nat
  quorumPercent : Option Nat
  choice : Option String
  whenFact : Option Condition
  isDefault : Bool
  deriving DecidableEq

structure GraphDefinition where
  subjectResolver : String
  nodes : List Node
  deriving DecidableEq

inductive Definition where
  | stepped (schemaVersion : Nat) (subjectResolver : Option String) (steps : List Step)
  | graph (definition : GraphDefinition)
  deriving DecidableEq

/-! ## 表 -/

structure DefinitionRow where
  tenant : String
  key : String
  version : Nat
  definition : Definition

structure Publication where
  tenant : String
  requestId : Uuid
  actor : String
  definitionKey : String
  definitionVersion : Nat
  definition : Definition

structure Run where
  id : Uuid
  tenant : String
  definitionKey : String
  definitionVersion : Nat
  entityId : String
  requester : String
  status : RunStatus
  stepIndex : Nat
  rowVersion : Nat
  deadline : Timestamp
  engineId : Option Uuid
  waitToken : Option Uuid
  recoveryAttempts : Nat
  recoveryAfter : Timestamp
  timeoutFailures : Nat
  timeoutRetryAfter : Timestamp
  businessSnapshot : Option Snapshot
  subjectResolver : Option String
  executionVersion : Nat
  rootRunId : Uuid
  previousRunId : Option Uuid
  reviewRound : Nat
  graphParentId : Option Uuid
  graphFacts : Option Facts

structure Task where
  tenant : String
  runId : Uuid
  stepIndex : Nat
  actor : String
  status : TaskStatus
  decidedAt : Option Timestamp

structure Assignment where
  tenant : String
  runId : Uuid
  stepIndex : Nat
  rule : Rule
  resolution : Resolution

structure TaskClaim where
  tenant : String
  runId : Uuid
  stepIndex : Nat
  actor : String

structure TaskDelegation where
  tenant : String
  runId : Uuid
  stepIndex : Nat
  ownerActor : String
  delegateActor : String
  resolvedAt : Option Timestamp

structure GraphNode where
  tenant : String
  runId : Uuid
  key : String
  position : Nat
  node : Node
  selected : Bool
  status : NodeStatus
  childRunId : Option Uuid
  deriving DecidableEq

structure Wakeup where
  tenant : String
  requestId : Uuid
  runId : Uuid
  engineId : Option Uuid
  targetEngineId : Option Uuid
  graphRunId : Option Uuid
  deliveredAt : Option Timestamp
  recoveryAttempts : Nat
  recoveryAfter : Timestamp

structure Payload where
  tenant : String
  runId : Uuid
  entityId : String
  definitionKey : String
  definitionVersion : Nat
  status : RunStatus
  rowVersion : Nat
  round : Nat
  rootRunId : Uuid
  executionVersion : Nat
  businessSnapshot : Option Snapshot
  deriving DecidableEq

structure Outcome where
  tenant : String
  runId : Uuid
  payload : Payload
  createdAt : Timestamp
  availableAt : Timestamp
  attempts : Nat
  leaseToken : Option Uuid
  leaseUntil : Option Timestamp
  acknowledgedAt : Option Timestamp
  deadLetteredAt : Option Timestamp
  lastErrorCode : Option String
  deriving DecidableEq

structure Migration where
  tenant : String
  sourceRunId : Uuid
  targetRunId : Uuid

inductive Command where
  | start (actor key : String) (version : Nat) (entity : String) (snapshot : Option Snapshot)
  | decide (actor : String) (run : Uuid) (expected : Nat) (decision : TaskStatus) (reason : String)
      (snapshot : Option Snapshot)
  | cancel (actor : String) (run : Uuid) (expected : Nat)
  | returned (actor : String) (run : Uuid) (expected : Nat) (reason : String)
  | resubmit (actor : String) (run : Uuid) (expected : Nat) (snapshot : Option Snapshot) (reason : String)
  | taskAction (actor : String) (run : Uuid) (expected : Nat) (action : TaskAction) (target : Option String)
      (reason : String)
  | migrate (actor : String) (run : Uuid) (expected targetVersion : Nat) (snapshot : Option Snapshot) (reason : String)
  deriving DecidableEq

structure Receipt where
  tenant : String
  requestId : Uuid
  command : Command
  runId : Uuid

structure Db where
  clock : Timestamp
  seed : Uuid
  definitions : List DefinitionRow
  publications : List Publication
  runs : List Run
  tasks : List Task
  assignments : List Assignment
  taskClaims : List TaskClaim
  taskDelegations : List TaskDelegation
  graphNodes : List GraphNode
  wakeups : List Wakeup
  outcomes : List Outcome
  migrations : List Migration
  receipts : List Receipt

def Db.empty (clock : Timestamp) (seed : Uuid) : Db :=
  { clock, seed, definitions := [], publications := [], runs := [], tasks := [], assignments := [], taskClaims := [],
    taskDelegations := [], graphNodes := [], wakeups := [], outcomes := [], migrations := [], receipts := [] }

inductive EngineStatus where
  | missing | pending | running | completed | failed | cancelled
  deriving DecidableEq

/-- データベースの外にあるもの（業務ごとの関数の答え、pg_durable の実行の状態、ほかの取引が押さえている行）。
取引ごとに変わりうる。 -/
structure Env where
  resolveAssignment : String → String → Rule → Option Resolution
  resolveSubject : String → String → String → Option Snapshot
  resolveGraphFacts : String → String → String → Option Facts
  authorizeTaskChange : String → Uuid → String → TaskAction → String → Bool
  authorizeMigration : String → Uuid → String → Nat → Bool
  engineStatus : Uuid → EngineStatus
  locked : Uuid → Bool

/-!
## 定義の検査と公開（sql/001, 002, 008, 011, src/durable.ts）

定義の行は、挿し入れの前に JSON スキーマと三つの引き金で検査され、その後は変わらない。
-/

open Library

def isIdentityChar (c : Char) : Bool :=
  c.isAlphanum || c = '_' || c = '.' || c = ':' || c = '@' || c = '-'

/-- `^[A-Za-z0-9_.:@-]{1,128}$` -/
def validIdentity (s : String) : Bool :=
  1 ≤ s.length && s.length ≤ 128 && s.toList.all isIdentityChar

def isKeyChar (c : Char) : Bool :=
  c.isLower || c.isDigit || c = '_' || c = '.' || c = '-'

/-- `^[a-z][a-z0-9_.-]{0,99}$` -/
def validKey (s : String) : Bool :=
  1 ≤ s.length && s.length ≤ 100 && (s.toList.head?.any Char.isLower) && s.toList.all isKeyChar

def validText (max : Nat) (s : String) : Bool := 1 ≤ s.length && s.length ≤ max

def btrimLength (s : String) : Nat :=
  (((s.toList.dropWhile (· = ' ')).reverse).dropWhile (· = ' ')).length

def validReason (s : String) : Bool := 1 ≤ btrimLength s && btrimLength s ≤ 4000

/-! ## スキーマ -/

def validRule (r : Rule) : Bool := validKey r.resolver && validText 256 r.scope

def validTimeout (n : Nat) : Bool := 1 ≤ n && n ≤ 2592000

def validQuorum (n : Nat) : Bool := 1 ≤ n && n ≤ 50

/-- `ApprovalAssignmentResolutionSchema` の actors と、版 1 の approvers。 -/
def validActors (actors : List String) : Bool :=
  1 ≤ actors.length && actors.length ≤ 50 && decide actors.Nodup && actors.all validIdentity

def validAssignmentResolution (r : Resolution) : Bool := validActors r.actors && validText 256 r.revision

def isHexChar (c : Char) : Bool := c.isDigit || ('a' ≤ c && c ≤ 'f')

def validBusinessSnapshot (s : Snapshot) : Bool :=
  validText 256 s.revision && s.sha256.length = 64 && s.sha256.toList.all isHexChar

def validScalar : Scalar → Bool
  | .null => true
  | .boolean _ => true
  | .number n => -1000000000000000 ≤ n && n ≤ 1000000000000000
  | .string s => s.length ≤ 256

def validGraphFacts (facts : Facts) : Bool :=
  facts.length ≤ 64 && decide (facts.map Prod.fst).Nodup && facts.all fun f => validKey f.1 && validScalar f.2

def validStaticStep (s : Step) : Bool :=
  validKey s.key && (s.mode = .all || s.mode = .any) && s.approvers.any validActors && s.assignment.isNone
    && validTimeout s.timeoutSeconds && s.quorum.isNone

def validDynamicStep (s : Step) : Bool :=
  validKey s.key && (s.mode = .all || s.mode = .any) && s.approvers.isNone && s.assignment.any validRule
    && validTimeout s.timeoutSeconds && s.quorum.isNone

def validTaskStep (s : Step) : Bool :=
  validKey s.key && s.approvers.isNone && s.assignment.any validRule && validTimeout s.timeoutSeconds
    && s.quorum.all validQuorum

def validSteps (check : Step → Bool) (steps : List Step) : Bool :=
  1 ≤ steps.length && steps.length ≤ 32 && steps.all check

def validCondition (c : Condition) : Bool := validKey c.field && validScalar c.equals

def validNode (n : Node) : Bool :=
  validKey n.key && n.after.length ≤ 32 && decide n.after.Nodup && n.after.all validKey && validRule n.assignment
    && validTimeout n.timeoutSeconds && n.quorum.all validQuorum
    && n.quorumPercent.all (fun p => 1 ≤ p && p ≤ 100) && n.choice.all validKey && n.whenFact.all validCondition

def validGraphSchema (g : GraphDefinition) : Bool :=
  validKey g.subjectResolver && 1 ≤ g.nodes.length && g.nodes.length ≤ 32 && g.nodes.all validNode

def validDefinition : Definition → Bool
  | .stepped 1 subject steps => subject.isNone && validSteps validStaticStep steps
  | .stepped 2 subject steps => subject.isNone && validSteps validDynamicStep steps
  | .stepped 3 subject steps => subject.any validKey && validSteps validDynamicStep steps
  | .stepped 4 subject steps => subject.any validKey && validSteps validTaskStep steps
  | .stepped _ _ _ => false
  | .graph g => validGraphSchema g

/-! ## 引き金 -/

def protectDefinition : Definition → Except ApprovalError Unit
  | .stepped _ _ steps => require (steps.map Step.key).Nodup .duplicateStep
  | .graph _ => pure ()

def validateTaskModes : Definition → Except ApprovalError Unit
  | .stepped 4 _ steps => require (∀ s ∈ steps, s.mode = .quorum ↔ s.quorum.isSome) .quorumInvalid
  | _ => pure ()

/-- `(node ? 'quorum')::integer+(node ? 'quorumPercent')::integer` の検査。 -/
def quorumOk (n : Node) : Bool :=
  n.quorum.isSome.toNat + n.quorumPercent.isSome.toNat = if n.mode = .quorum then 1 else 0

/-- `(node ? 'when')::integer+(node ? 'default')::integer` の検査。 -/
def choiceOk (n : Node) : Bool :=
  n.whenFact.isSome.toNat + n.isDefault.toNat = if n.choice.isSome then 1 else 0

def validateNodes (nodes : List Node) : List Node → Except ApprovalError Unit
  | [] => pure ()
  | n :: rest => do
    require (∀ dep ∈ n.after, dep ≠ n.key ∧ ∃ m ∈ nodes, m.key = dep) .graphDependencyInvalid
    require (quorumOk n = true) .quorumInvalid
    require (choiceOk n = true) .choiceInvalid
    validateNodes nodes rest

/-- `SELECT DISTINCT n->>'choice'` -/
def choiceKeys (nodes : List Node) : List String := (nodes.filterMap Node.choice).dedup

def sortKeys (keys : List String) : List String := keys.insertionSort (· ≤ ·)

def validateGroup : Option (List String) → List Node → Except ApprovalError Unit
  | _, [] => pure ()
  | deps, n :: rest => do
    require (deps.all (fun d => d = sortKeys n.after) = true) .choiceInvalid
    validateGroup (some (sortKeys n.after)) rest

def validateGroups (nodes : List Node) : List String → Except ApprovalError Unit
  | [] => pure ()
  | choice :: rest => do
    let group := nodes.filter fun n => n.choice = some choice
    validateGroup none group
    require (group.countP Node.isDefault = 1 ∧ 2 ≤ group.length) .choiceInvalid
    validateGroups nodes rest

def visitPass : List Node → List String → List String
  | [], visited => visited
  | n :: rest, visited =>
    if n.key ∉ visited ∧ ∀ dep ∈ n.after, dep ∈ visited then visitPass rest (visited ++ [n.key])
    else visitPass rest visited

/-- 外側の繰り返し。一巡で少なくとも一つ訪れるので、節点の数だけ回れば足りる。 -/
def visitLoop (nodes : List Node) : Nat → List String → Except ApprovalError (List String)
  | 0, visited => if visited.length < nodes.length then .error .graphCycle else .ok visited
  | fuel + 1, visited =>
    if visited.length < nodes.length then
      let next := visitPass nodes visited
      if next.length = visited.length then .error .graphCycle else visitLoop nodes fuel next
    else .ok visited

def validateGraph (g : GraphDefinition) : Except ApprovalError Unit := do
  require (g.nodes.map Node.key).Nodup .duplicateNode
  validateNodes g.nodes g.nodes
  validateGroups g.nodes (choiceKeys g.nodes)
  let _ ← visitLoop g.nodes g.nodes.length []

def graphDefinitionGuard : Definition → Except ApprovalError Unit
  | .stepped _ _ _ => pure ()
  | .graph g => validateGraph g

/-! ## 行の挿し入れと公開 -/

def Db.findDefinition (db : Db) (tenant key : String) (version : Nat) : Option Definition :=
  (db.definitions.find? fun d => d.tenant = tenant ∧ d.key = key ∧ d.version = version).map DefinitionRow.definition

def checkDefinition (definition : Definition) : Except ApprovalError Unit := do
  graphDefinitionGuard definition
  validateTaskModes definition
  protectDefinition definition
  require (validDefinition definition = true) .checkViolation

def insertDefinition (db : Db) (tenant key : String) (version : Nat) (definition : Definition) :
    Except ApprovalError Db := do
  checkDefinition definition
  require (validIdentity tenant = true ∧ validKey key = true ∧ 0 < version) .checkViolation
  require (db.findDefinition tenant key version = none) .uniqueViolation
  pure { db with definitions := db.definitions ++ [⟨tenant, key, version, definition⟩] }

def publish (db : Db) (tenant actor : String) (request : Uuid) (key : String) (version : Nat)
    (definition : Definition) : Except ApprovalError Db := do
  require (validIdentity tenant = true ∧ validIdentity actor = true) .invalidIdentity
  match db.publications.find? fun p => p.tenant = tenant ∧ p.requestId = request with
  | some prior =>
    require (prior.actor = actor ∧ prior.definitionKey = key ∧ prior.definitionVersion = version
      ∧ prior.definition = definition) .idempotencyConflict
    pure db
  | none =>
    require (validDefinition definition = true) .definitionInvalid
    let publication : Publication := ⟨tenant, request, actor, key, version, definition⟩
    match db.findDefinition tenant key version with
    | some saved =>
      -- ON CONFLICT DO NOTHING でも、挿し入れの前の引き金は働く
      checkDefinition definition
      require (saved = definition) .definitionVersionConflict
      pure { db with publications := db.publications ++ [publication] }
    | none =>
      let db ← insertDefinition db tenant key version definition
      pure { db with publications := db.publications ++ [publication] }

end Supacloud.Approval
