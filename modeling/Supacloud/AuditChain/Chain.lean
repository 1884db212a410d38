import Supacloud.Library.Runs
import Supacloud.AuditChain.Values

/-!
# 監査の鎖（services/audit.service.ts）

取引は助言の鎖で一つずつ行われる。
-/

namespace Supacloud.AuditChain

open Library

open Contracts (JsString)

open Vectors (js)

structure ProjectRef where
  value : JsString
  length : value.length = 20
  alphanumeric : ∀ u ∈ value, 97 ≤ u ∧ u ≤ 122 ∨ 48 ≤ u ∧ u ≤ 57

structure AuditChainRow where
  id : JsString
  projectRef : Option JsString
  actor : JsString
  actorType : JsString
  action : JsString
  method : JsString
  path : JsString
  status : Option Int
  requestId : JsString
  source : JsString
  metadata : Json
  previousHash : Option JsString
  eventHash : Option JsString
  chainSequence : Option Int
  createdAt : Timestamp

structure AuditCheckpoint where
  projectRef : JsString
  lastEventId : Option JsString
  lastEventHash : Option JsString
  eventCount : Nat

structure World where
  rows : List AuditChainRow
  checkpoints : List AuditCheckpoint

def World.empty : World := { rows := [], checkpoints := [] }

def World.checkpoint (w : World) (projectRef : JsString) : Option AuditCheckpoint :=
  w.checkpoints.find? fun checkpoint => checkpoint.projectRef = projectRef

/-- `auditMetadata`。駆動部が文字列で返すときは `JSON.parse` した値を取る。 -/
def auditMetadata : Json → Json
  | .object entries => .object entries
  | _ => .object []

def nullable (s : Option JsString) : Json := s.elim .null .string

def canonicalEvent (platform : Platform) (row : AuditChainRow) : Json :=
  .object
    [(js "id", .string row.id), (js "project_ref", nullable row.projectRef), (js "actor", .string row.actor),
      (js "actor_type", .string row.actorType), (js "action", .string row.action), (js "method", .string row.method),
      (js "path", .string row.path), (js "status", row.status.elim .null fun status => .number status),
      (js "request_id", .string row.requestId), (js "source", .string row.source), (js "metadata", auditMetadata row.metadata),
      (js "created_at", .string (platform.toISOString row.createdAt)), (js "previous_hash", nullable row.previousHash)]

def auditEventHash (platform : Platform) (row : AuditChainRow) : JsString :=
  platform.sha256 (canonicalize platform (canonicalEvent platform row))

/-! ## 追記 -/

structure Metadata where
  entries : List (JsString × Json)
  distinct : Distinct (.object entries)

def Metadata.empty : Metadata := ⟨[], List.nodup_nil, trivial⟩

structure AppendAuditEventInput where
  projectRef : Option ProjectRef
  actor : JsString
  actorType : JsString
  action : JsString
  method : JsString
  path : JsString
  status : Option Int
  requestId : JsString
  metadata : Option Metadata
  source : Option JsString

def platformChainKey : JsString := js "__platform__"

structure PreparedAuditAppend where
  id : JsString
  projectChainKey : JsString
  metadata : Json
  source : JsString

/-- `id` は `crypto.randomUUID()` の値である。 -/
def prepareAuditAppend (platform : Platform) (input : AppendAuditEventInput) (id : JsString) : PreparedAuditAppend :=
  { id
    projectChainKey := input.projectRef.elim platformChainKey ProjectRef.value
    metadata := redactAuditValue platform (.object (input.metadata.getD Metadata.empty).entries)
    source := (input.source.filter (· ≠ [])).getD (js "management-api") }

def prepareAuditRow (platform : Platform) (input : AppendAuditEventInput) (append : PreparedAuditAppend)
    (checkpoint : Option AuditCheckpoint) (createdAt : Timestamp) : AuditChainRow :=
  let row : AuditChainRow :=
    { id := append.id, projectRef := input.projectRef.map ProjectRef.value, actor := input.actor, actorType := input.actorType
      action := input.action, method := input.method, path := input.path, status := input.status, requestId := input.requestId
      source := append.source, metadata := append.metadata
      previousHash := checkpoint.bind AuditCheckpoint.lastEventHash
      eventHash := none
      chainSequence := some (checkpoint.elim 0 AuditCheckpoint.eventCount + 1 : Nat)
      createdAt }
  { row with eventHash := some (auditEventHash platform row) }

def storeRow (row : AuditChainRow) : Option AuditChainRow := do
  let actor ← storeText row.actor
  let actorType ← storeText row.actorType
  let action ← storeText row.action
  let method ← storeVarchar 16 row.method
  let path ← storeText row.path
  let requestId ← storeText row.requestId
  let source ← storeText row.source
  let metadata ← storeJsonb row.metadata
  return { row with actor, actorType, action, method, path, requestId, source, metadata }

def insertAuditRow (w : World) (row : AuditChainRow) : Option World :=
  if w.rows.any fun r => r.id = row.id then none
  else do
    let stored ← storeRow row
    return { w with rows := w.rows ++ [stored] }

def advanceAuditCheckpoint (w : World) (append : PreparedAuditAppend) (row : AuditChainRow) : World :=
  let checkpoint : AuditCheckpoint :=
    { projectRef := append.projectChainKey, lastEventId := some append.id, lastEventHash := row.eventHash
      eventCount := (row.chainSequence.getD 0).toNat }
  { w with checkpoints := checkpoint :: w.checkpoints.filter fun c => c.projectRef ≠ append.projectChainKey }

def appendAuditEventInTransaction (platform : Platform) (w : World) (input : AppendAuditEventInput) (id : JsString)
    (createdAt : Timestamp) : Option World := do
  let append := prepareAuditAppend platform input id
  let row := prepareAuditRow platform input append (w.checkpoint append.projectChainKey) createdAt
  let inserted ← insertAuditRow w row
  return advanceAuditCheckpoint inserted append row

/-! ## 検査 -/

inductive IntegrityStatus where
  | verified
  | mismatch
  | legacyUnverified
  deriving DecidableEq

structure AuditIntegrityResult where
  status : IntegrityStatus
  consistent : Bool
  reason : Option JsString
  totalEventCount : Nat
  verifiedEventCount : Nat
  checkpoint : Option AuditCheckpoint

def integrityFailure (status : IntegrityStatus) (reason : JsString) (totalCount verifiedCount : Nat)
    (checkpoint : Option AuditCheckpoint) : AuditIntegrityResult :=
  { status, consistent := false, reason := some reason, totalEventCount := totalCount, verifiedEventCount := verifiedCount, checkpoint }

def eventMismatchReason (platform : Platform) (row : AuditChainRow) (expectedSequence : Nat) (previousHash : Option JsString) :
    Option JsString :=
  if row.chainSequence.getD 0 ≠ expectedSequence then some (js "chain sequence mismatch at " ++ row.id)
  else if row.previousHash ≠ previousHash then some (js "previous hash mismatch at " ++ row.id)
  else if some (auditEventHash platform row) ≠ row.eventHash then some (js "event hash mismatch at " ++ row.id)
  else none

def hashedEventFailure (platform : Platform) : List AuditChainRow → Nat → Option JsString → Option (Nat × JsString)
  | [], _, _ => none
  | row :: rows, index, previousHash =>
    match eventMismatchReason platform row (index + 1) previousHash with
    | some reason => some (index, reason)
    | none => hashedEventFailure platform rows (index + 1) row.eventHash

def checkpointFailure (hashedRows : List AuditChainRow) (checkpoint : Option AuditCheckpoint) : Option JsString :=
  let last := hashedRows.getLast?
  match checkpoint with
  | none => if hashedRows.length > 0 then some (js "checkpoint is missing") else none
  | some c =>
    if c.eventCount ≠ hashedRows.length then some (js "checkpoint event_count mismatch")
    else if c.lastEventId ≠ last.map AuditChainRow.id ∨ c.lastEventHash ≠ last.bind AuditChainRow.eventHash then
      some (js "checkpoint head mismatch")
    else none

def AuditChainRow.hashed (row : AuditChainRow) : Bool := row.eventHash.any (· ≠ [])

def bySequence (a b : AuditChainRow) : Prop := a.chainSequence.getD 0 ≤ b.chainSequence.getD 0

instance : DecidableRel bySequence := fun a b => inferInstanceAs (Decidable (a.chainSequence.getD 0 ≤ b.chainSequence.getD 0))

def verifyAuditChain (platform : Platform) (rows : List AuditChainRow) (checkpoint : Option AuditCheckpoint) : AuditIntegrityResult :=
  let legacyRows := rows.filter fun row => !row.hashed
  let hashedRows := (rows.filter AuditChainRow.hashed).insertionSort bySequence
  match hashedEventFailure platform hashedRows 0 none with
  | some (verified, reason) => integrityFailure .mismatch reason rows.length verified checkpoint
  | none =>
    match checkpointFailure hashedRows checkpoint with
    | some reason => integrityFailure .mismatch reason rows.length hashedRows.length checkpoint
    | none =>
      if legacyRows.length > 0 then
        integrityFailure .legacyUnverified (js (toString legacyRows.length) ++ js " legacy audit event(s) have no hash") rows.length
          hashedRows.length checkpoint
      else
        { status := .verified, consistent := true, reason := none, totalEventCount := rows.length, verifiedEventCount := hashedRows.length
          checkpoint }

/-- `ORDER BY chain_sequence ASC NULLS FIRST, id ASC` の順。 -/
def byRow (a b : AuditChainRow) : Prop :=
  match a.chainSequence, b.chainSequence with
  | none, none => a.id ≤ b.id
  | none, some _ => True
  | some _, none => False
  | some m, some n => m < n ∨ (m = n ∧ a.id ≤ b.id)

instance : DecidableRel byRow := fun a b => by
  unfold byRow
  split <;> infer_instance

def verifyProjectAuditIntegrity (platform : Platform) (w : World) (projectRef : ProjectRef) : AuditIntegrityResult :=
  let rows := (w.rows.filter fun row => row.projectRef = some projectRef.value).insertionSort byRow
  verifyAuditChain platform rows (w.checkpoint projectRef.value)

/-! ## 走行 -/

structure Event where
  input : AppendAuditEventInput
  id : JsString
  createdAt : Timestamp
  commit : Bool

def step (platform : Platform) (w : World) (e : Event) : World :=
  if e.commit then (appendAuditEventInTransaction platform w e.input e.id e.createdAt).getD w else w

def Kept (store : JsString → Option JsString) (s : JsString) : Prop := ∀ t, store s = some t → t = s

structure AppendAuditEventInput.Faithful (platform : Platform) (input : AppendAuditEventInput) : Prop where
  actor : Kept storeText input.actor
  actorType : Kept storeText input.actorType
  action : Kept storeText input.action
  method : Kept (storeVarchar 16) input.method
  path : Kept storeText input.path
  requestId : Kept storeText input.requestId
  source : ∀ source ∈ input.source, Kept storeText source
  metadata : ∀ metadata ∈ input.metadata, Ordered platform (.object metadata.entries)

def Appends (platform : Platform) (projectRef : ProjectRef) (_ : World) (e : Event) : Prop :=
  e.commit = true → e.input.projectRef.map ProjectRef.value = some projectRef.value → e.input.Faithful platform

/-!
## 鎖の改竄

付随データは、オブジェクトの項目の並びを除いて比べる。
-/

open Contracts (JsString)

variable (platform : Platform)

def producedRow (w : World) (e : Event) : Option AuditChainRow :=
  let append := prepareAuditAppend platform e.input e.id
  if e.commit then
    (appendAuditEventInTransaction platform w e.input e.id e.createdAt).map fun _ =>
      prepareAuditRow platform e.input append (w.checkpoint append.projectChainKey) e.createdAt
  else none

def producedRows (key : JsString) : World → List Event → List AuditChainRow
  | _, [] => []
  | w, e :: events =>
    (if (prepareAuditAppend platform e.input e.id).projectChainKey = key then (producedRow platform w e).toList else []) ++
      producedRows key (step platform w e) events

inductive SameJson : Json → Json → Prop where
  | refl (value : Json) : SameJson value value
  | symm {a b : Json} : SameJson a b → SameJson b a
  | trans {a b c : Json} : SameJson a b → SameJson b c → SameJson a c
  | item {a b : Json} (front back : List Json) : SameJson a b → SameJson (.array (front ++ a :: back)) (.array (front ++ b :: back))
  | entry {a b : Json} (key : JsString) (front back : List (JsString × Json)) :
      SameJson a b → SameJson (.object (front ++ (key, a) :: back)) (.object (front ++ (key, b) :: back))
  | order {a b : List (JsString × Json)} : a.Perm b → SameJson (.object a) (.object b)

structure Agrees (row produced : AuditChainRow) : Prop where
  id : row.id = produced.id
  projectRef : row.projectRef = produced.projectRef
  actor : row.actor = produced.actor
  actorType : row.actorType = produced.actorType
  action : row.action = produced.action
  method : row.method = produced.method
  path : row.path = produced.path
  status : row.status = produced.status
  requestId : row.requestId = produced.requestId
  source : row.source = produced.source
  previousHash : row.previousHash = produced.previousHash
  eventHash : row.eventHash = produced.eventHash
  metadata : SameJson (auditMetadata row.metadata) (auditMetadata produced.metadata)
  createdAt : platform.toISOString row.createdAt = platform.toISOString produced.createdAt

def Platform.CollisionFree : Prop :=
  ∀ a b : AuditChainRow, auditEventHash platform a = auditEventHash platform b →
    canonicalize platform (canonicalEvent platform a) = canonicalize platform (canonicalEvent platform b)

end Supacloud.AuditChain
