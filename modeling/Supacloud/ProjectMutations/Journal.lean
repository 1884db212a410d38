import Mathlib.Data.List.Sort
import Supacloud.Library.Table
import Supacloud.Library.Runs

/-!
# 変更の台帳（services/project-mutation.service.ts）

時刻はミリ秒で、`clock_timestamp()` は引数 `now` である。操作を断るだけの書式の検査は、
貸し出しの長さの検査のほかは置かない。
-/

namespace Supacloud.ProjectMutations

open Library

abbrev Timestamp := Nat

def maxFencingEpoch : Nat := 9007199254740991

def maxEvidenceClockSkewMs : Nat := 5 * 60 * 1000

inductive ProjectMutationStatus where
  | pending
  | running
  | succeeded
  | failedRetryable
  | failedTerminal
  | outcomeUnknown
  deriving DecidableEq

def ProjectMutationStatus.text : ProjectMutationStatus → String
  | .pending => "pending"
  | .running => "running"
  | .succeeded => "succeeded"
  | .failedRetryable => "failed_retryable"
  | .failedTerminal => "failed_terminal"
  | .outcomeUnknown => "outcome_unknown"

def ProjectMutationStatus.unresolved : ProjectMutationStatus → Bool
  | .pending | .running | .failedRetryable | .outcomeUnknown => true
  | .succeeded | .failedTerminal => false

inductive PrincipalType where
  | master
  | admin
  | project
  deriving DecidableEq

structure MutationPrincipal where
  type : PrincipalType
  id : String
  deriving DecidableEq

structure MutationKey where
  projectRef : String
  mutationId : String
  deriving DecidableEq

structure ReconciliationEvidence where
  source : String
  observedAt : Timestamp
  evidenceCode : String
  evidenceFingerprint : String
  deriving DecidableEq

inductive Receipt where
  | payload (json : String)
  | reconciliation (evidence : ReconciliationEvidence) (targetStatus : ProjectMutationStatus)
  deriving DecidableEq

/-- `StoredProjectMutationRow`。`checkpoint` は JSON の文字列で、台帳は中を見ない。 -/
structure StoredProjectMutationRow where
  key : MutationKey
  operation : String
  resourceKey : Option String
  requestFingerprint : String
  principal : MutationPrincipal
  status : ProjectMutationStatus
  checkpoint : String
  receipt : Option Receipt
  responseStatus : Option Nat
  failureCode : Option String
  leaseOwner : Option String
  leaseToken : Option String
  leaseExpiresAt : Option Timestamp
  fencingEpoch : Nat
  recoveryNotBefore : Option Timestamp
  completedAt : Option Timestamp
  createdAt : Timestamp
  updatedAt : Timestamp
  deriving DecidableEq

abbrev Journal := List StoredProjectMutationRow

variable (now : Timestamp) (rows : Journal)

def Journal.find (rows : Journal) (key : MutationKey) : Option StoredProjectMutationRow := rows.find? fun row => row.key = key

/-- `UPDATE … SET f WHERE p RETURNING …`。`p` は鍵を定める。 -/
def updateReturning (p : StoredProjectMutationRow → Bool) (f : StoredProjectMutationRow → StoredProjectMutationRow) :
    Option StoredProjectMutationRow × Journal :=
  ((rows.find? p).map f, update p f rows)

def leaseSecondsValid (leaseSeconds : Nat) : Bool := 1 ≤ leaseSeconds && leaseSeconds ≤ 3600

/-! ## 登録 -/

structure BeginProjectMutationInput where
  key : MutationKey
  operation : String
  resourceKey : Option String
  requestFingerprint : String
  principal : MutationPrincipal

inductive BeginProjectMutationResult where
  | started (mutation : StoredProjectMutationRow)
  | replay (mutation : StoredProjectMutationRow)
  | fingerprintConflict
  | principalConflict
  | resourceBusy (mutationId : String) (status : ProjectMutationStatus)

def blocks (projectRef resourceKey : String) (row : StoredProjectMutationRow) : Bool :=
  row.key.projectRef = projectRef && row.resourceKey = some resourceKey && row.status.unresolved

def activeResourceMutation (projectRef resourceKey : String) : Option StoredProjectMutationRow :=
  rows.find? (blocks projectRef resourceKey)

def existingMutationResult (row : StoredProjectMutationRow) (input : BeginProjectMutationInput) : BeginProjectMutationResult :=
  if row.requestFingerprint ≠ input.requestFingerprint ∨ row.operation ≠ input.operation ∨ row.resourceKey ≠ input.resourceKey then
    .fingerprintConflict
  else if row.principal ≠ input.principal then .principalConflict
  else .replay row

def insertedRow (input : BeginProjectMutationInput) : StoredProjectMutationRow :=
  { key := input.key
    operation := input.operation
    resourceKey := input.resourceKey
    requestFingerprint := input.requestFingerprint
    principal := input.principal
    status := .pending
    checkpoint := "\x7b\x7d"
    receipt := none
    responseStatus := none
    failureCode := none
    leaseOwner := none
    leaseToken := none
    leaseExpiresAt := none
    fencingEpoch := 0
    recoveryNotBefore := none
    completedAt := none
    createdAt := now
    updatedAt := now }

def insertProjectMutation (input : BeginProjectMutationInput) : Option StoredProjectMutationRow × Journal :=
  if (rows.find input.key).isSome ∨
      (input.resourceKey.any fun resourceKey => (activeResourceMutation rows input.key.projectRef resourceKey).isSome) then (none, rows)
  else (some (insertedRow now input), rows ++ [insertedRow now input])

def beginProjectMutation (input : BeginProjectMutationInput) : Except String BeginProjectMutationResult × Journal :=
  match insertProjectMutation now rows input with
  | (some inserted, rows) => (.ok (.started inserted), rows)
  | (none, rows) =>
    match rows.find input.key with
    | some existing => (.ok (existingMutationResult existing input), rows)
    | none =>
      match input.resourceKey.bind (activeResourceMutation rows input.key.projectRef) with
      | some blocker => (.ok (.resourceBusy blocker.key.mutationId blocker.status), rows)
      | none => (.error "Mutation insert conflicted without a durable conflicting record", rows)

/-! ## 受け持ち -/

structure ClaimProjectMutationInput where
  key : MutationKey
  leaseOwner : String
  leaseToken : String
  leaseSeconds : Nat

inductive ClaimProjectMutationResult where
  | claimed (mutation : StoredProjectMutationRow)
  | busy (mutation : StoredProjectMutationRow)
  | terminal (mutation : StoredProjectMutationRow)
  | notFound

/-- `lease_expires_at > clock_timestamp()` -/
def StoredProjectMutationRow.leaseActive (row : StoredProjectMutationRow) : Bool := row.leaseExpiresAt.any (now < ·)

/-- `lease_expires_at <= clock_timestamp()` -/
def StoredProjectMutationRow.leaseExpired (row : StoredProjectMutationRow) : Bool := row.leaseExpiresAt.any (· ≤ now)

def StoredProjectMutationRow.claimable (row : StoredProjectMutationRow) : Bool :=
  row.fencingEpoch < maxFencingEpoch &&
    (row.status = .pending || row.status = .failedRetryable || (row.status = .running && row.leaseExpired now))

def StoredProjectMutationRow.lease (leaseOwner leaseToken : String) (leaseSeconds : Nat) (row : StoredProjectMutationRow) :
    StoredProjectMutationRow :=
  { row with
    status := .running
    leaseOwner := some leaseOwner
    leaseToken := some leaseToken
    leaseExpiresAt := some (now + leaseSeconds * 1000)
    recoveryNotBefore := some (row.recoveryNotBefore.getD now)
    fencingEpoch := row.fencingEpoch + 1
    completedAt := none
    updatedAt := now }

def unclaimedMutationResult (row : StoredProjectMutationRow) (input : ClaimProjectMutationInput) :
    Except String ClaimProjectMutationResult :=
  if row.status = .running ∧ row.leaseActive now then
    if row.leaseOwner = some input.leaseOwner ∧ row.leaseToken = some input.leaseToken then .ok (.claimed row) else .ok (.busy row)
  else if row.status = .succeeded ∨ row.status = .failedTerminal ∨ row.status = .outcomeUnknown then .ok (.terminal row)
  else if maxFencingEpoch ≤ row.fencingEpoch then .error "Mutation fencing epoch is exhausted"
  else .error ("Mutation status '" ++ row.status.text ++ "' could not be claimed")

def ClaimProjectMutationInput.matches (input : ClaimProjectMutationInput) (row : StoredProjectMutationRow) : Bool :=
  leaseSecondsValid input.leaseSeconds && row.key = input.key && row.claimable now

def ClaimProjectMutationInput.claim (input : ClaimProjectMutationInput) (row : StoredProjectMutationRow) : StoredProjectMutationRow :=
  row.lease now input.leaseOwner input.leaseToken input.leaseSeconds

def claimOrResumeProjectMutation (input : ClaimProjectMutationInput) : Except String ClaimProjectMutationResult × Journal :=
  if leaseSecondsValid input.leaseSeconds then
    match updateReturning rows (input.matches now) (input.claim now) with
    | (some claimed, rows) => (.ok (.claimed claimed), rows)
    | (none, rows) =>
      match rows.find input.key with
      | some row => (unclaimedMutationResult now row input, rows)
      | none => (.ok .notFound, rows)
  else (.error "Mutation lease duration must be 1-3600 seconds", rows)

structure ClaimRecoverableProjectMutationsInput where
  operations : List String
  leaseOwner : String
  leaseSeconds : Nat
  limit : Nat

def StoredProjectMutationRow.recoverable (operations : List String) (row : StoredProjectMutationRow) : Bool :=
  decide (row.operation ∈ operations) && decide (row.fencingEpoch < maxFencingEpoch) && row.recoveryNotBefore.any (· ≤ now) &&
    (row.status = .failedRetryable || (row.status = .running && row.leaseExpired now))

/-- `ORDER BY recovery_not_before, updated_at, project_ref, mutation_id` -/
def recoveredBefore (a b : StoredProjectMutationRow) : Bool :=
  (compare a.recoveryNotBefore b.recoveryNotBefore).then
    ((compare a.updatedAt b.updatedAt).then
      ((compare a.key.projectRef b.key.projectRef).then (compare a.key.mutationId b.key.mutationId))) ≠ .gt

/-- ほかの取引が錠を持つ行 `skip` は飛ばす。 -/
def recoveryCandidates (input : ClaimRecoverableProjectMutationsInput) (skip : List MutationKey) : List MutationKey :=
  (((rows.filter fun row => row.recoverable now input.operations && decide (row.key ∉ skip)).mergeSort recoveredBefore).take
    input.limit).map StoredProjectMutationRow.key

def ClaimRecoverableProjectMutationsInput.matches (input : ClaimRecoverableProjectMutationsInput) (skip : List MutationKey)
    (row : StoredProjectMutationRow) : Bool :=
  leaseSecondsValid input.leaseSeconds && decide (row.key ∈ recoveryCandidates now rows input skip)

/-- 引換券は `gen_random_uuid()` が行ごとに作る。 -/
def ClaimRecoverableProjectMutationsInput.claim (input : ClaimRecoverableProjectMutationsInput) (tokens : MutationKey → String)
    (row : StoredProjectMutationRow) : StoredProjectMutationRow :=
  row.lease now input.leaseOwner (tokens row.key) input.leaseSeconds

def claimRecoverableProjectMutations (input : ClaimRecoverableProjectMutationsInput) (skip : List MutationKey)
    (tokens : MutationKey → String) : List StoredProjectMutationRow × Journal :=
  ((rows.filter (input.matches now rows skip)).map (input.claim now tokens), update (input.matches now rows skip) (input.claim now tokens) rows)

/-! ## 受け持った者の書き込み -/

structure MutationLeaseInput where
  key : MutationKey
  leaseToken : String
  fencingEpoch : Nat

/-- 受け持ちの引換券と番号がそろい、期限が来ていない。 -/
def MutationLeaseInput.holds (lease : MutationLeaseInput) (row : StoredProjectMutationRow) : Bool :=
  row.key = lease.key && row.status = .running && row.leaseToken = some lease.leaseToken &&
    row.fencingEpoch = lease.fencingEpoch && row.leaseActive now

structure CheckpointProjectMutationInput where
  lease : MutationLeaseInput
  checkpoint : String
  leaseSeconds : Nat
  recoveryNotBefore : Option Timestamp

def StoredProjectMutationRow.checkpointed (input : CheckpointProjectMutationInput) (row : StoredProjectMutationRow) :
    StoredProjectMutationRow :=
  { row with
    checkpoint := input.checkpoint
    recoveryNotBefore := input.recoveryNotBefore.or row.recoveryNotBefore
    leaseExpiresAt := some (now + input.leaseSeconds * 1000)
    updatedAt := now }

def checkpointProjectMutation (input : CheckpointProjectMutationInput) : Option StoredProjectMutationRow × Journal :=
  if leaseSecondsValid input.leaseSeconds then
    updateReturning rows (input.lease.holds now) (StoredProjectMutationRow.checkpointed now input)
  else (none, rows)

inductive FinishStatus where
  | succeeded
  | failedRetryable
  | failedTerminal
  | outcomeUnknown
  deriving DecidableEq

def FinishStatus.status : FinishStatus → ProjectMutationStatus
  | .succeeded => .succeeded
  | .failedRetryable => .failedRetryable
  | .failedTerminal => .failedTerminal
  | .outcomeUnknown => .outcomeUnknown

structure FinishProjectMutationInput where
  lease : MutationLeaseInput
  status : FinishStatus
  receipt : Receipt
  responseStatus : Option Nat
  failureCode : Option String
  recoveryNotBefore : Option Timestamp

def validCompletionResponseStatus (status : FinishStatus) : Option Nat → Bool
  | none => status ≠ .succeeded
  | some responseStatus =>
    if status = .succeeded then 200 ≤ responseStatus && responseStatus < 300 else 100 ≤ responseStatus && responseStatus ≤ 599

def StoredProjectMutationRow.finished (input : FinishProjectMutationInput) (row : StoredProjectMutationRow) :
    StoredProjectMutationRow :=
  { row with
    status := input.status.status
    receipt := some input.receipt
    responseStatus := input.responseStatus
    failureCode := input.failureCode
    leaseOwner := none
    leaseToken := none
    leaseExpiresAt := none
    recoveryNotBefore :=
      if input.status = .failedRetryable ∧ input.recoveryNotBefore = none then row.recoveryNotBefore else input.recoveryNotBefore
    completedAt := if input.status = .failedRetryable then none else some now
    updatedAt := now }

def finishProjectMutation (input : FinishProjectMutationInput) : Option StoredProjectMutationRow × Journal :=
  if validCompletionResponseStatus input.status input.responseStatus then
    updateReturning rows (input.lease.holds now) (StoredProjectMutationRow.finished now input)
  else (none, rows)

def completeProjectMutationSuccess (lease : MutationLeaseInput) (receipt : Receipt) (responseStatus : Nat) :
    FinishProjectMutationInput :=
  { lease, status := .succeeded, receipt, responseStatus := some responseStatus, failureCode := none, recoveryNotBefore := none }

/-- 失敗の終わりは、再試行の時刻を `failed_retryable` にだけ付けられる。 -/
def completeProjectMutationFailure (lease : MutationLeaseInput) (status : FinishStatus) (failureCode : String) (receipt : Option Receipt)
    (responseStatus : Option Nat) (recoveryNotBefore : Option Timestamp) : Option FinishProjectMutationInput :=
  if status = .succeeded ∨ (status ≠ .failedRetryable ∧ recoveryNotBefore.isSome) then none
  else
    some { lease
           status
           receipt := receipt.getD (.payload "\x7b\x7d")
           responseStatus
           failureCode := some failureCode
           recoveryNotBefore }

/-! ## 照合 -/

structure ReconcileProjectMutationInput where
  key : MutationKey
  expectedFencingEpoch : Nat
  succeeded : Bool
  responseStatus : Option Nat
  failureCode : Option String
  evidence : ReconciliationEvidence

def ReconcileProjectMutationInput.status (input : ReconcileProjectMutationInput) : FinishStatus :=
  if input.succeeded then .succeeded else .failedTerminal

inductive ReconcileProjectMutationResult where
  | updated (mutation : StoredProjectMutationRow)
  | notFound
  | forbidden
  | invalidEvidenceTime
  | notReconcilable (mutation : StoredProjectMutationRow)
  | casConflict (mutation : StoredProjectMutationRow)

/-- `assertReconciliationInput` のうち、応答と失敗の符号の検査。 -/
def ReconcileProjectMutationInput.valid (input : ReconcileProjectMutationInput) : Bool :=
  validCompletionResponseStatus input.status input.responseStatus &&
    (if input.succeeded then input.failureCode.isNone else input.failureCode.isSome)

def reconciliationPrecondition (row : Option StoredProjectMutationRow) (actor : MutationPrincipal)
    (input : ReconcileProjectMutationInput) : Option (Except String ReconcileProjectMutationResult) :=
  match row with
  | none => some (.ok .notFound)
  | some row =>
    if row.principal ≠ actor then some (.ok .forbidden)
    else if row.status ≠ .outcomeUnknown then some (.ok (.notReconcilable row))
    else if row.fencingEpoch ≠ input.expectedFencingEpoch then some (.ok (.casConflict row))
    else
      match row.completedAt with
      | none => some (.error "Stored mutation reconciliation timestamps are invalid")
      | some unknownAt =>
        if input.evidence.observedAt < unknownAt ∨ now + maxEvidenceClockSkewMs < input.evidence.observedAt then
          some (.ok .invalidEvidenceTime)
        else none

def StoredProjectMutationRow.reconciled (input : ReconcileProjectMutationInput) (row : StoredProjectMutationRow) :
    StoredProjectMutationRow :=
  { row with
    status := input.status.status
    receipt := some (.reconciliation input.evidence input.status.status)
    responseStatus := input.responseStatus
    failureCode := input.failureCode
    recoveryNotBefore := none
    completedAt := some now
    updatedAt := now }

def ReconcileProjectMutationInput.matches (actor : MutationPrincipal) (input : ReconcileProjectMutationInput)
    (row : StoredProjectMutationRow) : Bool :=
  row.key = input.key && row.principal = actor && row.status = .outcomeUnknown && row.fencingEpoch = input.expectedFencingEpoch

def reconcileProjectMutation (actor : MutationPrincipal) (input : ReconcileProjectMutationInput) :
    Except String ReconcileProjectMutationResult × Journal :=
  if input.valid then
    match reconciliationPrecondition now (rows.find input.key) actor input with
    | some result => (result, rows)
    | none =>
      match updateReturning rows (input.matches actor) (StoredProjectMutationRow.reconciled now input) with
      | (some updated, rows) => (.ok (.updated updated), rows)
      | (none, _) => (.error "Locked mutation reconciliation changed unexpectedly", rows)
  else (.error "Mutation response status is invalid", rows)

/-!
## `checkpoint` の列の値

台帳は `checkpoint` の中を見ない。
-/

variable {α : Type}

/-- 書いた値は、読み戻すと同じ値になる。登録のときの空の JSON は、どの値でもない。 -/
structure CheckpointCodec (α : Type) where
  encode : α → String
  decode : String → Option α
  decode_encode : ∀ a, decode (encode a) = some a
  decode_empty : decode "\x7b\x7d" = none

/-!
## 台帳を使う取引の並び

どの操作も、行の錠を持つ一つの取引である。`withProjectMutationLease` の取引だけが、
渡された操作の終わりまで錠を持ち続ける。
-/

structure Claim where
  key : MutationKey
  leaseToken : Option String
  fencingEpoch : Nat

def Claim.of (row : StoredProjectMutationRow) : Claim :=
  { key := row.key, leaseToken := row.leaseToken, fencingEpoch := row.fencingEpoch }

/-- 操作の途中の `withProjectMutationLease`。`draft` は、この取引から見える行である。 -/
structure Execution where
  call : Nat
  lease : MutationLeaseInput
  draft : StoredProjectMutationRow

structure World where
  now : Timestamp
  rows : Journal
  executions : List Execution
  nextCall : Nat
  claims : List Claim

def World.start (now : Timestamp) : World := { now, rows := [], executions := [], nextCall := 0, claims := [] }

inductive LeaseAction where
  | checkpoint (input : CheckpointProjectMutationInput)
  | success (lease : MutationLeaseInput) (receipt : Receipt) (responseStatus : Nat)
  | failure (lease : MutationLeaseInput) (status : FinishStatus) (failureCode : String) (receipt : Option Receipt)
      (responseStatus : Option Nat) (recoveryNotBefore : Option Timestamp)

def LeaseAction.lease : LeaseAction → MutationLeaseInput
  | .checkpoint input => input.lease
  | .success lease .. => lease
  | .failure lease .. => lease

def LeaseAction.apply (now : Timestamp) (rows : Journal) : LeaseAction → Journal
  | .checkpoint input => (checkpointProjectMutation now rows input).2
  | .success lease receipt responseStatus =>
    (finishProjectMutation now rows (completeProjectMutationSuccess lease receipt responseStatus)).2
  | .failure lease status failureCode receipt responseStatus recoveryNotBefore =>
    match completeProjectMutationFailure lease status failureCode receipt responseStatus recoveryNotBefore with
    | some input => (finishProjectMutation now rows input).2
    | none => rows

inductive Event where
  | tick (elapsed : Nat)
  | begin (input : BeginProjectMutationInput)
  | claim (input : ClaimProjectMutationInput)
  | claimRecoverable (input : ClaimRecoverableProjectMutationsInput) (skip : List MutationKey) (tokens : MutationKey → String)
  | write (action : LeaseAction)
  | reconcile (actor : MutationPrincipal) (input : ReconcileProjectMutationInput)
  | enter (lease : MutationLeaseInput)
  | inside (call : Nat) (action : LeaseAction)
  | leave (call : Nat)
  | abandon (call : Nat)

variable (w : World)

def World.locked (key : MutationKey) : Bool := w.executions.any fun x => x.lease.key = key

def World.execution (call : Nat) : Option Execution := w.executions.find? fun x => x.call = call

def World.drop (call : Nat) : World := { w with executions := w.executions.filter fun x => x.call ≠ call }

def World.grant (p : StoredProjectMutationRow → Bool) (claim : StoredProjectMutationRow → StoredProjectMutationRow) : World :=
  { w with
    rows := update p claim w.rows
    claims := (w.rows.filter p).map (fun row => Claim.of (claim row)) ++ w.claims }

/-- 台帳から見える行の錠は、`SKIP LOCKED` が飛ばす。 -/
def World.skipped (skip : List MutationKey) : List MutationKey := w.executions.map (fun x => x.lease.key) ++ skip

def World.enter (lease : MutationLeaseInput) : World :=
  match w.rows.find? (lease.holds w.now) with
  | some row =>
    { w with
      executions := { call := w.nextCall, lease, draft := row } :: w.executions
      nextCall := w.nextCall + 1 }
  | none => w

def World.inside (call : Nat) (action : LeaseAction) : World :=
  { w with
    executions := update (fun x => decide (x.call = call) && decide (action.lease.key = x.lease.key))
      (fun x => { x with draft := (action.apply w.now [x.draft]).headD x.draft }) w.executions }

def World.leave (call : Nat) : World :=
  match w.execution call with
  | some x => { w.drop call with rows := update (fun row => row.key = x.lease.key) (fun _ => x.draft) w.rows }
  | none => w

def World.whenFree (key : MutationKey) (next : World) : World := if w.locked key then w else next

def step : Event → World
  | .tick elapsed => { w with now := w.now + elapsed }
  | .begin input => { w with rows := (beginProjectMutation w.now w.rows input).2 }
  | .claim input => w.whenFree input.key (w.grant (input.matches w.now) (input.claim w.now))
  | .claimRecoverable input skip tokens => w.grant (input.matches w.now w.rows (w.skipped skip)) (input.claim w.now tokens)
  | .write action => w.whenFree action.lease.key { w with rows := action.apply w.now w.rows }
  | .reconcile actor input => w.whenFree input.key { w with rows := (reconcileProjectMutation w.now w.rows actor input).2 }
  | .enter lease => w.whenFree lease.key (w.enter lease)
  | .inside call action => w.inside call action
  | .leave call => w.leave call
  | .abandon call => w.drop call

/-! ## 台帳が守るべきこと -/

def World.lastClaim (key : MutationKey) : Option Claim := w.claims.find? fun c => c.key = key

def World.current (key : MutationKey) : Option StoredProjectMutationRow :=
  match w.executions.find? fun x => x.lease.key = key with
  | some x => some x.draft
  | none => w.rows.find key

def World.Fenced : Prop :=
  w.claims.Pairwise fun newer older => newer.key = older.key → older.fencingEpoch < newer.fencingEpoch

def World.Exclusive : Prop := (w.executions.map fun x => x.lease.key).Nodup

def World.SingleUnresolved : Prop :=
  ∀ a ∈ w.rows, ∀ b ∈ w.rows, a.status.unresolved = true → b.status.unresolved = true → a.key.projectRef = b.key.projectRef →
    a.resourceKey = b.resourceKey → a.resourceKey ≠ none → a = b

/-- 状態か `checkpoint` を変えてよい出来事。新しい受け持ち、期限の前の最後の受け持ち、結果のわからない変更の照合、
錠を持つ取引の取り消しである。 -/
def World.Authorised (row : StoredProjectMutationRow) : Event → Prop
  | .claim _ | .claimRecoverable .. => row.claimable w.now = true
  | .write action | .inside _ action =>
    w.lastClaim row.key = some { key := row.key, leaseToken := some action.lease.leaseToken, fencingEpoch := action.lease.fencingEpoch } ∧
      row.leaseActive w.now = true
  | .reconcile actor input =>
    row.status = .outcomeUnknown ∧ row.principal = actor ∧ row.fencingEpoch = input.expectedFencingEpoch
  | .abandon _ => w.locked row.key = true
  | .tick _ | .begin _ | .enter _ | .leave _ => False

def World.Guarded (e : Event) : Prop :=
  ∀ key row row', w.current key = some row → (step w e).current key = some row' →
    row'.status ≠ row.status ∨ row'.checkpoint ≠ row.checkpoint → w.Authorised row e

/-- 終わった変更は変わらず、結果のわからない変更は照合でだけ変わる。 -/
def World.Settled (e : Event) : Prop :=
  ∀ row ∈ w.rows, (row.status = .succeeded ∨ row.status = .failedTerminal → row ∈ (step w e).rows) ∧
    (row.status = .outcomeUnknown → row ∈ (step w e).rows ∨
      ∃ actor input, e = .reconcile actor input ∧ input.key = row.key ∧ actor = row.principal ∧
        input.expectedFencingEpoch = row.fencingEpoch)

def World.Undisturbed (e : Event) : Prop :=
  ∀ key, w.locked key = true → (step w e).claims.filter (fun c => c.key = key) = w.claims.filter (fun c => c.key = key)

/-- 同じ番号の変更の登録は、指紋、操作、資源、利用者のどれかが違えば断られ、何も変えない。 -/
def World.RefusesMismatch : Prop :=
  ∀ (input : BeginProjectMutationInput) (existing : StoredProjectMutationRow), w.rows.find input.key = some existing →
    (input.requestFingerprint ≠ existing.requestFingerprint ∨ input.operation ≠ existing.operation ∨
        input.resourceKey ≠ existing.resourceKey →
      beginProjectMutation w.now w.rows input = (.ok .fingerprintConflict, w.rows)) ∧
    (input.requestFingerprint = existing.requestFingerprint → input.operation = existing.operation →
        input.resourceKey = existing.resourceKey → input.principal ≠ existing.principal →
      beginProjectMutation w.now w.rows input = (.ok .principalConflict, w.rows))

end Supacloud.ProjectMutations
