import Supacloud.Contracts.Values
import Supacloud.Library.Process

/-!
# 受領証の保存先（db/src/command-adapter.ts、command-schema.ts）

一つのトランザクションは不可分で、`session.lock` により直列になる。文の失敗や接続の切断は
`Commit.lostBefore` に含める。`effects` は `definition.execute` の書く業務データ、
`log` は観測のための記録である。
-/

namespace Supacloud.Commands

open Contracts Library

/-! ## 環境の応答 -/

/-- トランザクションの結末。確定の前に失敗するか、確定するか、確定した後に応答だけが失われる。 -/
inductive Commit where
  | done
  | lostBefore (error : Thrown)
  | lostAfter (error : Thrown)

/-- 認可の関数の結末。`malformed` は "allow" でも "deny" でもない戻り値である。 -/
inductive Decision where
  | allow
  | deny
  | malformed
  | threw

/-- `definition.send` の結末。失敗では、`isDefinitiveWriteFailure` の判定（`none` は判定の例外）を伴う。 -/
inductive SendOutcome where
  | returned
  | threw (definitive : Option Bool)

inductive RetryDecision where
  | retry
  | rolledBack
  | stop
  deriving DecidableEq

/-- 一段ごとに環境が選ぶ応答。`aborted` の類は、その時点までに信号が立つことを表す。 -/
structure Oracle where
  commit : Commit := .done
  lock : Option Thrown := none
  authorization : Decision := .allow
  uuid : String := "dispatch"
  encoded : Option String := some ""
  decoded : Option JsValue := none
  auditWrite : Option Thrown := none
  redacts : Bool := false
  send : SendOutcome := .returned
  lookup : Option JsValue := none
  executed : Except Thrown JsValue := .error .other
  aborted : Bool := false
  abortedBeforeLock : Bool := false
  abortedBeforeInsert : Bool := false
  abortedBeforeReturn : Bool := false
  expired : Bool := false
  classified : Option RetryDecision := some .stop
  isFailure : Option Bool := some false
  now : Nat := 1

/-! ## 表 -/

inductive Status where
  | pending
  | unknown
  | confirmed
  | rejected
  deriving DecidableEq

/-- `execution_receipts` の行。主キーの列は表の添字である。 -/
structure Row where
  dispatchKey : String
  kind : CommandKind
  inputFingerprint : String
  inputPayload : Option String
  status : Status
  auditState : AuditState
  result : Option CommandJson

def Row.checks (r : Row) : Bool :=
  ((r.status == .confirmed) == r.result.isSome) &&
  (r.auditState != .complete || r.status == .confirmed || r.status == .rejected) &&
  (r.status != .rejected || r.auditState == .complete) &&
  (r.kind != .transactional || (r.status == .confirmed && r.auditState == .complete))

/-- トリガー `protect_terminal_execution` が更新を許す。 -/
def Row.terminalGuard (old new : Row) : Bool :=
  !((old.status == .confirmed || old.status == .rejected) &&
    (new.status != old.status || new.result != old.result ||
      (old.auditState == .complete && new.auditState != old.auditState)))

structure AuditRow where
  event : String
  details : CommandJson

structure Tables where
  rows : OperationReference → Option Row
  audits : OperationReference → List AuditRow
  effects : OperationReference → List JsValue

def Tables.empty : Tables := { rows := fun _ => none, audits := fun _ => [], effects := fun _ => [] }

variable (t : Tables) (ref : OperationReference)

def Tables.setRow (row : Row) : Tables :=
  { t with rows := Function.update t.rows ref (some row) }

def Tables.addAudit (a : AuditRow) : Tables :=
  { t with audits := Function.update t.audits ref (a :: t.audits ref) }

def Tables.addEffect (v : JsValue) : Tables :=
  { t with effects := Function.update t.effects ref (v :: t.effects ref) }

/-- 遅延トリガー `require_rejection_audit`。`ref` の行が `rejected` なら監査の行が要る。 -/
def Tables.rejectionAudited : Bool :=
  match t.rows ref with
  | some row => row.status != .rejected || !(t.audits ref).isEmpty
  | none => true

/-! ## トランザクションの中の計算 -/

/-- トランザクションの本体。例外を投げると書き込みは残らない。 -/
def Session (α : Type) := Oracle → Tables → Except Thrown (α × Tables)

namespace Session

variable {α β : Type}

instance : Monad Session where
  pure a := fun _ t => .ok (a, t)
  bind m f := fun o t => match m o t with
    | .error e => .error e
    | .ok (a, t') => f a o t'

def throw (e : Thrown) : Session α := fun _ _ => .error e

def throwCode (code : CommandErrorCode) : Session α := throw (.command code)

def oracle : Session Oracle := fun o t => .ok (o, t)

def getTables : Session Tables := fun _ t => .ok (t, t)

def setTables : Session Unit := fun _ _ => .ok ((), t)

def orThrow (e : Thrown) : Option α → Session α
  | some a => pure a
  | none => throw e

def mayThrow : Option Thrown → Session Unit
  | some e => throw e
  | none => pure ()

end Session

open Session

def keys : Session Unit := do
  let _ ← orThrow .other (commandIdentifier ref.tenantId)
  let _ ← orThrow .other (commandIdentifier ref.actorId)
  let _ ← orThrow .other (commandIdentifier ref.command)
  let _ ← orThrow .other (commandIdentifier ref.operationId)

/-- `session.lock`。提出の検査（`submittedPayload`）の成否は応答が決める。 -/
def lock (ref : OperationReference) : Session Unit := do
  keys ref
  mayThrow (← oracle).lock

/-- 行の列から読める受領証の状態。組み合わせが合わなければ読めない。 -/
def Row.state (row : Row) : Option (ReceiptState CommandJson) :=
  match row.status, row.auditState, row.result with
  | .pending, .pending, none => some .pending
  | .unknown, .pending, none => some .unknown
  | .rejected, .complete, none => some .rejected
  | .confirmed, audit, some raw => some (.confirmed audit raw)
  | _, _, _ => none

/-- 行から受領証を組み立てる（`decodeStored`）。形の合わない行は `COMMAND_RECEIPT_INVALID` である。 -/
def decodeStored (row : Row) : Option StoredCommand :=
  row.state.map fun state =>
    { receipt := { reference := ref, dispatchKey := row.dispatchKey, state }
      kind := row.kind, inputFingerprint := row.inputFingerprint, inputPayload := row.inputPayload }

def read : Session (Option StoredCommand) := do
  keys ref
  match (← getTables).rows ref with
  | none => return none
  | some row => return some (← orThrow (.command .COMMAND_RECEIPT_INVALID) (decodeStored ref row))

def Row.ofStored (record : StoredCommand) : Row :=
  { dispatchKey := record.receipt.dispatchKey
    kind := record.kind
    inputFingerprint := record.inputFingerprint
    inputPayload := record.inputPayload
    status := match record.receipt.state with
      | .pending => .pending
      | .unknown => .unknown
      | .rejected => .rejected
      | .confirmed _ _ => .confirmed
    auditState := record.receipt.state.audit
    result := match record.receipt.state with
      | .confirmed _ raw => some raw
      | _ => none }

/-- `session.insert`。`submission` があれば送信の鍵をその番号に替える。主キーの重複と CHECK の違反は例外になる。 -/
def insert (submission : Option String) (record : StoredCommand) : Session Unit := do
  let ref := record.receipt.reference
  keys ref
  let row := { Row.ofStored record with dispatchKey := submission.getD record.receipt.dispatchKey }
  let t ← getTables
  if (t.rows ref).isSome || !row.checks then throw .other
  else setTables (t.setRow ref row)

/-- 条件に合う行の更新。CHECK とトリガーに反すれば例外になる。合う行がなければ何もしない。 -/
def updateWhere (cond : Row → Bool) (f : Row → Row) : Session Unit := do
  keys ref
  let t ← getTables
  match t.rows ref with
  | none => pure ()
  | some row =>
    if !cond row then pure ()
    else if !(f row).checks || !row.terminalGuard (f row) then throw .other
    else setTables (t.setRow ref (f row))

def isOpen (row : Row) : Bool := row.status == .pending || row.status == .unknown

def confirm (raw : CommandJson) : Session Unit :=
  updateWhere ref isOpen (fun row => { row with status := .confirmed, result := some raw })

def markUnknown : Session Unit :=
  updateWhere ref isOpen (fun row => { row with status := .unknown })

def reject : Session Unit :=
  updateWhere ref (fun row => row.kind == .external && isOpen row)
    (fun row => { row with status := .rejected, auditState := .complete })

def completeAudit : Session Unit :=
  updateWhere ref (fun _ => true) (fun row => { row with auditState := .complete })

/-- `session.audit`。監査の主キーは操作の参照なので、二行目は例外になる。外部キーにより受領証の行が要る。 -/
def auditInsert (event : String) (details : CommandJson) : Session Unit := do
  keys ref
  let t ← getTables
  if !(t.audits ref).isEmpty || (t.rows ref).isNone then throw .other
  else setTables (t.addAudit ref { event, details })

def redact : Session Unit := do
  let o ← oracle
  if o.redacts then
    updateWhere ref (fun row => (row.status == .confirmed || row.status == .rejected)
        && row.auditState == .complete && row.inputPayload.isSome)
      (fun row => { row with inputPayload := none })
  else pure ()

/-! ## 世界とトランザクション -/

inductive Event where
  | committed (before after : Tables)
  | send (ref : OperationReference) (dispatchKey : String)
  | lookup (ref : OperationReference) (value : JsValue)

structure PolicyState where
  failures : Nat := 0
  openUntil : Nat := 0
  probe : Bool := false
  generation : Nat := 0

/-- 共有の世界。記録は新しいものが先で、呼び出しの番号が付く。`policy` は実行方針の実体ごとの状態である。 -/
structure World where
  tables : Tables
  log : List (Nat × Event)
  policy : Nat → PolicyState

def World.initial : World := { tables := .empty, log := [], policy := fun _ => {} }

def World.setPolicy (w : World) (n : Nat) (s : PolicyState) : World :=
  { w with policy := Function.update w.policy n s }

def World.record (w : World) (i : Nat) (e : Event) : World := { w with log := (i, e) :: w.log }

abbrev Task (α : Type) := ExceptT CommandErrorCode (Proc Oracle World) α

def Thrown.code : Thrown → CommandErrorCode
  | .command code => code
  | .other => .COMMAND_OUTCOME_UNKNOWN

/-- トランザクション一つ分の段。`ref` は本体が触れる操作で、確定の前に遅延トリガーを調べる。 -/
def transact {α : Type} (i : Nat) (ref : OperationReference) (body : Session α) (o : Oracle) (w : World) :
    Except CommandErrorCode α × World :=
  match o.commit with
  | .lostBefore e => (.error (Thrown.code e), w)
  | .done =>
    match body o w.tables with
    | .error e => (.error (Thrown.code e), w)
    | .ok (a, t) =>
      if t.rejectionAudited ref then (.ok a, ({ w with tables := t }).record i (.committed w.tables t))
      else (.error .COMMAND_OUTCOME_UNKNOWN, w)
  | .lostAfter e =>
    match body o w.tables with
    | .error e => (.error (Thrown.code e), w)
    | .ok (_, t) =>
      if t.rejectionAudited ref then
        (.error (Thrown.code e), ({ w with tables := t }).record i (.committed w.tables t))
      else (.error .COMMAND_OUTCOME_UNKNOWN, w)

def transaction {α : Type} (i : Nat) (ref : OperationReference) (body : Session α) : Task α :=
  ExceptT.mk (Proc.atomic (transact i ref body))

end Supacloud.Commands
