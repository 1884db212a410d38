import Supacloud.AuditChain.Chain
import Supacloud.Commands.Store

/-!
# コマンドの文脈（commands/src/context.ts）

`input`、`result`、`matches` は利用者が渡す関数、`digest` は SHA-256 の十六進表記である。
-/

namespace Supacloud.Commands

open Contracts Library Session

/-- `PersistentCommandDefinition` と `ExternalCommandDefinition`。省略できる項目は有無だけを持つ。 -/
structure Definition (ρ : Type) where
  name : String
  input : JsValue → Option JsValue
  result : JsValue → Option ρ
  digest : CommandJson → String
  auditEvent : String
  auditDetails : JsValue → ρ → JsValue
  hasAuthorizeRecovery : Bool
  «matches» : JsValue → ρ → Bool
  rejection : Option (String × (JsValue → JsValue))
  rejectSupported : Bool
  submission : Option String

structure Prepared where
  reference : OperationReference
  input : JsValue
  canonical : CommandJson
  fingerprint : String
  payload : String

section

variable {ρ : Type} (d : Definition ρ)

def reference (identity : CommandIdentity) (key : String) : Except CommandErrorCode OperationReference :=
  match decodeValidatedCommandReference { identity with command := d.name, operationId := key } with
  | some ref => .ok ref
  | none => .error .COMMAND_INPUT_INVALID

/-- 入力を正規化し、もう一度読んで同じ正規の文字列になることを確かめる。 -/
def decodeInput (value : JsValue) : Option (JsValue × CommandJson) := do
  let canonical ← canonicalCommandJson (← d.input value)
  let input ← d.input canonical.toValue
  if canonicalCommandJson input = some canonical then some (input, canonical) else none

/-- `prepare`。`encoded` は `inputCodec.encode` の結末で、文字列を返さなければ `COMMAND_UNAVAILABLE` である。 -/
def prepare (identity : CommandIdentity) (key : String) (value : JsValue) (encoded : Option String) :
    Except CommandErrorCode Prepared := do
  let ref ← reference d identity key
  match decodeInput d value with
  | none => .error .COMMAND_INPUT_INVALID
  | some (input, canonical) =>
    match encoded with
    | none => .error .COMMAND_UNAVAILABLE
    | some payload => .ok { reference := ref, input, canonical, fingerprint := d.digest canonical, payload }

def prepareTask (identity : CommandIdentity) (key : String) (value : JsValue) : Task Prepared :=
  ExceptT.mk (Proc.atomic (fun o w => (prepare d identity key value o.encoded, w)))

def checkAuthorization : Session Unit := do
  match (← oracle).authorization with
  | .threw => throwCode .COMMAND_UNAVAILABLE
  | .deny => throwCode .COMMAND_REJECTED
  | .malformed => throwCode .COMMAND_UNAVAILABLE
  | .allow => pure ()

def authorize (principal : Option String) : Session Unit :=
  match principal with
  | some subject => do
    let _ ← orThrow .other (commandIdentifier subject)
    if !d.hasAuthorizeRecovery then throwCode .COMMAND_REJECTED
    else checkAuthorization
  | none => checkAuthorization

def lockRequest (request : Prepared) (principal : Option String) : Session Unit := do
  lock request.reference
  authorize d principal

def find (request : Prepared) (kind : CommandKind) : Session (Option (DurableCommandReceipt ρ)) := do
  match ← read request.reference with
  | none => return none
  | some stored =>
    if stored.inputFingerprint ≠ request.fingerprint ∨ stored.kind ≠ kind then
      throwCode .COMMAND_IDEMPOTENCY_CONFLICT
    else
      match decodeDurableCommandReceipt stored.receipt d.result with
      | none => throwCode .COMMAND_RECEIPT_INVALID
      | some receipt =>
        if receipt.reference ≠ request.reference then throwCode .COMMAND_RECEIPT_INVALID
        else
          match kind, receipt.state with
          | .external, _ => return some receipt
          | .transactional, .confirmed .complete _ => return some receipt
          | .transactional, _ => throwCode .COMMAND_RECEIPT_INVALID

def restore (identity : CommandIdentity) (key : String) (principal : Option String) :
    Session (Option Prepared) := do
  match reference d identity key with
  | .error code => throwCode code
  | .ok ref =>
    lock ref
    match ← read ref with
    | none => return none
    | some stored =>
      match stored.inputPayload with
      | none => throwCode .COMMAND_INPUT_EXPIRED
      | some _ =>
        let o ← oracle
        match o.decoded with
        | none => throwCode .COMMAND_UNAVAILABLE
        | some json =>
          match prepare d identity key json o.encoded with
          | .error code => throwCode code
          | .ok request =>
            if request.fingerprint ≠ stored.inputFingerprint then throwCode .COMMAND_RECEIPT_INVALID
            else
              authorize d principal
              return some request

def restoreTask (i : Nat) (identity : CommandIdentity) (key : String) (principal : Option String) :
    Task (Option Prepared) :=
  match reference d identity key with
  | .error code => throw code
  | .ok ref => transaction i ref (restore d identity key principal)

def audit (request : Prepared) (result : ρ) : Session Unit := do
  let details ← orThrow .other (canonicalCommandJson (d.auditDetails request.input result))
  mayThrow (← oracle).auditWrite
  auditInsert request.reference d.auditEvent details

def insertReceipt (request : Prepared) (kind : CommandKind) (raw : Option CommandJson) : Session Unit := do
  let receipt : DurableCommandReceipt CommandJson :=
    { reference := request.reference
      dispatchKey := (← oracle).uuid
      state := match raw with
        | none => .pending
        | some result => .confirmed .complete result }
  insert d.submission
    { receipt, kind, inputFingerprint := request.fingerprint, inputPayload := some request.payload }

end

/-!
## 外部への送信を伴うコマンド（commands/src/external.ts）

`i` は呼び出しの番号で、記録に付く。`send` の呼び出しと完了は別の段である。
-/

section

variable {ρ : Type} (d : Definition ρ) (i : Nat)

variable (identity : CommandIdentity) (key : String) (value : JsValue) (request : Prepared) (principal : Option String)

def lookup :
    Task (Option (DurableCommandReceipt ρ)) := do
  let request ← prepareTask d identity key value
  transaction i request.reference do
    lockRequest d request principal
    find d request .external

def flushAuditBody :
    Session (Option (DurableCommandReceipt ρ)) := do
  lockRequest d request principal
  match ← find d request .external with
  | none => return none
  | some receipt =>
    match receipt.state with
    | .confirmed .pending result =>
      audit d request result
      completeAudit request.reference
      find d request .external
    | _ => return some receipt

def flushAudit :
    Task (Option (DurableCommandReceipt ρ)) := do
  let request ← prepareTask d identity key value
  transaction i request.reference (flushAuditBody d request principal)

/-- `definition.lookup` の呼び出し。返った値を記録し、正規化して `matches` が認めた値だけを確認とする。 -/
def lookupConfirmation (o : Oracle) (w : World) : Option CommandJson × World :=
  match o.lookup with
  | none => (none, w)
  | some value =>
    let w' := w.record i (.lookup request.reference value)
    match canonicalCommandJson value with
    | none => (none, w')
    | some raw =>
      match d.result raw.toValue with
      | none => (none, w')
      | some result => (if d.matches request.input result then some raw else none, w')

/-- 確認した値があれば確認し、なければ結果不明にする。`askedLookup` は、先の読み取りで確認済みでなかったことを表す。 -/
def settleLookup (confirmation : Option CommandJson) (askedLookup : Bool) : Session Unit :=
  match confirmation with
  | some raw => confirm request.reference raw
  | none => if askedLookup then markUnknown request.reference else pure ()

def reconcileBody (confirmation : Option CommandJson) (askedLookup : Bool) : Session (Option (DurableCommandReceipt ρ)) := do
  lockRequest d request principal
  match ← find d request .external with
  | none => return none
  | some current =>
    match current.state with
    | .confirmed _ _ | .rejected => return some current
    | .pending | .unknown =>
      settleLookup request confirmation askedLookup
      find d request .external

/-- 確認した後の監査の書き出し。`COMMAND_REJECTED` だけを投げ直し、ほかの失敗では先の受領証を返す。 -/
def reconcileFlush (receipt : Option (DurableCommandReceipt ρ)) : Task (Option (DurableCommandReceipt ρ)) :=
  match receipt with
  | none => pure none
  | some r =>
    match r.state with
    | .confirmed .pending _ =>
      tryCatch (flushAudit d i identity key value principal) fun code =>
        if code = .COMMAND_REJECTED then throw code else pure (some r)
    | _ => pure (some r)

def reconcile :
    Task (Option (DurableCommandReceipt ρ)) := do
  let request ← prepareTask d identity key value
  match ← lookup d i identity key value principal with
  | none => return none
  | some before =>
    match before.state with
    | .rejected => return some before
    | .confirmed _ _ =>
      let receipt ← transaction i request.reference (reconcileBody d request principal none false)
      reconcileFlush d i identity key value principal receipt
    | .pending | .unknown =>
      let confirmation ← ExceptT.lift (Proc.atomic (lookupConfirmation d i request))
      let receipt ← transaction i request.reference (reconcileBody d request principal confirmation true)
      reconcileFlush d i identity key value principal receipt

/-- 最初のトランザクション。受領証がなければ `pending` を書き、新しく得たことを返す。 -/
def acquireBody : Session (Bool × DurableCommandReceipt ρ) := do
  lockRequest d request none
  match ← find d request .external with
  | some existing => return (false, existing)
  | none =>
    if d.rejection.isSome && !d.rejectSupported then throwCode .COMMAND_UNAVAILABLE
    else
      insertReceipt d request .external none
      match ← find d request .external with
      | none => throwCode .COMMAND_RECEIPT_INVALID
      | some receipt => return (true, receipt)

def rejectBody (event : String) (details : JsValue → JsValue) :
    Session (DurableCommandReceipt ρ) := do
  lockRequest d request none
  match ← find d request .external with
  | none => throwCode .COMMAND_RECEIPT_INVALID
  | some current =>
    match current.state with
    | .confirmed _ _ | .rejected => return current
    | .pending | .unknown =>
      if !d.rejectSupported then throwCode .COMMAND_UNAVAILABLE
      else
        let json ← orThrow .other (canonicalCommandJson (details request.input))
        mayThrow (← oracle).auditWrite
        auditInsert request.reference event json
        reject request.reference
        match ← find d request .external with
        | some rejected =>
          match rejected.state with
          | .rejected => return rejected
          | _ => throwCode .COMMAND_RECEIPT_INVALID
        | none => throwCode .COMMAND_RECEIPT_INVALID

def send (request : Prepared) (dispatchKey : String) : Task SendOutcome := do
  ExceptT.lift (Proc.atomic (fun _ w => ((), w.record i (.send request.reference dispatchKey))))
  ExceptT.lift (Proc.atomic (fun o w => (o.send, w)))

def rejectTask (event : String) (details : JsValue → JsValue) :
    Task (Option (DurableCommandReceipt ρ)) := do
  return some (← transaction i request.reference (rejectBody d request event details))

def reconcileSent :
    Task (Option (DurableCommandReceipt ρ)) := do
  match ← reconcile d i identity key request.input none with
  | none => throw .COMMAND_OUTCOME_UNKNOWN
  | some receipt => return some receipt

/-- 受領証を新しく得た後。送信し、その結末に応じて拒否か照合に進む。どの失敗も結果不明として投げる。 -/
def dispatch (dispatchKey : String) :
    Task (Option (DurableCommandReceipt ρ)) := do
  match ← send i request dispatchKey, d.rejection with
  | .threw (some true), some (event, details) =>
    tryCatch (rejectTask d i request event details) fun _ => throw .COMMAND_OUTCOME_UNKNOWN
  | _, _ =>
    tryCatch (reconcileSent d i identity key request) fun _ => throw .COMMAND_OUTCOME_UNKNOWN

def executePrepared :
    Task (Option (DurableCommandReceipt ρ)) := do
  let request ← prepareTask d identity key value
  let (acquired, receipt) ← transaction i request.reference (acquireBody d request)
  if acquired then dispatch d i identity key request receipt.dispatchKey else return some receipt

def execute :
    Task (Option (DurableCommandReceipt ρ)) := do
  let aborted ← ExceptT.lift (Proc.atomic (fun o w => (o.aborted, w)))
  if aborted then throw .COMMAND_UNAVAILABLE else executePrepared d i identity key value

def lookupByReference :
    Task (Option (DurableCommandReceipt ρ)) := do
  match ← restoreTask d i identity key none with
  | none => return none
  | some request => lookup d i identity key request.input none

def reconcileByReference :
    Task (Option (DurableCommandReceipt ρ)) := do
  match ← restoreTask d i identity key none with
  | none => return none
  | some request => reconcile d i identity key request.input none

def flushAuditByReference :
    Task (Option (DurableCommandReceipt ρ)) := do
  match ← restoreTask d i identity key none with
  | none => return none
  | some request => flushAudit d i identity key request.input none

def recoverCompletedBody (ref : OperationReference) : Session (Option (DurableCommandReceipt ρ)) := do
  lock ref
  if !d.hasAuthorizeRecovery then throwCode .COMMAND_REJECTED
  else
    checkAuthorization
    match ← read ref with
    | none => return none
    | some stored =>
      match stored.receipt.state with
      | .pending | .unknown | .confirmed .pending _ => return none
      | .rejected | .confirmed .complete _ =>
        if stored.kind ≠ .external then throwCode .COMMAND_RECEIPT_INVALID
        else
          let receipt ← orThrow .other (decodeDurableCommandReceipt stored.receipt d.result)
          if receipt.reference ≠ ref then throwCode .COMMAND_RECEIPT_INVALID else return some receipt

def recover (subject : String) (ref : OperationReference) : Task (Option (DurableCommandReceipt ρ)) := do
  if ref.command ≠ d.name then throw .COMMAND_REJECTED
  else
    match ← transaction i ref (recoverCompletedBody d ref) with
    | some completed => return some completed
    | none =>
      match ← restoreTask d i ref.toCommandIdentity ref.operationId (some subject) with
      | none => return none
      | some request => reconcile d i ref.toCommandIdentity ref.operationId request.input (some subject)

end

/-! ## 呼び出し -/

inductive ExternalCall where
  | execute (identity : CommandIdentity) (key : String) (value : JsValue)
  | lookup (identity : CommandIdentity) (key : String) (value : JsValue)
  | reconcile (identity : CommandIdentity) (key : String) (value : JsValue)
  | flushAudit (identity : CommandIdentity) (key : String) (value : JsValue)
  | lookupByReference (identity : CommandIdentity) (key : String)
  | reconcileByReference (identity : CommandIdentity) (key : String)
  | flushAuditByReference (identity : CommandIdentity) (key : String)
  | recover (subject : String) (ref : OperationReference)
  | redactCompleted (ref : OperationReference)

def ExternalCall.task {ρ : Type} (d : Definition ρ) (i : Nat) :
    ExternalCall → Task (Option (DurableCommandReceipt ρ))
  | .execute identity key value => Commands.execute d i identity key value
  | .lookup identity key value => Commands.lookup d i identity key value none
  | .reconcile identity key value => Commands.reconcile d i identity key value none
  | .flushAudit identity key value => Commands.flushAudit d i identity key value none
  | .lookupByReference identity key => Commands.lookupByReference d i identity key
  | .reconcileByReference identity key => Commands.reconcileByReference d i identity key
  | .flushAuditByReference identity key => Commands.flushAuditByReference d i identity key
  | .recover subject ref => Commands.recover d i subject ref
  | .redactCompleted ref => do
    transaction i ref (redact ref)
    return none

abbrev Outcome (ρ : Type) := Except CommandErrorCode (Option (DurableCommandReceipt ρ))

def externalStart {ρ : Type} (d : Definition ρ) (calls : Nat → ExternalCall) :
    Config Nat Oracle World (Outcome ρ) :=
  { world := .initial, proc := fun i => ((calls i).task d i).run }

/-!
## 正規の文字列の綴り（contracts/src/receipts.ts）

`decodeCommandJson` は整列した項目から `Object.fromEntries` でオブジェクトを作るので、`JSON.stringify` は添字の鍵を先に書く。
文字列は、書いた順に項目の並ぶ構文木と同一視する。
-/

open AuditChain (Json enumerate)

mutual
/-- 項目を、`Object.fromEntries` の作るオブジェクトの列挙の順に並べる。 -/
def arrange : Json → Json
  | .array items => .array (arrangeItems items)
  | .object entries => .object (enumerate (arrangeEntries entries))
  | .null => .null
  | .boolean b => .boolean b
  | .number n => .number n
  | .string s => .string s

def arrangeItems : List Json → List Json
  | [] => []
  | item :: items => arrange item :: arrangeItems items

def arrangeEntries : List (JsString × Json) → List (JsString × Json)
  | [] => []
  | (key, value) :: entries => (key, arrange value) :: arrangeEntries entries
end

def canonicalText (value : JsValue) : Option Json := (canonicalCommandJson value).map arrange

/-- 正規の文字列の `JSON.parse`。項目はもう列挙の順に並んでいる。 -/
def jsonParse (text : Json) : JsValue := text.toValue

end Supacloud.Commands
