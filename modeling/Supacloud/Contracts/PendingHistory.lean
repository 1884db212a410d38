import Supacloud.Contracts.Values
import Supacloud.Library.Runs

/-!
# 保留の印（contracts/src/pending_command.ts、authoritative_command.ts）

保存先と通信は呼び出し側の渡すもので、待つ間に保存先が変わることもある。
-/

namespace Supacloud.Contracts

structure CommandLockStorage (σ : Type) where
  getItem : σ → JsString → Option (Option Text)
  setItem : σ → JsString → Text → Option σ
  removeItem : σ → JsString → Option σ

/-- `AuthoritativeCommandContract`。`none` は例外である。`accepts` は `matches` である。 -/
structure AuthoritativeCommandContract (κ α : Type) where
  input : Value → Option Value
  acknowledgement : Value → Option κ
  authority : Value → Option α
  lookupAuthority : Option (Value → Value → Option α)
  responseAuthority : Option (Value → Option α)
  accepts : Value → α → Option Bool

/-- 呼び出しの失敗。複製の失敗も、通信の失敗と同じところで捕らえられる。 -/
inductive Cause (ε : Type) where
  | rejected (e : ε)
  | clone

structure AuthoritativeCommandTransport (σ ε : Type) where
  send : Value → σ → Except ε Value × σ
  lookup : Value → σ → Except ε Value × σ
  isDefinitiveWriteFailure : Option (Cause ε → Option Bool)

inductive Confirmation where
  | lookup
  | response
  deriving DecidableEq

inductive Call where
  | persist (text : Text)
  | send (request : Value)
  | lookup (request : Value)
  | remove

inductive PendingFailure (ε : Type) where
  | contractInvalid
  | syntaxError
  | notStringifiable
  | notSerializable
  | invalidJson
  | changes
  | clone
  | storage
  | notPersisted
  | notCleared
  | unknown (input : Value) (cause : Option (Cause ε))
  | write (cause : Cause ε)

structure Session (σ : Type) where
  world : σ
  calls : List Call

abbrev Pending (σ ε : Type) := ExceptT (PendingFailure ε) (StateM (Session σ))

def Pending.exec {σ ε β : Type} (m : Pending σ ε β) (s : Session σ) : Except (PendingFailure ε) β × Session σ := m s

variable {σ ε κ α β : Type}

def orThrow (e : PendingFailure ε) : Option β → Pending σ ε β
  | some x => pure x
  | none => throw e

def record (call : Call) : Pending σ ε Unit := modify fun s => { s with calls := call :: s.calls }

/-! ## 保存先 -/

namespace CommandLockStorage

variable (storage : CommandLockStorage σ) (key : JsString)

def get : Pending σ ε (Option Text) := do
  orThrow .storage (storage.getItem (← MonadState.get).world key)

def set (text : Text) : Pending σ ε Unit := do
  let world ← orThrow .storage (storage.setItem (← MonadState.get).world key text)
  modify fun s => { s with world }
  record (.persist text)

def remove : Pending σ ε Unit := do
  let world ← orThrow .storage (storage.removeItem (← MonadState.get).world key)
  modify fun s => { s with world }
  record .remove

end CommandLockStorage

def clearPendingCommand (storage : CommandLockStorage σ) (key : JsString) (serialized : Text) : Pending σ ε Unit := do
  if (← storage.get key) = some serialized then
    storage.remove key
    if (← storage.get key) = some serialized then throw .notCleared

def callTransport (call : Value → Call) (send : Value → σ → Except ε Value × σ) (request : Value) :
    Pending σ ε (Except (Cause ε) Value) := do
  match request.structuredClone with
  | none => return .error .clone
  | some argument =>
    record (call argument)
    let s ← MonadState.get
    let (result, world) := send argument s.world
    modify fun s => { s with world }
    return result.mapError .rejected

variable (contract : AuthoritativeCommandContract κ α) (transport : AuthoritativeCommandTransport σ ε)

def AuthoritativeCommandTransport.sendCopy :
    Value → Pending σ ε (Except (Cause ε) Value) :=
  callTransport .send transport.send

def AuthoritativeCommandTransport.lookupCopy :
    Value → Pending σ ε (Except (Cause ε) Value) :=
  callTransport .lookup transport.lookup

/-! ## 回復 -/

/-- `String.prototype.trim` の除く符号単位。 -/
def isTrimmed (u : UInt16) : Bool :=
  u ∈ [9, 10, 11, 12, 13, 32, 160, 5760, 8232, 8233, 8239, 8287, 12288, 65279] || (8192 ≤ u && u ≤ 8202)

def isBlank (key : JsString) : Bool := key.all isTrimmed

def AuthoritativeCommandContract.confirm (decode : Value → Option α) (request : Option Value) (raw : Value) : Option (α × Bool) := do
  let authority ← decode raw
  let matched ← contract.accepts (← request) authority
  return (authority, matched)

/-- `lookupAuthority` があればそれで、なければ `authority` で読む。 -/
def AuthoritativeCommandContract.lookupDecoder (request : Option Value) :
    Value → Option α :=
  match contract.lookupAuthority with
  | none => contract.authority
  | some decode => fun raw => do decode raw (← request)

def settleRecovery (storage : CommandLockStorage σ) (key : JsString) (serialized : Text) (input : Value) : Except (Cause ε) Value → Pending σ ε (Value × α)
  | .error cause => throw (.unknown input (some cause))
  | .ok raw => do
    match contract.confirm (contract.lookupDecoder input.structuredClone) input.structuredClone raw with
    | some (authority, true) =>
      clearPendingCommand storage key serialized
      return (input, authority)
    | _ => throw (.unknown input none)

def recoverMarker (storage : CommandLockStorage σ) (key : JsString) (serialized : Text) : Pending σ ε (Value × α) := do
  let parsed ← orThrow .syntaxError (serialized.tree.map CommandJson.parse)
  let persisted ← orThrow .invalidJson (canonicalCommandJson parsed.toJs)
  let readback ← orThrow .contractInvalid (contract.input parsed)
  if (← orThrow .invalidJson (canonicalCommandJson readback.toJs)) ≠ persisted then throw .changes
  let input ← orThrow .clone readback.structuredClone
  settleRecovery contract storage key serialized input (← transport.lookupCopy input)

def recover (storage : CommandLockStorage σ) (key : JsString) : Pending σ ε (Option (Value × α)) := do
  match ← storage.get key with
  | none => return none
  | some serialized => return some (← recoverMarker contract transport storage key serialized)

def createPendingCommandRecovery (storage : CommandLockStorage σ) (key : JsString) : Option (Pending σ ε (Option (Value × α))) :=
  if isBlank key then none else some (recover contract transport storage key)

/-! ## 送信と確認 -/

/-- `AuthoritativeCommandOutcome` のうち、保留の印が読む部分。`unknown` は、照会が失敗したときその原因を持つ。 -/
inductive Outcome (ε α : Type) where
  | denied (cause : Cause ε)
  | confirmed (authority : α)
  | unknown (lookupFailure : Option (Cause ε))

/-- 送信の失敗は、確かに届いていないと分かるときだけ拒否とする。 -/
def isDenied (cause : Cause ε) : Bool :=
  match transport.isDefinitiveWriteFailure with
  | some classify => classify cause = some true
  | none => false

def confirmResponse (confirmation : Confirmation) (input raw : Value) : Option α :=
  if confirmation = .response ∧ (contract.acknowledgement raw).isSome then
    match contract.confirm (contract.responseAuthority.getD contract.authority) input.structuredClone raw with
    | some (authority, true) => some authority
    | _ => none
  else none

def executeAuthoritative (confirmation : Confirmation) (input : Value) : Pending σ ε (Outcome ε α) := do
  -- 要求の複製に失敗した "invalid" を、保留の印は結果が分からないものとして扱う
  if contract.lookupAuthority.isSome && input.structuredClone.isNone then return .unknown none
  let response ← transport.sendCopy input
  let denied := match response with
    | .error cause => isDenied transport cause
    | .ok _ => false
  let confirmed := match response with
    | .error _ => none
    | .ok raw => confirmResponse contract confirmation input raw
  match denied, response, confirmed with
  | true, .error cause, _ => return .denied cause
  | _, _, some authority => return .confirmed authority
  | _, _, none =>
    match ← transport.lookupCopy input with
    | .error cause => return .unknown (some cause)
    | .ok raw =>
      match contract.confirm (contract.lookupDecoder input.structuredClone) input.structuredClone raw with
      | some (authority, true) => return .confirmed authority
      | _ => return .unknown none

/-- 印を保存するまで。保存した文字列と、送る要求を返す。 -/
def prepareMarker (storage : CommandLockStorage σ) (key : JsString) (value : Value) : Pending σ ε (Text × Value) := do
  match ← storage.get key with
  | some existing =>
    let parsed ← orThrow .syntaxError (existing.tree.map CommandJson.parse)
    let pending ← orThrow .contractInvalid (contract.input parsed)
    throw (.unknown pending none)
  | none =>
    let decoded ← orThrow .contractInvalid (contract.input value)
    let written ← orThrow .notStringifiable decoded.stringify
    let serialized ← orThrow .notSerializable written
    let readback ← orThrow .contractInvalid (contract.input serialized.parse)
    if (← orThrow .notStringifiable readback.stringify) ≠ some serialized then throw .changes
    let input ← orThrow .clone readback.structuredClone
    storage.set key serialized.text
    if (← storage.get key) ≠ some serialized.text then throw .notPersisted
    return (serialized.text, input)

def executePending (storage : CommandLockStorage σ) (key : JsString) (confirmation : Confirmation) (value : Value) : Pending σ ε α := do
  let (serialized, input) ← prepareMarker contract storage key value
  match ← executeAuthoritative contract transport confirmation input with
  | .confirmed authority =>
    clearPendingCommand storage key serialized
    return authority
  | .denied cause =>
    clearPendingCommand storage key serialized
    throw (.write cause)
  | .unknown lookupFailure => throw (.unknown input lookupFailure)

def createPendingCommandClient (storage : CommandLockStorage σ) (key : JsString) (confirmation : Confirmation) :
    Option (Value → Pending σ ε α) :=
  if isBlank key then none else some (executePending contract transport storage key confirmation)

/-!
## 保留の印の履歴

一つの領域（realm）の一つの鍵に対して、送る側と回復する側の呼び出しが、待つところで入れ替わる。領域は読み直しで失われ、
保存先だけが残る。
-/

open Library

/-- 書くまでの間の保存先の不調。`ignored` は、書いたつもりで残らない。 -/
inductive Fault where
  | none | unreadable | unwritable | ignored
  deriving DecidableEq

structure Disk where
  slot : Option Text
  faults : List Fault

def Disk.fault (d : Disk) : Fault := d.faults.headD .none

def Disk.write (d : Disk) (slot : Option Text) : Option Disk :=
  match d.fault with
  | .unwritable => none
  | .ignored => some { d with faults := d.faults.tail }
  | .none | .unreadable => some { slot, faults := d.faults.tail }

def diskStorage : CommandLockStorage Disk where
  getItem := fun d _ => if d.fault = .unreadable then none else some d.slot
  setItem := fun d _ text => d.write (some text)
  removeItem := fun d _ => d.write none

def readMarker {σ : Type} (contract : AuthoritativeCommandContract κ α) (serialized : Text) : Pending σ ε Value := do
  let parsed ← orThrow .syntaxError (serialized.tree.map CommandJson.parse)
  let persisted ← orThrow .invalidJson (canonicalCommandJson parsed.toJs)
  let readback ← orThrow .contractInvalid (contract.input parsed)
  if (← orThrow .invalidJson (canonicalCommandJson readback.toJs)) ≠ persisted then throw .changes
  orThrow .clone readback.structuredClone

def startRecovery {σ : Type} (contract : AuthoritativeCommandContract κ α) (storage : CommandLockStorage σ) (key : JsString) :
    Pending σ ε (Option (Text × Value)) := do
  match ← storage.get key with
  | none => return none
  | some serialized => return some (serialized, ← readMarker contract serialized)

def denies (classify : Option (Cause ε → Option Bool)) (cause : Cause ε) : Bool :=
  match classify with
  | some classify => classify cause = some true
  | none => false

inductive Decision (α : Type) where
  | denied
  | confirmed (authority : α)
  | ask

def respond (classify : Option (Cause ε → Option Bool)) (confirmation : Confirmation) (input : Value) : Except (Cause ε) Value → Decision α
  | .error cause => if denies classify cause then .denied else .ask
  | .ok raw => match confirmResponse contract confirmation input raw with
    | some authority => .confirmed authority
    | none => .ask

def confirmLookup (input : Value) : Except ε Value → Option α
  | .error _ => none
  | .ok raw => match contract.confirm (contract.lookupDecoder input.structuredClone) input.structuredClone raw with
    | some (authority, true) => some authority
    | _ => none

/-! ## 領域 -/

inductive Stage where
  | sending (confirmation : Confirmation)
  | looking
  | recovering
  deriving DecidableEq

structure Setup (ε κ α : Type) where
  contract : AuthoritativeCommandContract κ α
  classify : Option (Cause ε → Option Bool)

/-- 進行中の呼び出し。`marker` は、送る側では保存した印、回復する側では読んだ印である。 -/
structure Flight (ε κ α : Type) extends Setup ε κ α where
  call : Nat
  marker : Text
  input : Value
  stage : Stage

inductive Note (α : Type) where
  | persisted (call : Nat) (marker : Text)
  | sent (call : Nat) (marker : Text) (request : Value)
  | looked (call : Nat) (marker : Text)
  | denied (call : Nat)
  | confirmed (call : Nat) (authority : α)
  | removed (call : Nat) (marker : Text)

structure Realm (ε κ α : Type) where
  slot : Option Text
  flights : List (Flight ε κ α)
  nextCall : Nat
  log : List (Note α)

def Realm.empty : Realm ε κ α := { slot := none, flights := [], nextCall := 0, log := [] }

inductive HistoryEvent (ε κ α : Type) where
  | call (setup : Setup ε κ α) (value : Value) (confirmation : Confirmation) (faults : List Fault)
  | recover (setup : Setup ε κ α) (faults : List Fault)
  | answer (call : Nat) (result : Except ε Value) (faults : List Fault)
  | reload

namespace Realm

def note (w : Realm ε κ α) (note : Note α) : Realm ε κ α := { w with log := note :: w.log }

def drop (w : Realm ε κ α) (call : Nat) : Realm ε κ α := { w with flights := w.flights.filter fun f => f.call ≠ call }

def wait (w : Realm ε κ α) (flight : Flight ε κ α) : Realm ε κ α :=
  { w.drop flight.call with flights := flight :: (w.drop flight.call).flights }

def enter (w : Realm ε κ α) : Realm ε κ α := { w with nextCall := w.nextCall + 1 }

def persist (w : Realm ε κ α) (call : Nat) (slot : Option Text) : Realm ε κ α :=
  match w.slot, slot with
  | none, some marker => { w with slot, log := .persisted call marker :: w.log }
  | _, _ => { w with slot }

def clear (w : Realm ε κ α) (key : JsString) (call : Nat) (marker : Text) (faults : List Fault) : Realm ε κ α :=
  let slot := ((clearPendingCommand diskStorage key marker : Pending Disk ε Unit).exec ⟨⟨w.slot, faults⟩, []⟩).2.world.slot
  match w.slot, slot with
  | some found, none => { w with slot, log := .removed call found :: w.log }
  | _, _ => { w with slot }

def settle (w : Realm ε κ α) (key : JsString) (flight : Flight ε κ α) (outcome : Note α) (faults : List Fault) : Realm ε κ α :=
  ((w.drop flight.call).note outcome).clear key flight.call flight.marker faults

def look (w : Realm ε κ α) (flight : Flight ε κ α) : Realm ε κ α :=
  match flight.input.structuredClone with
  | none => w.drop flight.call
  | some _ => w.wait { flight with stage := .looking }

def handle (w : Realm ε κ α) (key : JsString) (flight : Flight ε κ α) (confirmation : Confirmation)
    (response : Except (Cause ε) Value) (faults : List Fault) : Realm ε κ α :=
  match respond flight.contract flight.classify confirmation flight.input response with
  | .denied => w.settle key flight (.denied flight.call) faults
  | .confirmed authority => w.settle key flight (.confirmed flight.call authority) faults
  | .ask => w.look flight

def send (w : Realm ε κ α) (key : JsString) (flight : Flight ε κ α) (confirmation : Confirmation) (faults : List Fault) :
    Realm ε κ α :=
  if flight.contract.lookupAuthority.isSome && flight.input.structuredClone.isNone then w
  else match flight.input.structuredClone with
    | none => w.handle key flight confirmation (.error .clone) faults
    | some request => (w.note (.sent flight.call flight.marker request)).wait flight

def call (w : Realm ε κ α) (key : JsString) (setup : Setup ε κ α) (value : Value) (confirmation : Confirmation)
    (faults : List Fault) : Realm ε κ α :=
  let (result, s) := (prepareMarker setup.contract diskStorage key value : Pending Disk ε (Text × Value)).exec ⟨⟨w.slot, faults⟩, []⟩
  let w' := w.enter.persist w.nextCall s.world.slot
  match result with
  | .error _ => w'
  | .ok (marker, input) =>
    w'.send key { toSetup := setup, call := w.nextCall, marker, input, stage := .sending confirmation } confirmation s.world.faults

def recover (w : Realm ε κ α) (key : JsString) (setup : Setup ε κ α) (faults : List Fault) : Realm ε κ α :=
  match ((startRecovery setup.contract diskStorage key : Pending Disk ε (Option (Text × Value))).exec ⟨⟨w.slot, faults⟩, []⟩).1 with
  | .ok (some (marker, input)) => match input.structuredClone with
    | none => w.enter
    | some _ => (w.enter.note (.looked w.nextCall marker)).wait
        { toSetup := setup, call := w.nextCall, marker, input, stage := .recovering }
  | _ => w.enter

def answer (w : Realm ε κ α) (key : JsString) (flight : Flight ε κ α) (result : Except ε Value) (faults : List Fault) : Realm ε κ α :=
  match flight.stage with
  | .sending confirmation => w.handle key flight confirmation (result.mapError .rejected) faults
  | .looking | .recovering => match confirmLookup flight.contract flight.input result with
    | none => w.drop flight.call
    | some authority => w.settle key flight (.confirmed flight.call authority) faults

def flight (w : Realm ε κ α) (call : Nat) : Option (Flight ε κ α) := w.flights.find? fun f => f.call = call

end Realm

def historyStep (key : JsString) (w : Realm ε κ α) : HistoryEvent ε κ α → Realm ε κ α
  | .call setup value confirmation faults => w.call key setup value confirmation faults
  | .recover setup faults => w.recover key setup faults
  | .answer call result faults => match w.flight call with
    | none => w
    | some flight => w.answer key flight result faults
  | .reload => { w with flights := [] }

def historyReached (key : JsString) (es : List (HistoryEvent ε κ α)) : Realm ε κ α := run (historyStep key) Realm.empty es

/-! ## 履歴の性質 -/

def holder : List (Note α) → Option (Nat × Text)
  | [] => none
  | .persisted call marker :: _ => some (call, marker)
  | _ :: log => holder log

/-- 送った呼び出しが、拒否か確認で終わったか、送った後に印を読んだ回復が確認で終わった。 -/
def Resolved (call : Nat) (marker : Text) (later : List (Note α)) : Prop :=
  .denied call ∈ later ∨ (∃ authority, .confirmed call authority ∈ later) ∨
    ∃ recovery authority, .looked recovery marker ∈ later ∧ .confirmed recovery authority ∈ later

def EachSent (P : Nat → Text → List (Note α) → Prop) (log : List (Note α)) : Prop :=
  ∀ later call marker request earlier, log = later ++ .sent call marker request :: earlier → P call marker later

/-- どの送信も、その結果が確かになるまで、送った印が保存されている。 -/
def Realm.Keeps (w : Realm ε κ α) : Prop :=
  EachSent (fun call marker later => w.slot = some marker ∨ Resolved call marker later) w.log

/-- 送るのは、印のないところに自分の印を保存した呼び出しだけであり、印は送る要求そのものである。 -/
def SendsStored (key : JsString) (w : Realm ε κ α) (e : HistoryEvent ε κ α) : Prop :=
  ∃ new, (historyStep key w e).log = new ++ w.log ∧ ∀ call marker request, .sent call marker request ∈ new →
    w.slot = none ∧ (historyStep key w e).slot = some marker ∧ holder (historyStep key w e).log = some (call, marker) ∧
      ∃ j, marker = j.text ∧ request.stringify = some (some j)

def Flight.Reads (f : Flight ε κ α) : Prop :=
  ∃ j readback, f.marker.tree = some j ∧ f.contract.input j.parse = some readback ∧ readback.structuredClone = some f.input

def Flight.Accepts (f : Flight ε κ α) (raw : Value) : Prop :=
  ∃ decode ∈ [f.contract.authority, f.contract.responseAuthority.getD f.contract.authority, f.contract.lookupDecoder (some f.input)],
    ∃ authority, decode raw = some authority ∧ f.contract.accepts f.input authority = some true

def Flight.Denies (f : Flight ε κ α) (e : ε) : Prop := (∃ confirmation, f.stage = .sending confirmation) ∧ denies f.classify (.rejected e)

/-- 印が消えるのは、それを保存した呼び出しか、それを読んだ回復が、自分の要求の結果を確かめたときだけである。 -/
def RemovesSettled (key : JsString) (w : Realm ε κ α) (e : HistoryEvent ε κ α) : Prop :=
  ∀ marker, w.slot = some marker → (historyStep key w e).slot ≠ some marker →
    (historyStep key w e).slot = none ∧ ∃ call result faults f, e = .answer call result faults ∧ w.flight call = some f ∧
      f.marker = marker ∧ f.Reads ∧ (f.stage ≠ .recovering → holder w.log = some (f.call, marker)) ∧
      match result with
      | .ok raw => f.Accepts raw
      | .error e => f.Denies e

/-- 印のないところへの呼び出しでは、保存する印と同じ文字列の印を持つ呼び出しが進行中でなく、読み直した要求の複製は同じ文字列に
なる。 -/
def Distinct (w : Realm ε κ α) : HistoryEvent ε κ α → Prop
  | .call setup value _ _ => w.slot = none → ∀ decoded j, setup.contract.input value = some decoded →
      decoded.stringify = some (some j) → (∀ f ∈ w.flights, f.marker ≠ j.text) ∧
        ∀ readback input, setup.contract.input j.parse = some readback → readback.structuredClone = some input →
          readback.stringify = some (some j) → input.stringify = some (some j)
  | _ => True

end Supacloud.Contracts
