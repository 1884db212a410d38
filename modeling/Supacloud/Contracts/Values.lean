import Mathlib.Data.Rat.Defs
import Mathlib.Data.List.Sort

/-!
# コマンドの JSON（contracts/src/receipts.ts）

JSON に書けない値（`undefined`、関数、有限でない数、クラスの実体、循環する値など）は `other` にまとめる。
文字列は UTF-16 の符号単位の列、`JSON.stringify` の結果は構文木 `CommandJson` とする。
-0 は 0 と印字されるので、数は有理数で表す。
-/

namespace Supacloud.Contracts

open Option

abbrev JsString := List UInt16

/-- `unknown` 型の値。オブジェクトは、列挙できる自身の項目の並びである。 -/
inductive JsValue where
  | null
  | boolean (b : Bool)
  | number (n : Rat)
  | string (s : JsString)
  | array (items : List JsValue)
  | object (entries : List (JsString × JsValue))
  | other

/-- 正規の JSON。オブジェクトの項目は鍵の順に並ぶ。 -/
inductive CommandJson where
  | null
  | boolean (b : Bool)
  | number (n : Rat)
  | string (s : JsString)
  | array (items : List CommandJson)
  | object (entries : List (JsString × CommandJson))

namespace CommandJson

mutual
def decEq : (a b : CommandJson) → Decidable (a = b)
  | .null, .null => isTrue rfl
  | .boolean a, .boolean b => decidable_of_iff (a = b) (by simp)
  | .number a, .number b => decidable_of_iff (a = b) (by simp)
  | .string a, .string b => decidable_of_iff (a = b) (by simp)
  | .array a, .array b =>
    match decEqItems a b with
    | isTrue h => isTrue (by rw [h])
    | isFalse h => isFalse (fun e => h (by cases e; rfl))
  | .object a, .object b =>
    match decEqEntries a b with
    | isTrue h => isTrue (by rw [h])
    | isFalse h => isFalse (fun e => h (by cases e; rfl))
  | .null, .boolean _ | .null, .number _ | .null, .string _ | .null, .array _ | .null, .object _
  | .boolean _, .null | .boolean _, .number _ | .boolean _, .string _ | .boolean _, .array _
  | .boolean _, .object _ | .number _, .null | .number _, .boolean _ | .number _, .string _
  | .number _, .array _ | .number _, .object _ | .string _, .null | .string _, .boolean _
  | .string _, .number _ | .string _, .array _ | .string _, .object _ | .array _, .null
  | .array _, .boolean _ | .array _, .number _ | .array _, .string _ | .array _, .object _
  | .object _, .null | .object _, .boolean _ | .object _, .number _ | .object _, .string _
  | .object _, .array _ => isFalse (fun e => by cases e)

def decEqItems : (a b : List CommandJson) → Decidable (a = b)
  | [], [] => isTrue rfl
  | x :: xs, y :: ys =>
    match decEq x y, decEqItems xs ys with
    | isTrue h, isTrue hs => isTrue (by rw [h, hs])
    | isFalse h, _ => isFalse (fun e => h (by cases e; rfl))
    | _, isFalse hs => isFalse (fun e => hs (by cases e; rfl))
  | [], _ :: _ | _ :: _, [] => isFalse (fun e => by cases e)

def decEqEntries : (a b : List (JsString × CommandJson)) → Decidable (a = b)
  | [], [] => isTrue rfl
  | (k, x) :: xs, (l, y) :: ys =>
    match decEq x y, decEqEntries xs ys with
    | isTrue h, isTrue hs =>
      if hk : k = l then isTrue (by rw [h, hs, hk]) else isFalse (fun e => hk (by cases e; rfl))
    | isFalse h, _ => isFalse (fun e => h (by cases e; rfl))
    | _, isFalse hs => isFalse (fun e => hs (by cases e; rfl))
  | [], _ :: _ | _ :: _, [] => isFalse (fun e => by cases e)
end

instance : DecidableEq CommandJson := decEq

/-! ## `JSON.parse` -/

mutual
def toValue : CommandJson → JsValue
  | .null => .null
  | .boolean b => .boolean b
  | .number n => .number n
  | .string s => .string s
  | .array items => .array (toValues items)
  | .object entries => .object (toEntries entries)

def toValues : List CommandJson → List JsValue
  | [] => []
  | x :: xs => x.toValue :: toValues xs

def toEntries : List (JsString × CommandJson) → List (JsString × JsValue)
  | [] => []
  | (k, x) :: xs => (k, x.toValue) :: toEntries xs
end

end CommandJson

/-! ## 検査と正規化 -/

/-- 鍵の順に項目を差し込む。鍵の比較は符号単位の辞書順である。 -/
def insertEntry (e : JsString × CommandJson) : List (JsString × CommandJson) → List (JsString × CommandJson)
  | [] => [e]
  | x :: xs => if x.1 ≤ e.1 then x :: insertEntry e xs else e :: x :: xs

/-- `Object.entries(item).sort(...)`。安定な整列である。 -/
def sortEntries (es : List (JsString × CommandJson)) : List (JsString × CommandJson) :=
  es.foldl (fun acc e => insertEntry e acc) []

mutual
/-- `decodeCommandJson` の `visit`。深さが 100 を超えるか、JSON に書けない値があれば失敗する。 -/
def JsValue.visit : JsValue → Nat → Option CommandJson
  | .null, depth => if depth > 100 then none else some .null
  | .boolean b, depth => if depth > 100 then none else some (.boolean b)
  | .number n, depth => if depth > 100 then none else some (.number n)
  | .string s, depth => if depth > 100 then none else some (.string s)
  | .array items, depth =>
    if depth > 100 then none else (JsValue.visitItems items (depth + 1)).map .array
  | .object entries, depth =>
    if depth > 100 then none
    else (JsValue.visitEntries entries (depth + 1)).map (fun es => .object (sortEntries es))
  | .other, _ => none

def JsValue.visitItems : List JsValue → Nat → Option (List CommandJson)
  | [], _ => some []
  | x :: xs, depth => do
      let y ← x.visit depth
      let ys ← JsValue.visitItems xs depth
      return y :: ys

def JsValue.visitEntries : List (JsString × JsValue) → Nat → Option (List (JsString × CommandJson))
  | [], _ => some []
  | (k, x) :: xs, depth => do
      let y ← x.visit depth
      let ys ← JsValue.visitEntries xs depth
      return (k, y) :: ys
end

def decodeCommandJson (value : JsValue) : Option CommandJson := value.visit 0

def canonicalCommandJson (value : JsValue) : Option CommandJson := decodeCommandJson value

/-!
## 値の直列化と複製

どれも JavaScript の標準の関数である。取り出しのたびに値の変わる項目と、列挙されない `toJSON` は扱わない。
-/

/-- 素でないオブジェクトの `structuredClone`。`plain` はクラスの実体で、素のオブジェクトになる。 -/
inductive CloneKind where
  | native
  | plain
  | refused

/-- JavaScript の値。`ancestor` は循環を表す。`exotic` は素のオブジェクトでも配列でもなく、`json` は
`JSON.stringify` が代わりに書く値である。 -/
inductive Value where
  | undefined
  | null
  | boolean (b : Bool)
  | number (n : Rat)
  | nonFinite
  | string (s : JsString)
  | bigint
  | callable
  | ancestor
  | array (items : List Value)
  | object (entries : List (JsString × Value))
  | exotic (entries : List (JsString × Value)) (json : Option Value) (kind : CloneKind)

namespace Value

mutual
/-- `JSON.stringify`。失敗は例外、内側の `none` は `undefined` である。 -/
def stringify : Value → Option (Option CommandJson)
  | .undefined => some none
  | .null => some (some .null)
  | .boolean b => some (some (.boolean b))
  | .number n => some (some (.number n))
  | .nonFinite => some (some .null)
  | .string s => some (some (.string s))
  | .bigint => none
  | .callable => some none
  | .ancestor => none
  | .array items => (stringifyItems items).map fun xs => some (.array xs)
  | .object entries => (stringifyEntries entries).map fun es => some (.object es)
  | .exotic entries none _ => (stringifyEntries entries).map fun es => some (.object es)
  | .exotic _ (some view) _ => view.stringify

def stringifyItems : List Value → Option (List CommandJson)
  | [] => some []
  | x :: xs =>
    match x.stringify, stringifyItems xs with
    | some y, some ys => some (y.getD .null :: ys)
    | _, _ => none

def stringifyEntries : List (JsString × Value) → Option (List (JsString × CommandJson))
  | [] => some []
  | (k, x) :: xs =>
    match x.stringify, stringifyEntries xs with
    | some (some y), some ys => some ((k, y) :: ys)
    | some none, some ys => some ys
    | _, _ => none
end

/-! ## `structuredClone` -/

mutual
def structuredClone : Value → Option Value
  | .callable => none
  | .array items => (cloneItems items).map .array
  | .object entries => (cloneEntries entries).map .object
  | .exotic _ json .native => some (.exotic [] json .native)
  | .exotic entries _ .plain => (cloneEntries entries).map .object
  | .exotic _ _ .refused => none
  | .undefined => some .undefined
  | .null => some .null
  | .boolean b => some (.boolean b)
  | .number n => some (.number n)
  | .nonFinite => some .nonFinite
  | .string s => some (.string s)
  | .bigint => some .bigint
  | .ancestor => some .ancestor

def cloneItems : List Value → Option (List Value)
  | [] => some []
  | x :: xs =>
    match x.structuredClone, cloneItems xs with
    | some y, some ys => some (y :: ys)
    | _, _ => none

def cloneEntries : List (JsString × Value) → Option (List (JsString × Value))
  | [] => some []
  | (k, x) :: xs =>
    match x.structuredClone, cloneEntries xs with
    | some y, some ys => some ((k, y) :: ys)
    | _, _ => none
end

/-! ## コマンドの JSON としての値 -/

mutual
/-- `decodeCommandJson` から見た値。素のオブジェクトと配列の外は、どれも JSON に書けない値である。 -/
def toJs : Value → JsValue
  | .null => .null
  | .boolean b => .boolean b
  | .number n => .number n
  | .string s => .string s
  | .array items => .array (toJsItems items)
  | .object entries => .object (toJsEntries entries)
  | .undefined | .nonFinite | .bigint | .callable | .ancestor | .exotic .. => .other

def toJsItems : List Value → List JsValue
  | [] => []
  | x :: xs => x.toJs :: toJsItems xs

def toJsEntries : List (JsString × Value) → List (JsString × JsValue)
  | [] => []
  | (k, x) :: xs => (k, x.toJs) :: toJsEntries xs
end

mutual
def isData : Value → Nat → Bool
  | .null, _ | .boolean _, _ | .number _, _ | .string _, _ => true
  | .array items, depth => isDataItems items depth
  | .object entries, depth => isDataEntries entries depth
  | .undefined, _ | .nonFinite, _ | .bigint, _ | .callable, _ | .ancestor, _ | .exotic .., _ => false

def isDataItems : List Value → Nat → Bool
  | [], _ => true
  | _ :: _, 0 => false
  | x :: xs, depth + 1 => x.isData depth && isDataItems xs (depth + 1)

def isDataEntries : List (JsString × Value) → Nat → Bool
  | [], _ => true
  | _ :: _, 0 => false
  | x :: xs, depth + 1 => x.2.isData depth && isDataEntries xs (depth + 1)
end

end Value

namespace CommandJson

mutual
def parse : CommandJson → Value
  | .null => .null
  | .boolean b => .boolean b
  | .number n => .number n
  | .string s => .string s
  | .array items => .array (parseItems items)
  | .object entries => .object (parseEntries entries)

def parseItems : List CommandJson → List Value
  | [] => []
  | x :: xs => x.parse :: parseItems xs

def parseEntries : List (JsString × CommandJson) → List (JsString × Value)
  | [] => []
  | (k, x) :: xs => (k, x.parse) :: parseEntries xs
end

end CommandJson

/-- 保存された文字列。`tree` は `JSON.parse` の読む木で、読めなければ `none` である。綴り 0 は `JSON.stringify` の綴りである。 -/
structure Text where
  tree : Option CommandJson
  spelling : Nat
  deriving DecidableEq

def CommandJson.text (j : CommandJson) : Text := { tree := some j, spelling := 0 }

/-!
## コマンドの参照と受領証（contracts/src/receipts.ts、identity.ts、command_error.ts、command_store.ts）
-/

inductive CommandErrorCode where
  | COMMAND_INPUT_INVALID
  | COMMAND_REJECTED
  | COMMAND_UNAVAILABLE
  | COMMAND_IDEMPOTENCY_CONFLICT
  | COMMAND_RECEIPT_INVALID
  | COMMAND_OUTCOME_UNKNOWN
  | COMMAND_INPUT_EXPIRED
  deriving DecidableEq

inductive Thrown where
  | command (code : CommandErrorCode)
  | other
  deriving DecidableEq

structure CommandIdentity where
  tenantId : String
  actorId : String
  deriving DecidableEq

structure OperationReference extends CommandIdentity where
  command : String
  operationId : String
  deriving DecidableEq

/-! ## 識別子の検査 -/

def isAsciiAlphanumeric (c : Char) : Bool :=
  ('A' ≤ c && c ≤ 'Z') || ('a' ≤ c && c ≤ 'z') || ('0' ≤ c && c ≤ '9')

/-- `/^[A-Za-z0-9._:@|-]{1,200}$/`。 -/
def commandIdentifier (value : String) : Option String :=
  if 1 ≤ value.length ∧ value.length ≤ 200 ∧ value.toList.all (fun c => isAsciiAlphanumeric c || c ∈ ['.', '_', ':', '@', '|', '-']) then
    some value
  else none

/-- `IDENTIFIER_PATTERN`: `/^[A-Za-z0-9][A-Za-z0-9._:-]{0,119}$/u`。 -/
def identifierPattern (value : String) : Bool :=
  match value.toList with
  | [] => false
  | c :: cs => isAsciiAlphanumeric c && cs.length ≤ 119 &&
      cs.all (fun c => isAsciiAlphanumeric c || c ∈ ['.', '_', ':', '-'])

/-- `tenantId`、`actorId`、`operationId`、`commandName` に共通の検査。 -/
def branded (value : String) : Option String := if identifierPattern value then some value else none

def decodeCommandIdentity (value : CommandIdentity) : Option CommandIdentity := do
  return { tenantId := ← commandIdentifier value.tenantId, actorId := ← commandIdentifier value.actorId }

def decodeValidatedCommandIdentity (value : CommandIdentity) : Option CommandIdentity := do
  let identity ← decodeCommandIdentity value
  return { tenantId := ← branded identity.tenantId, actorId := ← branded identity.actorId }

def decodeValidatedCommandReference (value : OperationReference) : Option OperationReference := do
  let identity ← decodeValidatedCommandIdentity value.toCommandIdentity
  let command ← branded (← commandIdentifier value.command)
  let operationId ← branded (← commandIdentifier value.operationId)
  return { identity with command, operationId }

theorem commandIdentifier_eq {v w} (h : commandIdentifier v = some w) : w = v := by
  unfold commandIdentifier at h
  split at h
  · simpa using h.symm
  · cases h

theorem branded_eq {v w} (h : branded v = some w) : w = v := by
  unfold branded at h
  split at h
  · simpa using h.symm
  · cases h

theorem decodeValidatedCommandReference_eq {r r'} (h : decodeValidatedCommandReference r = some r') : r' = r := by
  simp only [decodeValidatedCommandReference, decodeValidatedCommandIdentity, decodeCommandIdentity,
    bind_eq_bind, pure_def, bind_eq_some_iff, some.injEq] at h
  obtain ⟨i, ⟨j, ⟨t, ht, a, ha, rfl⟩, t', ht', a', ha', rfl⟩, c', hc', c, hc, o', ho', o, ho, rfl⟩ := h
  rw [branded_eq ht', branded_eq ha', branded_eq hc, branded_eq ho, commandIdentifier_eq ht,
    commandIdentifier_eq ha, commandIdentifier_eq hc', commandIdentifier_eq ho']

structure OperationReference.Identified (r : OperationReference) : Prop where
  tenantId : commandIdentifier r.tenantId = some r.tenantId
  actorId : commandIdentifier r.actorId = some r.actorId
  command : commandIdentifier r.command = some r.command
  operationId : commandIdentifier r.operationId = some r.operationId

theorem decodeValidatedCommandReference_identified {r r'} (h : decodeValidatedCommandReference r = some r') : r'.Identified := by
  cases decodeValidatedCommandReference_eq h
  simp only [decodeValidatedCommandReference, decodeValidatedCommandIdentity, decodeCommandIdentity,
    bind_eq_bind, pure_def, bind_eq_some_iff, some.injEq] at h
  obtain ⟨i, ⟨j, ⟨t, ht, a, ha, rfl⟩, -⟩, c, hc, -, -, o, ho, -⟩ := h
  refine ⟨?_, ?_, ?_, ?_⟩
  · rw [ht, commandIdentifier_eq ht]
  · rw [ha, commandIdentifier_eq ha]
  · rw [hc, commandIdentifier_eq hc]
  · rw [ho, commandIdentifier_eq ho]

/-! ## 受領証 -/

inductive AuditState where
  | pending
  | complete
  deriving DecidableEq

/-- `DurableCommandReceipt` の状態の部分。結果を持つのは `confirmed` だけである。 -/
inductive ReceiptState (ρ : Type) where
  | pending
  | unknown
  | rejected
  | confirmed (audit : AuditState) (result : ρ)

structure DurableCommandReceipt (ρ : Type) where
  reference : OperationReference
  dispatchKey : String
  state : ReceiptState ρ

def ReceiptState.audit {ρ : Type} : ReceiptState ρ → AuditState
  | .pending | .unknown => .pending
  | .rejected => .complete
  | .confirmed audit _ => audit

inductive CommandKind where
  | transactional
  | external
  deriving DecidableEq

structure StoredCommand where
  receipt : DurableCommandReceipt CommandJson
  kind : CommandKind
  inputFingerprint : String
  inputPayload : Option String

/-- `decodeDurableCommandReceipt`。識別子を検査し、`confirmed` の結果を `result` で読む。 -/
def decodeDurableCommandReceipt {ρ : Type} (value : DurableCommandReceipt CommandJson)
    (result : JsValue → Option ρ) : Option (DurableCommandReceipt ρ) := do
  let identity ← decodeCommandIdentity value.reference.toCommandIdentity
  let command ← commandIdentifier value.reference.command
  let operationId ← commandIdentifier value.reference.operationId
  let dispatchKey ← commandIdentifier value.dispatchKey
  let reference : OperationReference := { identity with command, operationId }
  match value.state with
  | .rejected => return { reference, dispatchKey, state := .rejected }
  | .confirmed audit raw => return { reference, dispatchKey, state := .confirmed audit (← result raw.toValue) }
  | .pending => return { reference, dispatchKey, state := .pending }
  | .unknown => return { reference, dispatchKey, state := .unknown }

/-- 読めた受領証の状態は、保存された状態の結果だけを読み替えたものである。 -/
def ReceiptState.Decodes {ρ : Type} (result : JsValue → Option ρ) :
    ReceiptState CommandJson → ReceiptState ρ → Prop
  | .pending, .pending => True
  | .unknown, .unknown => True
  | .rejected, .rejected => True
  | .confirmed a raw, .confirmed a' r => a' = a ∧ result raw.toValue = some r
  | _, _ => False

theorem decodeDurableCommandReceipt_spec {value} {ρ : Type} {result} {r : DurableCommandReceipt ρ}
    (h : decodeDurableCommandReceipt value result = some r) : r.reference = value.reference ∧ r.dispatchKey = value.dispatchKey ∧
      value.state.Decodes result r.state := by
  simp only [decodeDurableCommandReceipt, decodeCommandIdentity, bind_eq_bind, pure_def,
    bind_eq_some_iff, some.injEq] at h
  obtain ⟨i, ⟨t, ht, a, ha, rfl⟩, c, hc, o, ho, k, hk, h⟩ := h
  rw [commandIdentifier_eq ht, commandIdentifier_eq ha, commandIdentifier_eq hc, commandIdentifier_eq ho, commandIdentifier_eq hk] at h
  cases hs : value.state with
  | pending | unknown | rejected => rw [hs] at h; cases h; exact ⟨rfl, rfl, trivial⟩
  | confirmed audit raw =>
    rw [hs] at h
    simp only [bind_eq_some_iff, some.injEq] at h
    obtain ⟨res, hres, rfl⟩ := h
    exact ⟨rfl, rfl, rfl, hres⟩

theorem decodeDurableCommandReceipt_dispatchKey {value} {ρ : Type} {result} {r : DurableCommandReceipt ρ}
    (h : decodeDurableCommandReceipt value result = some r) : commandIdentifier value.dispatchKey = some value.dispatchKey := by
  simp only [decodeDurableCommandReceipt, bind_eq_bind, bind_eq_some_iff] at h
  obtain ⟨-, -, -, -, -, -, k, hk, -⟩ := h
  rw [hk, commandIdentifier_eq hk]

theorem decodeDurableCommandReceipt_some {value} {ρ : Type} {result : JsValue → Option ρ} (href : value.reference.Identified)
    (hkey : commandIdentifier value.dispatchKey = some value.dispatchKey)
    (hst : ∀ audit raw, value.state = .confirmed audit raw → ∃ r, result raw.toValue = some r) :
    ∃ r, decodeDurableCommandReceipt value result = some r := by
  simp only [decodeDurableCommandReceipt, decodeCommandIdentity, href.tenantId, href.actorId, href.command, href.operationId, hkey,
    bind_eq_bind, bind_some, pure_def]
  cases hs : value.state with
  | pending | unknown | rejected => simp
  | confirmed audit raw =>
    obtain ⟨r, hr⟩ := hst audit raw hs
    simp [hr]

end Supacloud.Contracts
