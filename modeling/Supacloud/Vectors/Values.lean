import Supacloud.Contracts.Values

/-!
# JavaScript の値

有限の数はその値で表し、文字列は UTF-16 の符号単位の列である。素のオブジェクトの鍵は重ならない。
-/

namespace Supacloud.Vectors

open Contracts (JsString)

inductive JsNumber where
  | finite (q : ℚ)
  | infinity (negative : Bool)
  | nan
  deriving DecidableEq

inductive JsValue where
  | undefined
  | null
  | boolean (b : Bool)
  | number (n : JsNumber)
  | string (s : JsString)
  | array (items : List JsValue)
  | object (entries : List (JsString × JsValue))

def js (s : String) : JsString := s.toList.map fun c => c.toNat.toUInt16

namespace JsNumber

def equal : JsNumber → JsNumber → Bool
  | .finite a, .finite b => a == b
  | .infinity a, .infinity b => a == b
  | _, _ => false

def lt : JsNumber → JsNumber → Bool
  | .finite a, .finite b => decide (a < b)
  | .infinity negative, .finite _ => negative
  | .finite _, .infinity negative => !negative
  | .infinity a, .infinity b => a && !b
  | _, _ => false

def le (a b : JsNumber) : Bool := lt a b || equal a b

def isFinite : JsNumber → Bool
  | .finite _ => true
  | _ => false

end JsNumber

def isHighSurrogate (u : UInt16) : Bool := 0xD800 ≤ u && u ≤ 0xDBFF

def isLowSurrogate (u : UInt16) : Bool := 0xDC00 ≤ u && u ≤ 0xDFFF

/-- `String.prototype.toWellFormed`。対になっていないサロゲートを U+FFFD に替える。UTF-8 への符号化も同じである。 -/
def toWellFormed : JsString → JsString
  | [] => []
  | [u] => [if isHighSurrogate u || isLowSurrogate u then 0xFFFD else u]
  | u :: v :: rest =>
    if isHighSurrogate u && isLowSurrogate v then u :: v :: toWellFormed rest
    else (if isHighSurrogate u || isLowSurrogate u then 0xFFFD else u) :: toWellFormed (v :: rest)

def isWellFormed (s : JsString) : Bool := toWellFormed s == s

def hasNoNul (s : JsString) : Bool := s.all (· != 0)

/-- `key.startsWith("$")` -/
def startsWithDollar (key : JsString) : Bool := key.head? == some 36

/-! ## 値 -/

namespace JsValue

def truthy : JsValue → Bool
  | .undefined | .null => false
  | .boolean b => b
  | .number n => !(n == .finite 0 || n == .nan)
  | .string s => !s.isEmpty
  | .array _ | .object _ => true

/-- `a === b`。絞り込みと付随データは別に作られるので、オブジェクトは一致しない。 -/
def strictEqual : JsValue → JsValue → Bool
  | .undefined, .undefined => true
  | .null, .null => true
  | .boolean a, .boolean b => a == b
  | .number a, .number b => a.equal b
  | .string a, .string b => a == b
  | _, _ => false

/-- `Array.prototype.includes` の比較。`NaN` は自身と等しい。 -/
def sameValueZero : JsValue → JsValue → Bool
  | .number .nan, .number .nan => true
  | a, b => strictEqual a b

end JsValue

def objectPrototype : List JsString :=
  ["constructor", "__defineGetter__", "__defineSetter__", "hasOwnProperty", "__lookupGetter__", "__lookupSetter__",
    "isPrototypeOf", "propertyIsEnumerable", "toString", "valueOf", "__proto__", "toLocaleString"].map js

/-- `metadata?.[key]`。自身の項目でない名は `Object.prototype` に探す。そこにあるのは関数かオブジェクトであり、
空のオブジェクトで表す。 -/
def JsValue.get (metadata : JsValue) (key : JsString) : JsValue :=
  match metadata with
  | .object entries => (entries.lookup key).getD (if objectPrototype.contains key then .object [] else .undefined)
  | _ => .undefined

/-!
## PostgreSQL の jsonb

JSON の文字列とその構文木は同一視する。
-/

inductive Jsonb where
  | null
  | boolean (b : Bool)
  | number (q : ℚ)
  | string (s : JsString)
  | array (items : List Jsonb)
  | object (entries : List (JsString × Jsonb))

inductive JsonbType where
  | null
  | boolean
  | number
  | string
  | array
  | object
  deriving DecidableEq

namespace Jsonb

def typeof : Jsonb → JsonbType
  | .null => .null
  | .boolean _ => .boolean
  | .number _ => .number
  | .string _ => .string
  | .array _ => .array
  | .object _ => .object

mutual
def equal : Jsonb → Jsonb → Bool
  | .null, .null => true
  | .boolean a, .boolean b => a == b
  | .number a, .number b => a == b
  | .string a, .string b => a == b
  | .array xs, .array ys => equalItems xs ys
  | .object es, .object fs => es.length == fs.length && equalEntries es fs
  | _, _ => false

def equalItems : List Jsonb → List Jsonb → Bool
  | [], [] => true
  | x :: xs, y :: ys => equal x y && equalItems xs ys
  | _, _ => false

def equalEntries : List (JsString × Jsonb) → List (JsString × Jsonb) → Bool
  | [], _ => true
  | (k, x) :: es, fs => (fs.lookup k).elim false (fun y => equal x y) && equalEntries es fs
end

mutual
def within : Jsonb → Jsonb → Bool
  | .array ys, .array xs => withinItems ys xs
  | .object fs, .object es => withinEntries fs es
  | contained, value => equal contained value

def withinItems : List Jsonb → List Jsonb → Bool
  | [], _ => true
  | y :: ys, xs => xs.any (fun x => within y x) && withinItems ys xs

def withinEntries : List (JsString × Jsonb) → List (JsString × Jsonb) → Bool
  | [], _ => true
  | (k, y) :: fs, es => (es.lookup k).elim false (fun x => within y x) && withinEntries fs es
end

/-- `value @> contained`。最も外側に限り、配列は単独の値を要素として含む。 -/
def contains (value contained : Jsonb) : Bool :=
  match value, contained with
  | .array xs, .array ys => withinItems ys xs
  | .array _, .object _ => false
  | .array xs, scalar => xs.any fun x => equal scalar x
  | value, contained => within contained value

def field (value : Jsonb) (key : JsString) : Option Jsonb :=
  match value with
  | .object entries => entries.lookup key
  | _ => none

/-- `jsonb_exists(value, key)` -/
def exists_ (value : Jsonb) (key : JsString) : Bool :=
  match value with
  | .object entries => (entries.lookup key).isSome
  | .array items => items.any fun item => equal item (.string key)
  | value => equal value (.string key)

end Jsonb

/-! ## 書き込み -/

/-- jsonb に入る文字列。U+0000 と、対になっていないサロゲートは拒まれる。 -/
def jsonbText (s : JsString) : Option JsString := if hasNoNul s && isWellFormed s then some s else none

mutual
/-- `JSON.stringify(value)` を `::jsonb` で読んだ値。有限でない数は `null` と書かれる。 -/
def toJsonb : JsValue → Option Jsonb
  | .undefined => none
  | .null => some .null
  | .boolean b => some (.boolean b)
  | .number (.finite q) => some (.number q)
  | .number _ => some .null
  | .string s => (jsonbText s).map .string
  | .array items => (toJsonbItems items).map .array
  | .object entries => (toJsonbEntries entries).map .object

def toJsonbItems : List JsValue → Option (List Jsonb)
  | [] => some []
  | .undefined :: rest => (toJsonbItems rest).map (.null :: ·)
  | item :: rest => (toJsonb item).bind fun x => (toJsonbItems rest).map (x :: ·)

def toJsonbEntries : List (JsString × JsValue) → Option (List (JsString × Jsonb))
  | [] => some []
  | (_, .undefined) :: rest => toJsonbEntries rest
  | (key, value) :: rest =>
    (jsonbText key).bind fun k => (toJsonb value).bind fun x => (toJsonbEntries rest).map ((k, x) :: ·)
end

/-- `vector.metadata ? JSON.stringify(vector.metadata) : null` を入れた列の値。拒まれた行は入らない。 -/
def storedMetadata (metadata : JsValue) : Option (Option Jsonb) :=
  if metadata.truthy then (toJsonb metadata).map some else some none

end Supacloud.Vectors
