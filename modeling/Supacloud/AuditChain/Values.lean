import Mathlib.Data.List.Lex
import Supacloud.Library.Lists
import Supacloud.Vectors.Values

/-!
# 監査の付随データ（services/audit.service.ts）

オブジェクトの項目は、列挙される順に並ぶ。文字列は UTF-16 の符号単位の列で、`JSON.stringify`
の結果は構文木と同一視する。
-/

namespace Supacloud.AuditChain

open Contracts (JsString)

open Vectors (js toWellFormed hasNoNul isWellFormed)

abbrev Json := Supacloud.Contracts.CommandJson

abbrev Timestamp := Nat

/-- 実行環境と暗号の関数。伏せ字にする正規表現は任意の関数とし、`sha256` は構文木の綴りの要約を 16 進で返す。 -/
structure Platform where
  localeCompare : JsString → JsString → Int
  toLowerCase : JsString → JsString
  redactAuditText : JsString → JsString
  toISOString : Timestamp → JsString
  sha256 : Json → JsString

structure Platform.Lawful (platform : Platform) : Prop where
  total : ∀ a b, platform.localeCompare a b ≤ 0 ∨ platform.localeCompare b a ≤ 0
  trans : ∀ a b c, platform.localeCompare a b ≤ 0 → platform.localeCompare b c ≤ 0 → platform.localeCompare a c ≤ 0
  sha256_ne_nil : ∀ value, platform.sha256 value ≠ []

def indexValue (key : JsString) : Nat := key.foldl (fun value unit => value * 10 + (unit.toNat - 48)) 0

def isArrayIndex (key : JsString) : Bool := indexValue key < 4294967295 && js (toString (indexValue key)) == key

def byIndex (a b : JsString × Json) : Prop := indexValue a.1 ≤ indexValue b.1

instance : DecidableRel byIndex := fun a b => inferInstanceAs (Decidable (indexValue a.1 ≤ indexValue b.1))

/-- 項目の列挙の順。添字は数の順に先に並び、そのほかの鍵は加えた順に並ぶ。 -/
def enumerate (entries : List (JsString × Json)) : List (JsString × Json) :=
  (entries.filter fun e => isArrayIndex e.1).insertionSort byIndex ++ entries.filter fun e => !isArrayIndex e.1

def utf8Unit (point : Nat) : List Nat :=
  if point < 0x80 then [point]
  else if point < 0x800 then [0xC0 + point / 64, 0x80 + point % 64]
  else if point < 0x10000 then [0xE0 + point / 4096, 0x80 + point / 64 % 64, 0x80 + point % 64]
  else [0xF0 + point / 262144, 0x80 + point / 4096 % 64, 0x80 + point / 64 % 64, 0x80 + point % 64]

def codePoints : JsString → List Nat
  | [] => []
  | [u] => [u.toNat]
  | u :: v :: rest =>
    if Supacloud.Vectors.isHighSurrogate u && Supacloud.Vectors.isLowSurrogate v then
      (0x10000 + (u.toNat - 0xD800) * 0x400 + (v.toNat - 0xDC00)) :: codePoints rest
    else u.toNat :: codePoints (v :: rest)

def utf8 (s : JsString) : List Nat := (codePoints s).flatMap utf8Unit

/-- jsonb の項目の順。鍵の長さ、次に鍵のバイトの順である。 -/
def byJsonbKey (a b : JsString × Json) : Prop :=
  (utf8 a.1).length < (utf8 b.1).length ∨ ((utf8 a.1).length = (utf8 b.1).length ∧ utf8 a.1 ≤ utf8 b.1)

instance : DecidableRel byJsonbKey := fun a b =>
  inferInstanceAs (Decidable ((utf8 a.1).length < (utf8 b.1).length ∨ ((utf8 a.1).length = (utf8 b.1).length ∧ utf8 a.1 ≤ utf8 b.1)))

/-! ## 伏せ字 -/

def sensitiveKeys : List JsString :=
  ["authorization", "cookie", "token", "accesstoken", "refreshtoken", "idtoken", "password", "smtppass", "secret", "secrets",
    "clientsecret", "apikey", "privatekey", "code", "verifier", "codeverifier", "jwt", "session", "signingkey"].map js

def isSensitiveKey (platform : Platform) (key : JsString) : Bool :=
  sensitiveKeys.contains (platform.toLowerCase (key.filter fun u => u != 95 && u != 45))

def protoKey : JsString := js "__proto__"

/-- `output[key] = …` の繰り返し。`__proto__` への代入は項目を作らない。 -/
def assign (entries : List (JsString × Json)) : List (JsString × Json) := enumerate (entries.filter fun e => e.1 != protoKey)

mutual
def redactAuditValue (platform : Platform) : Json → Json
  | .string s => .string (platform.redactAuditText s)
  | .array items => .array (redactItems platform items)
  | .object entries => .object (assign (redactEntries platform entries))
  | .null => .null
  | .boolean b => .boolean b
  | .number n => .number n

def redactItems (platform : Platform) : List Json → List Json
  | [] => []
  | item :: items => redactAuditValue platform item :: redactItems platform items

def redactEntries (platform : Platform) : List (JsString × Json) → List (JsString × Json)
  | [] => []
  | (key, value) :: entries =>
    (key, if isSensitiveKey platform key then .string (js "[REDACTED]") else redactAuditValue platform value) ::
      redactEntries platform entries
end

def byLocale (platform : Platform) (a b : JsString × Json) : Prop := platform.localeCompare a.1 b.1 ≤ 0

instance (platform : Platform) : DecidableRel (byLocale platform) := fun a b =>
  inferInstanceAs (Decidable (platform.localeCompare a.1 b.1 ≤ 0))

mutual
def canonicalize (platform : Platform) : Json → Json
  | .array items => .array (canonicalizeItems platform items)
  | .object entries => .object (enumerate ((canonicalizeEntries platform entries).insertionSort (byLocale platform)))
  | .null => .null
  | .boolean b => .boolean b
  | .number n => .number n
  | .string s => .string s

def canonicalizeItems (platform : Platform) : List Json → List Json
  | [] => []
  | item :: items => canonicalize platform item :: canonicalizeItems platform items

def canonicalizeEntries (platform : Platform) : List (JsString × Json) → List (JsString × Json)
  | [] => []
  | (key, value) :: entries => (key, canonicalize platform value) :: canonicalizeEntries platform entries
end

/-! ## PostgreSQL への出し入れ -/

/-- `TEXT` の列。対になっていないサロゲートは U+FFFD になり、U+0000 は例外になる。 -/
def storeText (s : JsString) : Option JsString := if hasNoNul s then some (toWellFormed s) else none

def characters : JsString → List JsString
  | [] => []
  | [u] => [[u]]
  | u :: v :: rest =>
    if Supacloud.Vectors.isHighSurrogate u && Supacloud.Vectors.isLowSurrogate v then [u, v] :: characters rest
    else [u] :: characters (v :: rest)

/-- `VARCHAR(n)` の列。余りが空白だけなら切り詰め、そうでなければ例外になる。 -/
def storeVarchar (n : Nat) (s : JsString) : Option JsString := do
  let text ← storeText s
  if (characters text).length ≤ n then return text
  else if ((characters text).drop n).all (· == [32]) then return ((characters text).take n).flatten
  else none

mutual
def isJsonb : Json → Bool
  | .string s => isWellFormed s && hasNoNul s
  | .array items => areJsonb items
  | .object entries => areJsonbEntries entries
  | .null | .boolean _ | .number _ => true

def areJsonb : List Json → Bool
  | [] => true
  | item :: items => isJsonb item && areJsonb items

def areJsonbEntries : List (JsString × Json) → Bool
  | [] => true
  | (key, value) :: entries => isWellFormed key && hasNoNul key && isJsonb value && areJsonbEntries entries
end

mutual
def roundTrip : Json → Json
  | .array items => .array (roundTripItems items)
  | .object entries => .object (enumerate ((roundTripEntries entries).insertionSort byJsonbKey))
  | .null => .null
  | .boolean b => .boolean b
  | .number n => .number n
  | .string s => .string s

def roundTripItems : List Json → List Json
  | [] => []
  | item :: items => roundTrip item :: roundTripItems items

def roundTripEntries : List (JsString × Json) → List (JsString × Json)
  | [] => []
  | (key, value) :: entries => (key, roundTrip value) :: roundTripEntries entries
end

def storeJsonb (value : Json) : Option Json := if isJsonb value then some (roundTrip value) else none

/-! ## 鍵の並び -/

mutual
def Distinct : Json → Prop
  | .array items => DistinctItems items
  | .object entries => (entries.map Prod.fst).Nodup ∧ DistinctEntries entries
  | .null | .boolean _ | .number _ | .string _ => True

def DistinctItems : List Json → Prop
  | [] => True
  | item :: items => Distinct item ∧ DistinctItems items

def DistinctEntries : List (JsString × Json) → Prop
  | [] => True
  | (_, value) :: entries => Distinct value ∧ DistinctEntries entries
end

def Settled (platform : Platform) (entries : List (JsString × Json)) : Prop :=
  (entries.filter fun e => !isArrayIndex e.1).Pairwise fun a b =>
    byLocale platform a b → byLocale platform b a → ¬ byJsonbKey b a

mutual
/-- 残る項目のどれについても、比べて等しいとされる鍵が jsonb の順に並んでいる。 -/
def Ordered (platform : Platform) : Json → Prop
  | .array items => OrderedItems platform items
  | .object entries => Settled platform (entries.filter fun e => e.1 != protoKey) ∧ OrderedEntries platform entries
  | .null | .boolean _ | .number _ | .string _ => True

def OrderedItems (platform : Platform) : List Json → Prop
  | [] => True
  | item :: items => Ordered platform item ∧ OrderedItems platform items

def OrderedEntries (platform : Platform) : List (JsString × Json) → Prop
  | [] => True
  | (key, value) :: entries =>
    (key = protoKey ∨ isSensitiveKey platform key = true ∨ Ordered platform value) ∧ OrderedEntries platform entries
end

end Supacloud.AuditChain
