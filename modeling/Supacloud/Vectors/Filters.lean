import Supacloud.Library.Checked
import Supacloud.Vectors.Values

/-!
# 絞り込みの検査と、手元での評価（management-api/src/services/storage-vector.service.ts）

`badRequest` は、文を持つ例外である。
-/

namespace Supacloud.Vectors

open Contracts (JsString)

def unsupportedOperator (operator : JsString) : JsString :=
  js "Unsupported metadata filter operator '" ++ operator ++ js "'"

def filterOperators : List JsString := ["$eq", "$ne", "$gt", "$gte", "$lt", "$lte", "$in", "$nin", "$exists"].map js

/-! ## 検査 -/

def isFilterPrimitive : JsValue → Bool
  | .string _ | .boolean _ => true
  | .number n => n.isFinite
  | _ => false

def isFiniteNumber : JsValue → Bool
  | .number n => n.isFinite
  | _ => false

def isPrimitiveList : JsValue → Bool
  | .array items => !items.isEmpty && items.all isFilterPrimitive
  | _ => false

def isBoolean : JsValue → Bool
  | .boolean _ => true
  | _ => false

def validateOperator (operator : JsString) (expected : JsValue) : Except JsString Unit :=
  if ¬ filterOperators.contains operator then .error (unsupportedOperator operator)
  else if (operator = js "$eq" ∨ operator = js "$ne") ∧ ¬ isFilterPrimitive expected then
    .error (operator ++ js " must contain a string, number, or boolean")
  else if (operator = js "$gt" ∨ operator = js "$gte" ∨ operator = js "$lt" ∨ operator = js "$lte") ∧ ¬ isFiniteNumber expected then
    .error (operator ++ js " must contain a finite number")
  else if (operator = js "$in" ∨ operator = js "$nin") ∧ ¬ isPrimitiveList expected then
    .error (operator ++ js " must contain a non-empty array of strings, numbers, or booleans")
  else if operator = js "$exists" ∧ ¬ isBoolean expected then .error (js "$exists must contain a boolean")
  else .ok ()

def validateOperators : List (JsString × JsValue) → Except JsString Unit
  | [] => .ok ()
  | (operator, expected) :: rest => validateOperator operator expected >>= fun _ => validateOperators rest

def validateCondition : JsValue → Except JsString Unit
  | .object operators =>
    if operators.isEmpty then .error (js "metadata filter condition must not be empty") else validateOperators operators
  | condition =>
    if isFilterPrimitive condition then .ok ()
    else .error (js "metadata filter values must be strings, numbers, or booleans")

mutual
def validateFilter (allowAbsent : Bool) : JsValue → Except JsString Unit
  | .undefined | .null => if allowAbsent then .ok () else .error (js "filter conditions must be non-null objects")
  | .object entries =>
    if entries.isEmpty then .error (js "filter must contain at least one condition") else validateEntries entries
  | _ => .error (js "filter must be an object")

def validateEntries : List (JsString × JsValue) → Except JsString Unit
  | [] => .ok ()
  | (key, condition) :: rest =>
    (if key = js "$and" ∨ key = js "$or" then
      match condition with
      | .array children =>
        if children.isEmpty then .error (key ++ js " must be a non-empty array") else validateChildren children
      | _ => .error (key ++ js " must be a non-empty array")
    else if startsWithDollar key then .error (unsupportedOperator key)
    else validateCondition condition) >>= fun _ => validateEntries rest

def validateChildren : List JsValue → Except JsString Unit
  | [] => .ok ()
  | child :: rest => validateFilter false child >>= fun _ => validateChildren rest
end

def isMetadataPrimitive : JsValue → Bool
  | .string _ | .number _ | .boolean _ => true
  | _ => false

def isMetadataValue : JsValue → Bool
  | .array items => items.all isMetadataPrimitive
  | value => isMetadataPrimitive value

/-- 付随データの検査。`byteLength` は `Buffer.byteLength(JSON.stringify(metadata), "utf8")` である。 -/
def validateMetadata (byteLength : JsValue → ℕ) : JsValue → Except JsString Unit
  | .undefined => .ok ()
  | .object entries =>
    if 50 < entries.length then .error (js "metadata must have at most 50 keys")
    else if 40 * 1024 < byteLength (.object entries) then .error (js "metadata must not exceed 40960 bytes")
    else if entries.all fun e => !e.1.isEmpty && isMetadataValue e.2 then .ok ()
    else .error (js "metadata values must be strings, numbers, booleans, or arrays of those primitives")
  | _ => .error (js "metadata must be an object")

/-! ## 評価 -/

def leftValues : JsValue → List JsValue
  | .array items => items
  | left => [left]

def compareNumbers (compare : JsNumber → JsNumber → Bool) (left right : JsValue) : Bool :=
  match left, right with
  | .number a, .number b => compare a b
  | _, _ => false

/-- `Array.isArray(right) && test(right)` -/
def withArray (right : JsValue) (test : List JsValue → Bool) : Bool :=
  match right with
  | .array items => test items
  | _ => false

def isUndefined : JsValue → Bool
  | .undefined => true
  | _ => false

def comparePrimitive (left : JsValue) (operator : JsString) (right : JsValue) : Except JsString Bool :=
  if operator = js "$eq" then .ok ((leftValues left).any fun value => value.strictEqual right)
  else if operator = js "$ne" then .ok ((leftValues left).all fun value => !value.strictEqual right)
  else if operator = js "$gt" then .ok (compareNumbers (fun a b => b.lt a) left right)
  else if operator = js "$gte" then .ok (compareNumbers (fun a b => b.le a) left right)
  else if operator = js "$lt" then .ok (compareNumbers JsNumber.lt left right)
  else if operator = js "$lte" then .ok (compareNumbers JsNumber.le left right)
  else if operator = js "$in" then
    .ok (withArray right fun items => (leftValues left).any fun value => items.any fun item => value.sameValueZero item)
  else if operator = js "$nin" then
    .ok (withArray right fun items => (leftValues left).all fun value => !items.any fun item => value.sameValueZero item)
  else if operator = js "$exists" then .ok (right.truthy == !isUndefined left)
  else .error (unsupportedOperator operator)

def everyOperator (value : JsValue) : List (JsString × JsValue) → Except JsString Bool
  | [] => .ok true
  | (operator, expected) :: rest =>
    comparePrimitive value operator expected >>= fun b => if b then everyOperator value rest else .ok false

def matchesCondition (value : JsValue) : JsValue → Except JsString Bool
  | .object operators => everyOperator value operators
  | condition => comparePrimitive value (js "$eq") condition

mutual
def matchesFilter (metadata : JsValue) : JsValue → Except JsString Bool
  | .undefined | .null => .ok true
  | .object entries => matchesEntries metadata entries
  | _ => .error (js "filter must be an object")

def matchesEntries (metadata : JsValue) : List (JsString × JsValue) → Except JsString Bool
  | [] => .ok true
  | (key, condition) :: rest =>
    (if key = js "$and" then
      match condition with
      | .array children => everyChild metadata children
      | _ => .error (js "$and must be an array")
    else if key = js "$or" then
      match condition with
      | .array children => someChild metadata children
      | _ => .error (js "$or must be an array")
    else if startsWithDollar key then .error (unsupportedOperator key)
    else matchesCondition (metadata.get key) condition) >>= fun b => if b then matchesEntries metadata rest else .ok false

def everyChild (metadata : JsValue) : List JsValue → Except JsString Bool
  | [] => .ok true
  | child :: rest => matchesFilter metadata child >>= fun b => if b then everyChild metadata rest else .ok false

def someChild (metadata : JsValue) : List JsValue → Except JsString Bool
  | [] => .ok false
  | child :: rest => matchesFilter metadata child >>= fun b => if b then .ok true else someChild metadata rest
end

/-!
## 絞り込みの読み方

条件の成り立ち方を与えると、絞り込み全体の成り立ち方が決まる。
-/

section Reading

variable (meets : JsString → JsString → JsValue → Bool)

def readCondition (key : JsString) : JsValue → Bool
  | .object operators => operators.all fun e => meets key e.1 e.2
  | condition => meets key (js "$eq") condition

mutual
def reading : JsValue → Bool
  | .undefined | .null => true
  | .object entries => readEntries entries
  | _ => false

def readEntries : List (JsString × JsValue) → Bool
  | [] => true
  | (key, condition) :: rest =>
    (if key = js "$and" then
      match condition with
      | .array children => readEvery children
      | _ => false
    else if key = js "$or" then
      match condition with
      | .array children => readSome children
      | _ => false
    else readCondition meets key condition) && readEntries rest

def readEvery : List JsValue → Bool
  | [] => true
  | child :: rest => reading child && readEvery rest

def readSome : List JsValue → Bool
  | [] => false
  | child :: rest => reading child || readSome rest
end

end Reading

def conditionLeaves (key : JsString) : JsValue → List (JsString × JsString × JsValue)
  | .object operators => operators.map fun e => (key, e.1, e.2)
  | condition => [(key, js "$eq", condition)]

mutual
def leaves : JsValue → List (JsString × JsString × JsValue)
  | .object entries => entryLeaves entries
  | _ => []

def entryLeaves : List (JsString × JsValue) → List (JsString × JsString × JsValue)
  | [] => []
  | (key, condition) :: rest =>
    (if key = js "$and" ∨ key = js "$or" then
      match condition with
      | .array children => childLeaves children
      | _ => []
    else conditionLeaves key condition) ++ entryLeaves rest

def childLeaves : List JsValue → List (JsString × JsString × JsValue)
  | [] => []
  | child :: rest => leaves child ++ childLeaves rest
end

def cleanText (s : JsString) : Bool := hasNoNul s && isWellFormed s

def cleanItem : JsValue → Bool
  | .string s => cleanText s
  | _ => true

def cleanValue : JsValue → Bool
  | .array items => items.all cleanItem
  | value => cleanItem value

def storable : JsValue → Bool
  | .object entries => entries.all fun e => cleanText e.1 && cleanValue e.2
  | _ => true

def sendable (filter : JsValue) : Bool := (leaves filter).all fun leaf => hasNoNul leaf.1 && cleanValue leaf.2.2

/-! ## 食い違う条件 -/

def compares (left : JsValue) (operator : JsString) (right : JsValue) : Bool :=
  match comparePrimitive left operator right with
  | .ok b => b
  | .error _ => false

def keptItem : JsValue → JsValue
  | .number (.infinity _) | .number .nan => .null
  | value => value

def kept : JsValue → JsValue
  | .array items => .array (items.map keptItem)
  | value => keptItem value

def keptEntry (entries : List (JsString × JsValue)) (key : JsString) : JsValue :=
  ((entries.lookup key).map kept).getD .undefined

def beyondJson (operator : JsString) : JsValue → Bool
  | .number (.infinity negative) =>
    if negative then operator == js "$lt" || operator == js "$lte" else operator == js "$gt" || operator == js "$gte"
  | _ => false

/-- 二つの評価の食い違う条件。

- 付随データがなく、演算が `$ne` か、`false` との `$exists` である。
- 鍵が `Object.prototype` の項目の名で、付随データ自身の項目でなく、演算が `$exists` である。
- 項目が無限大で、それの満たす大小の比較である。
- 鍵に対のないサロゲートがあり、それを U+FFFD に替えた名の項目が、ない項目と違う結果になる。 -/
def lossy (metadata : JsValue) (key operator : JsString) (expected : JsValue) : Bool :=
  match metadata with
  | .object entries =>
    if isWellFormed key then
      match entries.lookup key with
      | none => operator == js "$exists" && objectPrototype.contains key
      | some value => beyondJson operator value
    else compares (keptEntry entries (toWellFormed key)) operator expected != compares .undefined operator expected
  | _ => operator == js "$ne" || (operator == js "$exists" && !expected.truthy)

def localReading (metadata filter : JsValue) : Bool :=
  reading (fun key operator expected => compares (metadata.get key) operator expected) filter

def lossyReading (metadata filter : JsValue) : Bool :=
  reading (fun key operator expected => compares (metadata.get key) operator expected ^^ lossy metadata key operator expected) filter

/-- 二つの評価の一致する条件。行に入らない付随データと、引数にできない絞り込みでは、手元でも成り立たない。そのほかでは、食い違う条件を
逆にしても、絞り込み全体の読みが変わらない。 -/
def Unaffected (metadata filter : JsValue) : Prop :=
  if storable metadata ∧ sendable filter then localReading metadata filter = lossyReading metadata filter
  else localReading metadata filter = false

end Supacloud.Vectors
