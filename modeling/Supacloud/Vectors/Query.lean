import Supacloud.Library.ThreeValued
import Supacloud.Vectors.Filters

/-!
# 近傍検索の絞り込みの SQL（management-api/src/services/storage-vector-ann.ts）

`bind` の返す `$n` は、引数の並びの n 番目を指す番号である。引数は、文字列か数のままか、
JSON の文字列（その元の値で表す）である。
-/

namespace Supacloud.Vectors

open Contracts (JsString)
open Library

/-! ## SQL の構文 -/

inductive SqlParam where
  | vector (values : List JsNumber)
  | value (v : JsValue)
  | json (v : JsValue)

abbrev Ref := ℕ

inductive ComparisonOperator where
  | gt
  | gte
  | lt
  | lte

/-- jsonb の式。`elem` と `expected` は `jsonb_array_elements` の行の名である。 -/
inductive JsonExpr where
  | metadata
  | elem
  | expected
  | cast (ref : Ref)
  | field (source : JsonExpr) (key : Ref)
  | buildObject (key : Ref) (value : JsonExpr)

inductive Alias where
  | elem
  | expected

/-- 条件の式。`compare` は `(source ->> key)::double precision op value::double precision`、`blank` は空の文字列である。 -/
inductive SqlPredicate where
  | always
  | blank
  | contains (value contained : JsonExpr)
  | equal (left right : JsonExpr)
  | typeIs (value : JsonExpr) (type : JsonbType)
  | compare (operator : ComparisonOperator) (source : JsonExpr) (key value : Ref)
  | jsonbExists (source : JsonExpr) (key : Ref)
  | existsElement (source : JsonExpr) (binder : Alias) (condition : SqlPredicate)
  | not (p : SqlPredicate)
  | and (p q : SqlPredicate)
  | or (p q : SqlPredicate)

/-! ## SQL の組み立て -/

def bindParam (params : List SqlParam) (p : SqlParam) : Ref × List SqlParam := (params.length + 1, params ++ [p])

def joinAnd : List SqlPredicate → SqlPredicate
  | [] => .blank
  | part :: parts => parts.foldl .and part

def joinOr : List SqlPredicate → SqlPredicate
  | [] => .blank
  | part :: parts => parts.foldl .or part

def arrayHas (keyRef : Ref) (value : JsonExpr) : SqlPredicate :=
  .and (.typeIs (.field .metadata keyRef) .array) (.existsElement (.field .metadata keyRef) .elem (.equal .elem value))

def equalitySql (key : JsString) (expected : JsValue) (params : List SqlParam) : SqlPredicate × List SqlParam :=
  let (keyRef, params) := bindParam params (.value (.string key))
  let (valueRef, params) := bindParam params (.json expected)
  (.or (.contains .metadata (.buildObject keyRef (.cast valueRef))) (arrayHas keyRef (.cast valueRef)), params)

def comparisonSql (key : JsString) (operator : ComparisonOperator) (expected : JsValue) (params : List SqlParam) :
    SqlPredicate × List SqlParam :=
  let (keyRef, params) := bindParam params (.value (.string key))
  let (valueRef, params) := bindParam params (.value expected)
  (.and (.typeIs (.field .metadata keyRef) .number) (.compare operator .metadata keyRef valueRef), params)

def membershipSql (key : JsString) (expected : JsValue) (params : List SqlParam) (negated : Bool) :
    SqlPredicate × List SqlParam :=
  let (keyRef, params) := bindParam params (.value (.string key))
  let (listRef, params) := bindParam params (.json expected)
  let found := .existsElement (.cast listRef) .expected
    (.or (.contains .metadata (.buildObject keyRef .expected)) (arrayHas keyRef .expected))
  (if negated then .not found else found, params)

def isTrue : JsValue → Bool
  | .boolean b => b
  | _ => false

def operatorSql (key operator : JsString) (expected : JsValue) (params : List SqlParam) :
    Except JsString (SqlPredicate × List SqlParam) :=
  if operator = js "$eq" then .ok (equalitySql key expected params)
  else if operator = js "$ne" then
    let (equality, params) := equalitySql key expected params
    .ok (.not equality, params)
  else if operator = js "$gt" then .ok (comparisonSql key .gt expected params)
  else if operator = js "$gte" then .ok (comparisonSql key .gte expected params)
  else if operator = js "$lt" then .ok (comparisonSql key .lt expected params)
  else if operator = js "$lte" then .ok (comparisonSql key .lte expected params)
  else if operator = js "$in" then .ok (membershipSql key expected params false)
  else if operator = js "$nin" then .ok (membershipSql key expected params true)
  else if operator = js "$exists" then
    let (keyRef, params) := bindParam params (.value (.string key))
    .ok (if isTrue expected then .jsonbExists .metadata keyRef else .not (.jsonbExists .metadata keyRef), params)
  else .error (unsupportedOperator operator)

def operatorsSql (key : JsString) : List (JsString × JsValue) → List SqlParam → Except JsString (List SqlPredicate × List SqlParam)
  | [], params => .ok ([], params)
  | (operator, expected) :: rest, params =>
    operatorSql key operator expected params >>= fun (part, params) =>
    operatorsSql key rest params >>= fun (parts, params) => .ok (part :: parts, params)

def conditionSql (key : JsString) (condition : JsValue) (params : List SqlParam) : Except JsString (SqlPredicate × List SqlParam) :=
  match condition with
  | .object operators => operatorsSql key operators params >>= fun (parts, params) => .ok (joinAnd parts, params)
  | condition => .ok (equalitySql key condition params)

mutual
def compileMetadataFilter : JsValue → List SqlParam → Except JsString (SqlPredicate × List SqlParam)
  | .undefined, params | .null, params => .ok (.always, params)
  | .object entries, params =>
    compileEntries entries params >>= fun (parts, params) =>
    if parts.isEmpty then .error (js "filter must contain at least one condition") else .ok (joinAnd parts, params)
  | _, _ => .error (js "filter must be an object")

def compileEntries : List (JsString × JsValue) → List SqlParam → Except JsString (List SqlPredicate × List SqlParam)
  | [], params => .ok ([], params)
  | (key, condition) :: rest, params =>
    (if key = js "$and" ∨ key = js "$or" then
      match condition with
      | .array children =>
        if children.isEmpty then .error (key ++ js " must be a non-empty array")
        else compileChildren children params >>= fun (parts, params) =>
          .ok (if key = js "$and" then joinAnd parts else joinOr parts, params)
      | _ => .error (key ++ js " must be a non-empty array")
    else if startsWithDollar key then .error (unsupportedOperator key)
    else conditionSql key condition params) >>= fun (part, params) =>
    compileEntries rest params >>= fun (parts, params) => .ok (part :: parts, params)

def compileChildren : List JsValue → List SqlParam → Except JsString (List SqlPredicate × List SqlParam)
  | [], params => .ok ([], params)
  | child :: rest, params =>
    compileMetadataFilter child params >>= fun (part, params) =>
    compileChildren rest params >>= fun (parts, params) => .ok (part :: parts, params)
end

/-! ## SQL の評価 -/

inductive SqlError where
  | syntaxError
  | parameter
  | cast
  | notArray

structure RowContext where
  params : List SqlParam
  metadata : Option Jsonb
  elem : Option Jsonb
  expected : Option Jsonb

namespace SqlParam

/-- サーバーが受け取れる引数。U+0000 を含む文字列と、jsonb に読めない JSON は拒まれる。 -/
def accepted : SqlParam → Bool
  | .vector _ => true
  | .value (.string s) => hasNoNul s
  | .value (.number _) => true
  | .value _ => false
  | .json v => (toJsonb v).isSome

def text : SqlParam → Option JsString
  | .value (.string s) => if hasNoNul s then some (toWellFormed s) else none
  | _ => none

def number : SqlParam → Option JsNumber
  | .value (.number n) => some n
  | _ => none

def jsonb : SqlParam → Option Jsonb
  | .json v => toJsonb v
  | _ => none

end SqlParam

namespace RowContext

def param {α : Type} (row : RowContext) (read : SqlParam → Option α) (ref : Ref) : Except SqlError α :=
  fetch (row.params[ref - 1]?.bind read) .parameter

def name (row : RowContext) (binder : Alias) (value : Jsonb) : RowContext :=
  match binder with
  | .elem => { row with elem := some value }
  | .expected => { row with expected := some value }

end RowContext

namespace JsonExpr

def eval (row : RowContext) : JsonExpr → Except SqlError (Option Jsonb)
  | .metadata => .ok row.metadata
  | .elem => .ok row.elem
  | .expected => .ok row.expected
  | .cast ref => (row.param SqlParam.jsonb ref).map some
  | .field source key => source.eval row >>= fun v => (row.param SqlParam.text key).map fun k => v.bind (Jsonb.field · k)
  | .buildObject key value =>
    value.eval row >>= fun v => (row.param SqlParam.text key).map fun k => some (.object [(k, v.getD .null)])

end JsonExpr

def ComparisonOperator.holds : ComparisonOperator → JsNumber → JsNumber → Bool
  | .gt, a, b => b.lt a
  | .gte, a, b => b.le a
  | .lt, a, b => a.lt b
  | .lte, a, b => a.le b

/-- `jsonb_array_elements`。NULL は行を持たない。 -/
def arrayElements : Option Jsonb → Except SqlError (List Jsonb)
  | none => .ok []
  | some (.array items) => .ok items
  | some _ => .error .notArray

/-- `(value ->> key)::double precision`。数でない文字列の変換は、ここでは失敗とする。 -/
def doubleOf : Option Jsonb → Except SqlError (Option JsNumber)
  | none | some .null => .ok none
  | some (.number q) => .ok (some (.finite q))
  | some _ => .error .cast

namespace SqlPredicate

/-- 引数の両方が NULL でなければ `test` の値、そうでなければ NULL。 -/
def strict {α β : Type} (test : α → β → Bool) (a : Option α) (b : Option β) : Truth := a.bind fun x => b.map (test x)

def eval (row : RowContext) : SqlPredicate → Except SqlError Truth
  | .always => .ok (some true)
  | .blank => .error .syntaxError
  | .contains value contained =>
    value.eval row >>= fun v => (contained.eval row).map fun c => strict Jsonb.contains v c
  | .equal left right => left.eval row >>= fun a => (right.eval row).map fun b => strict Jsonb.equal a b
  | .typeIs value type => (value.eval row).map fun v => v.map fun j => decide (j.typeof = type)
  | .compare operator source key value =>
    (source.field key).eval row >>= fun j => doubleOf j >>= fun a => (row.param SqlParam.number value).map fun b =>
      strict operator.holds a (some b)
  | .jsonbExists source key =>
    source.eval row >>= fun v => (row.param SqlParam.text key).map fun k => v.map (Jsonb.exists_ · k)
  | .existsElement source binder condition =>
    source.eval row >>= fun v => arrayElements v >>= Truth.anyRow fun item => condition.eval (row.name binder item)
  | .not p => (p.eval row).map Truth.not
  | .and p q => Truth.both (p.eval row) (q.eval row)
  | .or p q => Truth.either (p.eval row) (q.eval row)

end SqlPredicate

/-! ## 検索 -/

def annParams (queryVector : List JsNumber) (topK : ℕ) : List SqlParam :=
  [.vector queryVector, .value (.number (.finite topK))]

/-- 付随データの行が、条件を満たして選ばれる。引数の一つでも拒まれた問い合わせは、行を返さない。 -/
def selects (queryVector : List JsNumber) (topK : ℕ) (filter metadata : JsValue) : Bool :=
  match compileMetadataFilter filter (annParams queryVector topK), storedMetadata metadata with
  | .ok (condition, params), some stored =>
    params.all SqlParam.accepted && Truth.holds (condition.eval { params, metadata := stored, elem := none, expected := none })
  | _, _ => false

end Supacloud.Vectors
