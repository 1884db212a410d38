import Mathlib.Data.Finset.Card
import Mathlib.Data.Finset.Option
import Supacloud.Library.Table
import Supacloud.Vectors.Values

/-!
# OpenAPI のスキーマの比較（compiler/src/openapi-tools.ts）

`compareSchema` は、終わらない呼び出しを `none` とする。`seen` の文字列は、位置と、
参照を解いた二つのスキーマの組で表す（`|` は JSON の文字列の外に現れない）。
-/

namespace Supacloud.OpenApi

open Contracts (CommandJson JsString)
open Vectors (js)

abbrev OpenApiObject := List (JsString × CommandJson)

local instance : LawfulBEq JsString := inferInstance

def recordValue : CommandJson → Option OpenApiObject
  | .object entries => some entries
  | _ => none

def stringValue : CommandJson → Option JsString
  | .string s => some s
  | _ => none

def arrayValue : CommandJson → Option (List CommandJson)
  | .array items => some items
  | _ => none

def prototypeFunctions : List JsString :=
  ["constructor", "hasOwnProperty", "isPrototypeOf", "propertyIsEnumerable", "toLocaleString", "toString", "valueOf",
    "__defineGetter__", "__defineSetter__", "__lookupGetter__", "__lookupSetter__"].map js

/-- `object[name]`。自身の項目がなければ `Object.prototype` を見る。関数は、レコードでも文字列でも配列でもない値として
`null` で表す。 -/
def OpenApiObject.get (object : OpenApiObject) (name : JsString) : Option CommandJson :=
  match object.lookup name with
  | some value => some value
  | none =>
    if name = js "__proto__" then some (.object [])
    else if name ∈ prototypeFunctions then some .null
    else none

def sortedKeys (object : OpenApiObject) : List JsString := (object.map Prod.fst).mergeSort fun a b => decide ¬ b < a

def replaceTilde (digit replacement : UInt16) : JsString → JsString
  | a :: b :: rest =>
    if a = 126 ∧ b = digit then replacement :: replaceTilde digit replacement rest
    else a :: replaceTilde digit replacement (b :: rest)
  | rest => rest

def decodeJsonPointerPart (value : JsString) : JsString := replaceTilde 48 126 (replaceTilde 49 47 value)

/-! ## 参照 -/

def schemaRef (schema : OpenApiObject) : Option JsString := (schema.get (js "$ref")).bind stringValue

def schemas (document : CommandJson) : Option OpenApiObject := do
  let root ← recordValue document
  let components ← recordValue (← root.get (js "components"))
  recordValue (← components.get (js "schemas"))

/-- 文書の部品のスキーマが持つ参照。 -/
def tableRefs (document : CommandJson) : Finset JsString :=
  (((schemas document).getD []).filterMap fun entry => (recordValue entry.2).bind schemaRef).toFinset

def valueRefs (value : CommandJson) : Finset JsString := ((recordValue value).bind schemaRef).toFinset

theorem target_refs {document target : CommandJson} {name} (h : (schemas document).bind (·.get name) = some target) :
    valueRefs target ⊆ tableRefs document := by
  obtain ⟨table, htab, hget⟩ := Option.bind_eq_some_iff.mp h
  unfold OpenApiObject.get at hget
  split at hget
  · rename_i value hlo
    obtain rfl := Option.some.inj hget
    intro ref href
    simp only [valueRefs, Option.mem_toFinset, Option.mem_def] at href
    simp only [tableRefs, htab, Option.getD_some, List.mem_toFinset, List.mem_filterMap]
    exact ⟨_, Library.mem_of_lookup hlo, href⟩
  · split at hget
    · cases hget
      exact Finset.empty_subset _
    · split at hget
      · cases hget
        exact Finset.empty_subset _
      · cases hget

def schemaPrefix : JsString := js "#/components/schemas/"

/-- 同じ参照は一度しか解かない。解いた先は部品のスキーマなので、必ず終わる。 -/
def resolveSchema (document : CommandJson) (seen : List JsString) (value : CommandJson) : Option OpenApiObject :=
  match _hrec : recordValue value with
  | none => none
  | some schema =>
    match _href : schemaRef schema with
    | none => some schema
    | some ref =>
      if !schemaPrefix.isPrefixOf ref then some schema
      else if _hseen : ref ∈ seen then some schema
      else
        match _htar : (schemas document).bind (·.get (decodeJsonPointerPart (ref.drop schemaPrefix.length))) with
        | none => some schema
        | some target => resolveSchema document (ref :: seen) target
termination_by ((valueRefs value ∪ tableRefs document) \ seen.toFinset).card
decreasing_by
  refine Finset.card_lt_card (Finset.ssubset_iff_of_subset ?_ |>.mpr ⟨ref, ?_, ?_⟩)
  · refine Finset.sdiff_subset_sdiff ?_ (by simp)
    exact Finset.union_subset ((target_refs _htar).trans Finset.subset_union_right) Finset.subset_union_right
  · simp [valueRefs, _hrec, _href, _hseen]
  · simp

/-! ## 比較 -/

inductive SchemaDirection where
  | input
  | output

/-- `compareSchema` が加えるのは、どれも `kind: "breaking"` の変更である。 -/
structure OpenApiDiffChange where
  code : String
  path : JsString
  message : JsString
  deriving DecidableEq

abbrev Changes := List OpenApiDiffChange

abbrev Seen := List (JsString × OpenApiObject × OpenApiObject)

def addChange (changes : Changes) (code : String) (path message : JsString) : Changes :=
  if ⟨code, path, message⟩ ∈ changes then changes else changes ++ [⟨code, path, message⟩]

def schemaRequired (schema : OpenApiObject) : List JsString :=
  (((schema.get (js "required")).bind arrayValue).getD []).filterMap stringValue

def closed (schema : OpenApiObject) : Bool := schema.get (js "additionalProperties") = some (.boolean false)

def schemaProperties (schema : OpenApiObject) : Option OpenApiObject := (schema.get (js "properties")).bind recordValue

def compareTypes (path : JsString) (base current : OpenApiObject) (changes : Changes) : Changes :=
  let changes :=
    match base.get (js "type"), current.get (js "type") with
    | some a, some b =>
      if a = b then changes else addChange changes "schema-type-changed" path (js "The schema type changed.")
    | _, _ => changes
  match (base.get (js "enum")).bind arrayValue, (current.get (js "enum")).bind arrayValue with
  | some a, some b =>
    if ∀ value ∈ a, value ∈ b then changes
    else addChange changes "schema-enum-value-removed" path (js "An enum value accepted by the previous contract was removed.")
  | _, _ => changes

def compareRequired (direction : SchemaDirection) (path : JsString) (base current : OpenApiObject)
    (changes : Changes) : Changes :=
  let required := path ++ js ".required"
  match direction with
  | .input =>
    let changes := (schemaRequired current).foldl (fun changes name =>
      if name ∈ schemaRequired base then changes
      else addChange changes "request-property-required" required
        (js "Request property '" ++ name ++ js "' became required.")) changes
    if !closed base && closed current then
      addChange changes "request-additional-properties-rejected" path
        (js "The request schema now rejects additional properties.")
    else changes
  | .output =>
    (schemaRequired base).foldl (fun changes name =>
      if name ∈ schemaRequired current then changes
      else addChange changes "response-property-optional" required
        (js "Response property '" ++ name ++ js "' is no longer guaranteed.")) changes

def removeProperty (direction : SchemaDirection) (path : JsString) (base : OpenApiObject) (changes : Changes) :
    Changes :=
  match direction with
  | .output => addChange changes "response-property-removed" path
    (js "A property returned by the previous contract was removed.")
  | .input =>
    if closed base then addChange changes "request-property-removed" path
      (js "A request property was removed while additional properties are rejected.")
    else changes

def childPath (path name : JsString) : JsString := path ++ js ".properties." ++ name

/-- 両方に `properties` があるときにたどる、前の契約の項目と、今の契約の同じ名前の項目。 -/
structure Property where
  name : JsString
  base : CommandJson
  current : Option CommandJson
  deriving DecidableEq

def sharedProperties (base current : OpenApiObject) : List Property :=
  match schemaProperties base, schemaProperties current with
  | some bases, some currents => (sortedKeys bases).map fun name => ⟨name, (bases.get name).getD .null, currents.get name⟩
  | _, _ => []

def SchemaDirection.compareSchema (baseDocument currentDocument : CommandJson) (direction : SchemaDirection)
    (baseValue currentValue : CommandJson) (path : JsString) (changes : Changes) (seen : Seen) :
    Option (Changes × Seen) :=
  match resolveSchema baseDocument [] baseValue, resolveSchema currentDocument [] currentValue with
  | some base, some current =>
    if (path, base, current) ∈ seen then some (changes, seen)
    else do
      let s ← (sharedProperties base current).foldlM (fun s x =>
        match x.current with
        | none => some (removeProperty direction (childPath path x.name) base s.1, s.2)
        | some value => direction |>.compareSchema baseDocument currentDocument x.base value (childPath path x.name) s.1 s.2)
        (compareTypes path base current changes, (path, base, current) :: seen)
      some (compareRequired direction path base current s.1, s.2)
  | _, _ => some (changes, seen)
partial_fixpoint

end Supacloud.OpenApi
