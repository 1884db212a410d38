import Supacloud.Library.Table
import Supacloud.Vectors.Lemmas.Filters
import Supacloud.Vectors.Query

/-!
# 付随データの行に残る値
-/

namespace Supacloud.Vectors

open Contracts (JsString)
open Library Jsonb List

variable {x e item metadata : JsValue} {items : List JsValue} {entries : List (JsString × JsValue)} {key k : JsString}
  {binder : Alias} {α : Type} {read : SqlParam → Option α}

/-! ## 書き込み -/

def ofItem : JsValue → Jsonb
  | .boolean b => .boolean b
  | .number (.finite q) => .number q
  | .string s => .string s
  | _ => .null

def ofValue : JsValue → Jsonb
  | .array items => .array (items.map ofItem)
  | value => ofItem value

def ofEntries (entries : List (JsString × JsValue)) : List (JsString × Jsonb) := entries.map fun e => (e.1, ofValue e.2)

section Compare

attribute [local simp] isFilterPrimitive isMetadataPrimitive isMetadataValue cleanItem cleanValue ofItem ofValue toJsonb toJsonbItems toJsonbEntries

theorem jsonbText_eq {s} : jsonbText s = if cleanText s then some s else none := rfl

theorem toJsonb_item (h : isMetadataPrimitive x = true) : toJsonb x = if cleanItem x then some (ofItem x) else none := by
  cases x with
  | number n => cases n <;> rfl
  | string s =>
    simp only [toJsonb, jsonbText_eq, cleanItem, ofItem]
    by_cases h' : cleanText s = true <;> simp [h']
  | boolean _ => rfl
  | _ => simp at h

theorem toJsonbItems_eq : ∀ {items}, items.all isMetadataPrimitive = true →
    toJsonbItems items = if items.all cleanItem then some (items.map ofItem) else none
  | [], _ => rfl
  | item :: rest, h => by
    simp only [all_cons, Bool.and_eq_true] at h
    have hit := toJsonb_item h.1
    have hrs := toJsonbItems_eq h.2
    rw [toJsonbItems, hit, hrs]
    · grind
    · rintro rfl
      simp at h

theorem toJsonb_value (h : isMetadataValue x = true) : toJsonb x = if cleanValue x then some (ofValue x) else none := by
  cases x with
  | array items =>
    rw [toJsonb, toJsonbItems_eq h]
    simp only [cleanValue, ofValue]
    by_cases hi : items.all cleanItem = true <;> simp
  | _ => exact toJsonb_item h

theorem toJsonbEntries_eq : ∀ {entries}, (entries.all fun e => isMetadataValue e.2) = true →
    toJsonbEntries entries = if (entries.all fun e => cleanText e.1 && cleanValue e.2) then some (ofEntries entries) else none
  | [], _ => rfl
  | (key, value) :: rest, h => by
    simp only [all_cons, Bool.and_eq_true] at h
    rw [toJsonbEntries, jsonbText_eq, toJsonb_value h.1, toJsonbEntries_eq h.2]
    · grind [ofEntries]
    · rintro rfl
      simp at h

inductive Stored : JsValue → Option Jsonb → Prop where
  | absent : Stored .undefined none
  | present {entries : List (JsString × JsValue)} (h : ∀ e ∈ entries, isMetadataValue e.2 = true) :
      Stored (.object entries) (some (.object (ofEntries entries)))

theorem storedMetadata_eq {byteLength} (h : validateMetadata byteLength metadata = .ok ()) :
    (storable metadata = true ∧ ∃ stored, storedMetadata metadata = some stored ∧ Stored metadata stored) ∨
      (storable metadata = false ∧ storedMetadata metadata = none) := by
  cases metadata with
  | undefined => exact Or.inl ⟨rfl, none, rfl, .absent⟩
  | object entries =>
    have hv : ∀ e ∈ entries, isMetadataValue e.2 = true := by grind [validateMetadata]
    have hsto : storedMetadata (.object entries) = (toJsonbEntries entries).map fun es => some (.object es) := by
      simp [storedMetadata, JsValue.truthy, toJsonb, Option.map_map, Function.comp_def]
    rw [toJsonbEntries_eq (all_eq_true.mpr hv)] at hsto
    cases hs : storable (.object entries) with
    | true =>
      rw [storable] at hs
      rw [hs] at hsto
      exact Or.inl ⟨rfl, _, hsto, .present hv⟩
    | false =>
      rw [storable] at hs
      rw [hs] at hsto
      exact Or.inr ⟨rfl, hsto⟩
  | _ => simp [validateMetadata] at h

/-! ## 項目と値の比較 -/

theorem lookup_ofEntries (k) : ∀ entries : List (JsString × JsValue), (ofEntries entries).lookup k = (entries.lookup k).map ofValue
  | [] => rfl
  | (key, value) :: rest => by
    have ih := lookup_ofEntries k rest
    simp only [ofEntries, map_cons, lookup_cons] at ih ⊢
    cases k == key with
    | true => rfl
    | false => exact ih

attribute [local simp] keptItem Jsonb.equal JsValue.strictEqual

theorem isFilterPrimitive.isMetadataPrimitive (h : isFilterPrimitive e = true) : isMetadataPrimitive e = true := by
  cases e <;> simp_all

theorem equal_ofItem (he : isFilterPrimitive e = true) (hx : isMetadataPrimitive x = true) :
    equal (ofItem e) (ofItem x) = (keptItem x).strictEqual e ∧ equal (ofItem x) (ofItem e) = (keptItem x).strictEqual e := by
  cases e with
  | number n =>
    cases n with
    | finite q =>
      cases x with
      | number m => cases m <;> simp [JsNumber.equal, BEq.comm]
      | _ => simp_all
    | infinity _ | nan => simp [JsNumber.isFinite] at he
  | boolean b | string s =>
    cases x with
    | number m => cases m <;> simp
    | _ => simp_all [BEq.comm]
  | _ => simp at he

theorem sameValueZero_eq (he : isFilterPrimitive e = true) : x.sameValueZero e = x.strictEqual e := by
  rw [JsValue.sameValueZero]
  rintro - rfl
  simp [JsNumber.isFinite] at he

end Compare

/-! ## 項目の条件 -/

def arrayLeaf (value : Option Jsonb) (c : Jsonb) : Bool :=
  match value with
  | some (.array items) => items.any fun item => Jsonb.equal item c
  | _ => false

def eqLeaf (value : Option Jsonb) (c : Jsonb) : Bool := value.elim false (Jsonb.equal c) || arrayLeaf value c

theorem eqLeaf_scalar (he : isFilterPrimitive e = true) (hx : isMetadataPrimitive x = true) (hv : ofValue x = ofItem x)
    (hl : leftValues (kept x) = [keptItem x]) :
    eqLeaf (some (ofValue x)) (ofItem e) = (leftValues (kept x)).any fun value => value.strictEqual e := by
  have hsc : eqLeaf (some (ofItem x)) (ofItem e) = equal (ofItem e) (ofItem x) := by
    cases x with
    | number n => cases n <;> simp [eqLeaf, arrayLeaf, ofItem]
    | _ => simp [eqLeaf, arrayLeaf, ofItem]
  simp [hv, hl, hsc, (equal_ofItem he hx).1]

theorem eqLeaf_ofValue (he : isFilterPrimitive e = true) (hx : isMetadataValue x = true) :
    eqLeaf (some (ofValue x)) (ofItem e) = (leftValues (kept x)).any fun value => value.strictEqual e := by
  cases x with
  | array items =>
    have hne : Jsonb.equal (ofItem e) (.array (items.map ofItem)) = false := by
      cases e with
      | number n => cases n <;> rfl
      | _ => rfl
    have hits : ∀ item ∈ items, Jsonb.equal (ofItem item) (ofItem e) = (keptItem item).strictEqual e := fun item hi =>
      (equal_ofItem he (all_eq_true.mp hx item hi)).2
    simp only [eqLeaf, arrayLeaf, ofValue, Option.elim, hne, Bool.false_or, kept, leftValues, any_map]
    rw [Bool.eq_iff_iff]
    simp only [any_eq_true, Function.comp]
    constructor
    · rintro ⟨item, hi, h⟩
      exact ⟨item, hi, by rwa [← hits item hi]⟩
    · rintro ⟨item, hi, h⟩
      exact ⟨item, hi, by rwa [hits item hi]⟩
  | number n => exact eqLeaf_scalar he hx rfl (by cases n <;> rfl)
  | string s | boolean b => exact eqLeaf_scalar he hx rfl rfl
  | _ => simp [isMetadataValue, isMetadataPrimitive] at hx

/-!
## 条件の SQL の評価
-/

variable {row : RowContext} {params added : List SqlParam} {keyRef : Ref} {c v : Jsonb} {value : JsonExpr}

namespace RowContext

@[simp] theorem param_name {ref} : (row.name binder v).param read ref = row.param read ref := by
  cases binder <;> rfl

@[simp] theorem metadata_name : (row.name binder v).metadata = row.metadata := by
  cases binder <;> rfl

@[simp] theorem params_name : (row.name binder v).params = row.params := by
  cases binder <;> rfl

@[simp] theorem elem_name : (row.name .elem v).elem = some v := rfl

theorem param_bound {p a} (h : params ++ p :: added <+: row.params)
    (hre : read p = some a) : row.param read (params.length + 1) = .ok a := by
  obtain ⟨rest, hrs⟩ := h
  simp [RowContext.param, ← hrs, hre]

end RowContext

/-! ## 一つの演算 -/

def fieldOf (m : Option Jsonb) (k : JsString) : Option Jsonb := m.bind (Jsonb.field · k)

def Scalar (c : Jsonb) : Prop := (∀ xs, c ≠ .array xs) ∧ ∀ es, c ≠ .object es

theorem ofItem_scalar : Scalar (ofItem x) := by
  cases x with
  | number n => cases n <;> exact ⟨nofun, nofun⟩
  | _ => exact ⟨nofun, nofun⟩

theorem Scalar.within (h : Scalar c) : within c v = equal c v := by
  cases c with
  | array xs => exact absurd rfl (h.1 xs)
  | object es => exact absurd rfl (h.2 es)
  | _ => simp [within]

section

attribute [local simp] SqlPredicate.eval JsonExpr.eval

variable (hk : row.param SqlParam.text keyRef = .ok k)

include hk

theorem field_eval : (JsonExpr.field .metadata keyRef).eval row = .ok (fieldOf row.metadata k) := by
  simp [hk, bind, Except.bind, Except.map, fieldOf]

theorem arrayHas_eval (hv : ∀ item, value.eval (row.name .elem item) = .ok (some c)) :
    (arrayHas keyRef value).eval row = .ok (some (arrayLeaf (fieldOf row.metadata k) c)) := by
  have hfi := field_eval hk
  have hit : ∀ item, (SqlPredicate.equal .elem value).eval (row.name .elem item) = .ok (some (Jsonb.equal item c)) := by
    intro item
    simp only [SqlPredicate.eval, JsonExpr.eval, RowContext.elem_name, hv]
    rfl
  have hty : (SqlPredicate.typeIs (.field .metadata keyRef) .array).eval row =
      .ok ((fieldOf row.metadata k).map fun j => decide (j.typeof = .array)) := by
    rw [SqlPredicate.eval, hfi]
    rfl
  have hexs {items} (h : arrayElements (fieldOf row.metadata k) = .ok items) :
      (SqlPredicate.existsElement (.field .metadata keyRef) .elem (.equal .elem value)).eval row =
        .ok (some (items.any fun item => Jsonb.equal item c)) := by
    rw [SqlPredicate.eval, hfi]
    simp only [bind, Except.bind, h, Truth.anyRow_ok fun item _ => hit item]
    simp
  rw [arrayHas, SqlPredicate.eval]
  cases hf : fieldOf row.metadata k with
  | none =>
    rw [hf] at hty hexs
    rw [Truth.both_ok hty fun _ => hexs (show arrayElements _ = .ok [] from rfl)]
    rfl
  | some j =>
    rw [hf] at hty hexs
    cases j with
    | array items =>
      rw [Truth.both_ok hty fun _ => hexs rfl]
      simp [Jsonb.typeof, Truth.and, arrayLeaf]
    | _ => rw [Truth.both_ok (b := some false) hty (by simp [Jsonb.typeof])]; simp [Truth.and, arrayLeaf]

theorem equality_eval (hv : value.eval row = .ok (some c)) (hv' : ∀ item, value.eval (row.name .elem item) = .ok (some c)) (hc : Scalar c)
    (hobj : ∀ j, row.metadata = some j → ∃ es, j = .object es) :
    (SqlPredicate.or (.contains .metadata (.buildObject keyRef value)) (arrayHas keyRef value)).eval row =
      .ok (row.metadata.map fun j => eqLeaf (j.field k) c) := by
  have har := arrayHas_eval hk hv'
  have hcos : (SqlPredicate.contains .metadata (.buildObject keyRef value)).eval row =
      .ok (row.metadata.map fun j => (j.field k).elim false (Jsonb.equal c)) := by
    simp only [SqlPredicate.eval, JsonExpr.eval, hv, hk, bind, Except.bind, Except.map, SqlPredicate.strict]
    cases hm : row.metadata with
    | none => rfl
    | some j =>
      obtain ⟨es, rfl⟩ := hobj j hm
      have hw : (fun x => Jsonb.within c x) = Jsonb.equal c := funext fun x => hc.within
      simp [Jsonb.contains, Jsonb.within, Jsonb.withinEntries, Jsonb.field, hw]
  rw [SqlPredicate.eval, Truth.either_ok hcos fun _ => har]
  cases hm : row.metadata with
  | none => simp [fieldOf, arrayLeaf, Truth.or]
  | some j => simp [fieldOf, eqLeaf, Truth.or]

end

/-! ## 引数の受け入れ -/

theorem accepted_key : (SqlParam.value (.string key)).accepted = hasNoNul key := rfl

theorem text_key (h : hasNoNul key = true) : (SqlParam.value (.string key)).text = some (toWellFormed key) := by
  simp [SqlParam.text, h]

theorem jsonb_item (he : isFilterPrimitive e = true) : toJsonb e = if cleanValue e then some (ofItem e) else none := by
  cases e with
  | number n => cases n <;> rfl
  | string s => exact toJsonb_item rfl
  | boolean _ => rfl
  | _ => simp [isFilterPrimitive] at he

theorem jsonb_list {items} (h : ∀ item ∈ items, isFilterPrimitive item = true) :
    toJsonb (.array items) = if cleanValue (.array items) then some (.array (items.map ofItem)) else none :=
  toJsonb_value (all_eq_true.mpr fun item hi => isFilterPrimitive.isMetadataPrimitive (h item hi))

theorem accepted_json {c} (h : toJsonb e = if cleanValue e then some c else none) : (SqlParam.json e).accepted = cleanValue e := by
  rw [SqlParam.accepted, h]
  by_cases hc : cleanValue e = true <;> simp [hc]

/-! ## 演算ごとの SQL -/

theorem Stored.object {stored} (h : Stored metadata stored) : ∀ j, stored = some j → ∃ es, j = .object es := by
  cases h with
  | absent => nofun
  | present _ =>
    intro j hj
    cases hj
    exact ⟨_, rfl⟩

theorem equalitySql_eq : equalitySql key e params =
    (.or (.contains .metadata (.buildObject (params.length + 1) (.cast (params.length + 2))))
      (arrayHas (params.length + 1) (.cast (params.length + 2))), params ++ [.value (.string key), .json e]) := by
  simp [equalitySql, bindParam]

theorem comparisonSql_eq {op} : comparisonSql key op e params =
    (.and (.typeIs (.field .metadata (params.length + 1)) .number) (.compare op .metadata (params.length + 1) (params.length + 2)),
      params ++ [.value (.string key), .value e]) := by
  simp [comparisonSql, bindParam]

def membership (params : List SqlParam) : SqlPredicate :=
  .existsElement (.cast (params.length + 2)) .expected
    (.or (.contains .metadata (.buildObject (params.length + 1) .expected)) (arrayHas (params.length + 1) .expected))

theorem membershipSql_eq {negated} : membershipSql key e params negated =
    (if negated then .not (membership params) else membership params, params ++ [.value (.string key), .json e]) := by
  simp [membershipSql, membership, bindParam]

section Evaluate

attribute [local simp] SqlPredicate.eval

variable {p q : SqlParam}

theorem param_second {a} (h : params ++ [p, q] <+: row.params) (hre : read q = some a) : row.param read (params.length + 2) = .ok a := by
  have h' : (params ++ [p]) ++ [q] <+: row.params := by simpa using h
  simpa using RowContext.param_bound h' hre

variable {op : ComparisonOperator} {n : JsNumber} (hkey : hasNoNul key = true)
include hkey

theorem equality_row (hst : Stored metadata row.metadata) (he : isFilterPrimitive e = true) (hcl : cleanValue e = true)
    (h : params ++ [.value (.string key), .json e] <+: row.params) : (equalitySql key e params).1.eval row =
      .ok (row.metadata.map fun j => eqLeaf (j.field (toWellFormed key)) (ofItem e)) := by
  have hk := RowContext.param_bound h (text_key hkey)
  have hj : SqlParam.jsonb (.json e) = some (ofItem e) := (jsonb_item he).trans (if_pos hcl)
  have hca : ∀ r, r.params = row.params → (JsonExpr.cast (params.length + 2)).eval r = .ok (some (ofItem e)) := by
    intro r hr
    have h2 := param_second h hj
    rw [JsonExpr.eval, show r.param SqlParam.jsonb (params.length + 2) = row.param SqlParam.jsonb (params.length + 2) by
      rw [RowContext.param, RowContext.param, hr], h2]
    rfl
  rw [equalitySql_eq]
  exact equality_eval hk (hca row rfl) (fun item => hca _ RowContext.params_name) ofItem_scalar hst.object

theorem membership_row {items : List JsValue} (hst : Stored metadata row.metadata) (hpr : ∀ item ∈ items, isFilterPrimitive item = true)
    (hcl : cleanValue (.array items) = true) (h : params ++ [.value (.string key), .json (.array items)] <+: row.params) :
    (membership params).eval row = .ok (some ((items.map ofItem).any fun c =>
      (row.metadata.map fun j => eqLeaf (j.field (toWellFormed key)) c) == some true)) := by
  have hk := RowContext.param_bound h (text_key hkey)
  have hj : SqlParam.jsonb (.json (.array items)) = some (.array (items.map ofItem)) := (jsonb_list hpr).trans (if_pos hcl)
  have hca : (JsonExpr.cast (params.length + 2)).eval row = .ok (some (.array (items.map ofItem))) := by
    rw [JsonExpr.eval, param_second h hj]
    rfl
  rw [membership, SqlPredicate.eval, hca]
  simp only [bind, Except.bind, arrayElements]
  apply Truth.anyRow_ok
  intro c hc
  obtain ⟨item, _, rfl⟩ := mem_map.mp hc
  rw [equality_eval (c := ofItem item) (k := toWellFormed key) (by simpa using hk) rfl (fun _ => rfl) ofItem_scalar
    (by simpa using hst.object)]
  simp

theorem comparison_row (op) (h : params ++ [.value (.string key), .value (.number n)] <+: row.params) :
    ∃ t, (comparisonSql key op (.number n) params).1.eval row = .ok t ∧
      (t = some true ↔ ∃ q, fieldOf row.metadata (toWellFormed key) = some (.number q) ∧ op.holds (.finite q) n = true) := by
  have hk := RowContext.param_bound h (text_key hkey)
  have hfi := field_eval hk
  have hn : row.param SqlParam.number (params.length + 2) = .ok n := param_second h rfl
  have hty : (SqlPredicate.typeIs (.field .metadata (params.length + 1)) .number).eval row =
      .ok ((fieldOf row.metadata (toWellFormed key)).map fun j => decide (j.typeof = .number)) := by
    rw [SqlPredicate.eval, hfi]
    rfl
  rw [comparisonSql_eq]
  simp only [SqlPredicate.eval] at hty ⊢
  cases hf : fieldOf row.metadata (toWellFormed key) with
  | none =>
    rw [hf] at hty hfi
    refine ⟨_, Truth.both_ok hty (b := none) fun _ => ?_, by simp⟩
    simp [hfi, bind, Except.bind, doubleOf, hn, Except.map, SqlPredicate.strict]
  | some j =>
    rw [hf] at hty hfi
    cases j with
    | number q =>
      refine ⟨_, Truth.both_ok hty (b := some (op.holds (.finite q) n)) fun _ => ?_, by simp [Jsonb.typeof]⟩
      simp [hfi, bind, Except.bind, doubleOf, hn, Except.map, SqlPredicate.strict]
    | _ => exact ⟨_, Truth.both_ok (b := none) hty (by simp [Jsonb.typeof]), by simp⟩

theorem exists_row (h : params ++ [.value (.string key)] <+: row.params) :
    (SqlPredicate.jsonbExists .metadata (params.length + 1)).eval row = .ok (row.metadata.map fun j => j.exists_ (toWellFormed key)) := by
  have hk := RowContext.param_bound h (text_key hkey)
  simp [JsonExpr.eval, hk, bind, Except.bind, Except.map]

end Evaluate

end Supacloud.Vectors
