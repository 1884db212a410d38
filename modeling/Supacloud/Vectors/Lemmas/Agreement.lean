import Supacloud.Vectors.Lemmas.Query

/-!
# 二つの評価の比較
-/

namespace Supacloud.Vectors

open Contracts (JsString)
open Library SqlPredicate List Bool

variable {key operator k : JsString} {e x left metadata : JsValue} {items : List JsValue} {entries : List (JsString × JsValue)}

def anyEqual (left e : JsValue) : Bool := (leftValues left).any fun value => value.strictEqual e

theorem compares_eq : compares left (js "$eq") e = anyEqual left e := rfl

theorem compares_ne : compares left (js "$ne") e = !anyEqual left e := by
  rw [anyEqual, not_any_eq_all_not]
  rfl

section

variable (h : ∀ item ∈ items, isFilterPrimitive item = true)

include h

theorem includes_eq :
    ((leftValues left).any fun value => items.any fun item => value.sameValueZero item) = items.any fun item => anyEqual left item := by
  rw [Bool.eq_iff_iff]
  simp only [anyEqual, any_eq_true]
  constructor
  · grind [sameValueZero_eq]
  · grind [sameValueZero_eq]

theorem compares_in : compares left (js "$in") (.array items) = items.any fun item => anyEqual left item := by
  rw [← includes_eq h]
  rfl

theorem compares_nin : compares left (js "$nin") (.array items) = !items.any fun item => anyEqual left item := by
  rw [← includes_eq h, not_any_eq_all_not]
  rfl

end

variable {op : ComparisonOperator} {n : JsNumber}

theorem compares_gt : compares left (js "$gt") (.number n) = compareNumbers (fun a b => b.lt a) left (.number n) := rfl

theorem compares_gte : compares left (js "$gte") (.number n) = compareNumbers (fun a b => b.le a) left (.number n) := rfl

theorem compares_lt : compares left (js "$lt") (.number n) = compareNumbers JsNumber.lt left (.number n) := rfl

theorem compares_lte : compares left (js "$lte") (.number n) = compareNumbers JsNumber.le left (.number n) := rfl

theorem compares_exists {b} : compares left (js "$exists") (.boolean b) = (b == !isUndefined left) := rfl

/-! ## 食い違う条件 -/

def sqlMeets (metadata : JsValue) (key operator : JsString) (expected : JsValue) : Bool :=
  match metadata with
  | .object entries => compares (keptEntry entries (toWellFormed key)) operator expected
  | _ => compares .undefined operator expected ^^ lossy metadata key operator expected

section

variable (he : isFilterPrimitive e = true)

include he

theorem strictEqual_kept : (keptItem x).strictEqual e = x.strictEqual e := by
  cases x with
  | number n =>
    cases n with
    | finite q => rfl
    | _ =>
      cases e with
      | number m => cases m <;> simp_all [keptItem, JsValue.strictEqual, JsNumber.equal, isFilterPrimitive, JsNumber.isFinite]
      | null => simp [isFilterPrimitive] at he
      | _ => rfl
  | _ => rfl

theorem anyEqual_kept : anyEqual (kept x) e = anyEqual x e := by
  cases x with
  | array items =>
    rw [Bool.eq_iff_iff]
    simp [anyEqual, kept, leftValues, strictEqual_kept he]
  | number n =>
    have hit : anyEqual (kept (.number n)) e = (keptItem (.number n)).strictEqual e := by
      cases n <;> simp [anyEqual, kept, keptItem, leftValues]
    rw [hit, strictEqual_kept he]
    simp [anyEqual, leftValues]
  | _ => rfl

theorem anyEqual_absent : anyEqual (.object []) e = false ∧ anyEqual .undefined e = false := by
  cases e with
  | undefined => simp [isFilterPrimitive] at he
  | _ => simp [anyEqual, leftValues, JsValue.strictEqual]

end

theorem any_congr {f g} (h : ∀ item ∈ items, f item = g item) : items.any f = items.any g := by
  induction items with
  | nil => rfl
  | cons item rest ih =>
    rw [any_cons, any_cons, h item (by simp), ih fun i hi => h i (mem_cons_of_mem _ hi)]

theorem compares_inherited (h : ValidOperator operator e) :
    compares .undefined operator e = (compares (.object []) operator e ^^ operator == js "$exists") := by
  cases h with
  | eq he => rw [compares_eq, compares_eq, (anyEqual_absent he).1, (anyEqual_absent he).2]; rfl
  | ne he => rw [compares_ne, compares_ne, (anyEqual_absent he).1, (anyEqual_absent he).2]; rfl
  | in_ _ he =>
    rw [compares_in he, compares_in he, any_congr fun i hi => (anyEqual_absent (he i hi)).1.trans (anyEqual_absent (he i hi)).2.symm]
    exact (xor_false _).symm
  | nin _ he =>
    rw [compares_nin he, compares_nin he, any_congr fun i hi => (anyEqual_absent (he i hi)).1.trans (anyEqual_absent (he i hi)).2.symm]
    exact (xor_false _).symm
  | exists_ b => cases b <;> rfl
  | _ => rfl

theorem compares_kept (h : ValidOperator operator e) :
    compares (kept x) operator e = (compares x operator e ^^ beyondJson operator x) := by
  have same (hop : compares (kept x) operator e = compares x operator e)
      (hnot : (operator == js "$lt") = false ∧ (operator == js "$lte") = false ∧ (operator == js "$gt") = false ∧
        (operator == js "$gte") = false) :
      compares (kept x) operator e = (compares x operator e ^^ beyondJson operator x) := by
    have hfa : beyondJson operator x = false := by
      cases x with
      | number n =>
        cases n with
        | infinity negative => cases negative <;> simp [beyondJson, hnot]
        | _ => rfl
      | _ => rfl
    rw [hop, hfa, Bool.xor_false]
  cases h with
  | eq he => exact same (by rw [compares_eq, compares_eq, anyEqual_kept he]) (by decide)
  | ne he => exact same (by rw [compares_ne, compares_ne, anyEqual_kept he]) (by decide)
  | in_ _ he => exact same (by rw [compares_in he, compares_in he, any_congr fun i hi => anyEqual_kept (he i hi)]) (by decide)
  | nin _ he => exact same (by rw [compares_nin he, compares_nin he, any_congr fun i hi => anyEqual_kept (he i hi)]) (by decide)
  | exists_ b =>
    apply same _ (by decide)
    cases x with
    | number n => cases n <;> rfl
    | _ => rfl
  | _ =>
    cases x with
    | number n =>
      cases n with
      | finite _ => exact (xor_false _).symm
      | infinity negative => cases negative <;> rfl
      | nan => rfl
    | array _ => rfl
    | _ => exact (xor_false _).symm

theorem objectPrototype_wellFormed (h : objectPrototype.contains key = true) : isWellFormed key = true := by
  have hall : objectPrototype.all isWellFormed = true := by decide
  exact all_eq_true.mp hall key (by simpa using h)

theorem sqlMeets_eq (hs : storable metadata = true) (h : ValidOperator operator e) :
    sqlMeets metadata key operator e = (compares (metadata.get key) operator e ^^ lossy metadata key operator e) := by
  cases metadata with
  | object entries =>
    simp only [sqlMeets, lossy, JsValue.get]
    by_cases hw : isWellFormed key = true
    · rw [if_pos hw, eq_of_beq hw]
      cases hl : entries.lookup key with
      | none =>
        simp only [keptEntry, hl, Option.map_none, Option.getD_none]
        by_cases hp : objectPrototype.contains key = true
        · simp only [hp, if_true, Bool.and_true, compares_inherited h]
        · rw [if_neg hp, Bool.eq_false_iff.mpr hp, Bool.and_false, Bool.xor_false]
      | some x =>
        simp [keptEntry, hl, compares_kept h]
    · have hl : entries.lookup key = none := by
        cases hl : entries.lookup key with
        | none => rfl
        | some x =>
          have hcl := all_eq_true.mp hs _ (mem_of_lookup hl)
          simp [cleanText, hw] at hcl
      have hp : objectPrototype.contains key = false := by
        rw [eq_false_iff]
        exact fun hp => hw (objectPrototype_wellFormed hp)
      rw [if_neg hw]
      simp only [hl, hp, Option.getD_none, false_eq_true, if_false]
      cases compares (keptEntry entries (toWellFormed key)) operator e <;> cases compares .undefined operator e <;> rfl
  | _ => rfl

/-! ## データベースでの一つの条件 -/

theorem compareNumbers_entry : (∃ q, fieldOf (some (.object (ofEntries entries))) k = some (.number q) ∧ op.holds (.finite q) n = true) ↔
      compareNumbers op.holds (keptEntry entries k) (.number n) = true := by
  simp only [fieldOf, Option.bind_some, Jsonb.field, lookup_ofEntries, keptEntry]
  cases hl : entries.lookup k with
  | none => simp [compareNumbers]
  | some x =>
    cases x with
    | number m => cases m <;> simp [ofValue, ofItem, kept, keptItem, compareNumbers]
    | _ => simp [ofValue, ofItem, kept, keptItem, compareNumbers]

section Present

variable (hv : ∀ e ∈ entries, isMetadataValue e.2 = true)
include hv

theorem eqLeaf_entry (he : isFilterPrimitive e = true) :
    eqLeaf ((Jsonb.object (ofEntries entries)).field k) (ofItem e) = anyEqual (keptEntry entries k) e := by
  simp only [Jsonb.field, lookup_ofEntries, keptEntry]
  cases hl : entries.lookup k with
  | none => exact (anyEqual_absent he).2.symm
  | some x => exact eqLeaf_ofValue he (hv _ (mem_of_lookup hl))

theorem isUndefined_entry : isUndefined (keptEntry entries k) = !(entries.lookup k).isSome := by
  rw [keptEntry]
  cases hl : entries.lookup k with
  | none => rfl
  | some x =>
    have hx := hv _ (mem_of_lookup hl)
    cases x with
    | undefined => simp [isMetadataValue, isMetadataPrimitive] at hx
    | number n => cases n <;> rfl
    | _ => rfl

end Present

variable {params added : List SqlParam} {row : RowContext} {stored : Option Jsonb}

def byEntries {α : Type} (absent : α) (present : List (JsString × JsValue) → α) : JsValue → α
  | .object entries => present entries
  | _ => absent

theorem eqTruth_stored (hst : Stored metadata stored) (he : isFilterPrimitive e = true) :
    (stored.map fun j => eqLeaf (j.field (toWellFormed key)) (ofItem e)) =
      byEntries none (fun entries => some (anyEqual (keptEntry entries (toWellFormed key)) e)) metadata := by
  cases hst with
  | absent => rfl
  | present hv => simp [eqLeaf_entry hv he, byEntries]

theorem membership_stored (hst : Stored metadata stored) (he : ∀ item ∈ items, isFilterPrimitive item = true) :
    ((items.map ofItem).any fun c => (stored.map fun j => eqLeaf (j.field (toWellFormed key)) c) == some true) =
      byEntries false (fun entries => items.any fun item => anyEqual (keptEntry entries (toWellFormed key)) item) metadata := by
  rw [any_map]
  cases hst with
  | absent => simp [byEntries]
  | present hv =>
    apply any_congr
    intro item hi
    simp [eqLeaf_entry hv (he item hi)]

theorem comparison_stored (hst : Stored metadata stored) : (∃ q, fieldOf stored k = some (.number q) ∧ op.holds (.finite q) n = true) ↔
      byEntries False (fun entries => compareNumbers op.holds (keptEntry entries k) (.number n) = true) metadata := by
  cases hst with
  | absent => simp [fieldOf, byEntries]
  | present hv => exact compareNumbers_entry

def Compiles (params : List SqlParam) (result : Except JsString (SqlPredicate × List SqlParam)) (ok : Bool)
    (truth : JsValue → Bool) : Prop :=
  ∃ p added, result = .ok (p, params ++ added) ∧ added.all SqlParam.accepted = ok ∧
    ∀ row metadata, Stored metadata row.metadata → params ++ added <+: row.params → ok = true →
      ∃ t, p.eval row = .ok t ∧ (t = some true ↔ truth metadata = true)

theorem Stored.kinds (h : Stored metadata stored) : metadata = .undefined ∨ ∃ entries, metadata = .object entries := by
  cases h with
  | absent => exact Or.inl rfl
  | present _ => exact Or.inr ⟨_, rfl⟩

theorem sqlMeets_undefined (hne : (operator == js "$ne") = false) (hex : (operator == js "$exists") = false) :
    sqlMeets .undefined key operator e = compares .undefined operator e := by
  simp [sqlMeets, lossy, hne, hex]

theorem equality_compiles (he : isFilterPrimitive e = true) :
    Compiles params (.ok (equalitySql key e params)) (hasNoNul key && cleanValue e) fun metadata => sqlMeets metadata key (js "$eq") e := by
  refine ⟨_, [.value (.string key), .json e], congrArg Except.ok equalitySql_eq, ?_, ?_⟩
  · simp [accepted_key, accepted_json (jsonb_item he)]
  · intro row metadata hst h hok
    simp only [and_eq_true] at hok
    have hrow := equality_row hok.1 hst he hok.2 h
    rw [equalitySql_eq, eqTruth_stored hst he] at hrow
    refine ⟨_, hrow, ?_⟩
    rcases hst.kinds with rfl | ⟨entries, rfl⟩
    · simp [byEntries, sqlMeets_undefined (show (js "$eq" == js "$ne") = false from rfl) rfl, compares_eq, (anyEqual_absent he).2]
    · simp [byEntries, sqlMeets, compares_eq]

theorem inequality_compiles (he : isFilterPrimitive e = true) :
    Compiles params (operatorSql key (js "$ne") e params) (hasNoNul key && cleanValue e) fun metadata => sqlMeets metadata key (js "$ne") e := by
  have hsql : operatorSql key (js "$ne") e params = .ok (.not (equalitySql key e params).1, params ++ [.value (.string key), .json e]) := by
    rw [equalitySql_eq]
    exact congrArg (fun r => Except.ok (SqlPredicate.not r.1, r.2)) equalitySql_eq
  refine ⟨_, _, hsql, ?_, ?_⟩
  · simp [accepted_key, accepted_json (jsonb_item he)]
  · intro row metadata hst h hok
    simp only [and_eq_true] at hok
    have hrow := equality_row hok.1 hst he hok.2 h
    rw [eqTruth_stored hst he] at hrow
    refine ⟨_, by rw [eval, hrow]; rfl, ?_⟩
    rw [Truth.not_eq_true]
    rcases hst.kinds with rfl | ⟨entries, rfl⟩
    · simp [byEntries, sqlMeets, compares_ne, (anyEqual_absent he).2, lossy]
    · simp [byEntries, sqlMeets, compares_ne]

theorem comparison_compiles (op) {q} (hsql : operatorSql key operator (.number (.finite q)) params =
      .ok (comparisonSql key op (.number (.finite q)) params))
    (hcmp : ∀ left, compares left operator (.number (.finite q)) = compareNumbers op.holds left (.number (.finite q)))
    (hne : (operator == js "$ne") = false) (hex : (operator == js "$exists") = false) :
    Compiles params (operatorSql key operator (.number (.finite q)) params) (hasNoNul key && cleanValue (.number (.finite q)))
      fun metadata => sqlMeets metadata key operator (.number (.finite q)) := by
  refine ⟨_, _, hsql.trans (congrArg Except.ok comparisonSql_eq), ?_, ?_⟩
  · simp [SqlParam.accepted, cleanValue, cleanItem]
  · intro row metadata hst h hok
    simp only [and_eq_true] at hok
    obtain ⟨t, hrow, ht⟩ := comparison_row hok.1 op h
    rw [comparisonSql_eq] at hrow
    refine ⟨t, hrow, ?_⟩
    rw [ht, comparison_stored hst]
    rcases hst.kinds with rfl | ⟨entries, rfl⟩
    · simp [byEntries, sqlMeets_undefined hne hex, hcmp, compareNumbers]
    · simp [byEntries, sqlMeets, hcmp]

theorem membership_compiles (hpr : ∀ item ∈ items, isFilterPrimitive item = true) :
    Compiles params (operatorSql key (js "$in") (.array items) params) (hasNoNul key && cleanValue (.array items))
      fun metadata => sqlMeets metadata key (js "$in") (.array items) := by
  have hsql : operatorSql key (js "$in") (.array items) params =
      .ok (membership params, params ++ [.value (.string key), .json (.array items)]) :=
    congrArg Except.ok membershipSql_eq
  refine ⟨_, _, hsql, ?_, ?_⟩
  · simp [accepted_key, accepted_json (jsonb_list hpr)]
  · intro row metadata hst h hok
    simp only [and_eq_true] at hok
    have hrow := membership_row hok.1 hst hpr hok.2 h
    rw [membership_stored hst hpr] at hrow
    refine ⟨_, hrow, ?_⟩
    rcases hst.kinds with rfl | ⟨entries, rfl⟩
    · have hfa : sqlMeets .undefined key (js "$in") (.array items) = false := by
        rw [sqlMeets_undefined (by decide) (by decide), compares_in hpr, any_congr fun i hi => (anyEqual_absent (hpr i hi)).2]
        simp
      simp [byEntries, hfa]
    · simp [byEntries, sqlMeets, compares_in hpr]

theorem exclusion_compiles (hpr : ∀ item ∈ items, isFilterPrimitive item = true) :
    Compiles params (operatorSql key (js "$nin") (.array items) params) (hasNoNul key && cleanValue (.array items))
      fun metadata => sqlMeets metadata key (js "$nin") (.array items) := by
  have hsql : operatorSql key (js "$nin") (.array items) params =
      .ok (.not (membership params), params ++ [.value (.string key), .json (.array items)]) :=
    congrArg Except.ok membershipSql_eq
  refine ⟨_, _, hsql, ?_, ?_⟩
  · simp [accepted_key, accepted_json (jsonb_list hpr)]
  · intro row metadata hst h hok
    simp only [and_eq_true] at hok
    have hrow := membership_row hok.1 hst hpr hok.2 h
    rw [membership_stored hst hpr] at hrow
    refine ⟨_, by rw [eval, hrow]; rfl, ?_⟩
    rw [Truth.not_eq_true]
    rcases hst.kinds with rfl | ⟨entries, rfl⟩
    · have htr : sqlMeets .undefined key (js "$nin") (.array items) = true := by
        rw [sqlMeets_undefined (by decide) (by decide), compares_nin hpr, any_congr fun i hi => (anyEqual_absent (hpr i hi)).2]
        simp
      simp [byEntries, htr]
    · simp [byEntries, sqlMeets, compares_nin hpr]

theorem existence_compiles {b} :
    Compiles params (operatorSql key (js "$exists") (.boolean b) params) (hasNoNul key && cleanValue (.boolean b))
      fun metadata => sqlMeets metadata key (js "$exists") (.boolean b) := by
  have hsql : operatorSql key (js "$exists") (.boolean b) params =
      .ok (if b then .jsonbExists .metadata (params.length + 1) else .not (.jsonbExists .metadata (params.length + 1)),
        params ++ [.value (.string key)]) := rfl
  refine ⟨_, _, hsql, ?_, ?_⟩
  · simp [accepted_key, cleanValue, cleanItem]
  · intro row metadata hst h hok
    simp only [and_eq_true] at hok
    have hrow := exists_row hok.1 h
    have htru : row.metadata.map (fun j => j.exists_ (toWellFormed key)) =
        byEntries none (fun entries => some (!isUndefined (keptEntry entries (toWellFormed key)))) metadata := by
      generalize row.metadata = stored at hst
      cases hst with
      | absent => rfl
      | present hv => simp [isUndefined_entry hv, Jsonb.exists_, lookup_ofEntries, byEntries]
    rw [htru] at hrow
    rcases hst.kinds with rfl | ⟨entries, rfl⟩
    · have hfa : sqlMeets .undefined key (js "$exists") (.boolean b) = false := by cases b <;> rfl
      cases b with
      | true => exact ⟨_, hrow, by simp [byEntries, hfa]⟩
      | false => exact ⟨_, by rw [if_neg (by simp), eval, hrow]; rfl, by simp [byEntries, hfa]⟩
    · cases b with
      | true => exact ⟨_, hrow, by simp [byEntries, sqlMeets, compares_exists]⟩
      | false =>
        exact ⟨_, by rw [if_neg (by simp), eval, hrow]; rfl, by simp [byEntries, sqlMeets, compares_exists]⟩

theorem ValidOperator.compiles (h : ValidOperator operator e) :
    Compiles params (operatorSql key operator e params) (hasNoNul key && cleanValue e) fun metadata => sqlMeets metadata key operator e := by
  cases h with
  | eq he => exact equality_compiles he
  | ne he => exact inequality_compiles he
  | gt q => exact comparison_compiles .gt rfl (fun _ => compares_gt) rfl rfl
  | gte q => exact comparison_compiles .gte rfl (fun _ => compares_gte) rfl rfl
  | lt q => exact comparison_compiles .lt rfl (fun _ => compares_lt) rfl rfl
  | lte q => exact comparison_compiles .lte rfl (fun _ => compares_lte) rfl rfl
  | in_ _ he => exact membership_compiles he
  | nin _ he => exact exclusion_compiles he
  | exists_ b => exact existence_compiles

end Supacloud.Vectors

/-!
## 絞り込み全体の SQL
-/

namespace Supacloud.Vectors

open Contracts (JsString)
open Library

variable {params : List SqlParam} {row : RowContext} {metadata : JsValue} {key : JsString}

def Evaluates (row : RowContext) (metadata : JsValue) (p : SqlPredicate) (truth : JsValue → Bool) : Prop :=
  ∃ t, p.eval row = .ok t ∧ (t = some true ↔ truth metadata = true)

def CompilesAll (params : List SqlParam) (result : Except JsString (List SqlPredicate × List SqlParam)) (ok : Bool)
    (truths : List (JsValue → Bool)) : Prop :=
  ∃ parts added, result = .ok (parts, params ++ added) ∧ added.all SqlParam.accepted = ok ∧ parts.length = truths.length ∧
    ∀ row metadata, Stored metadata row.metadata → params ++ added <+: row.params → ok = true →
      List.Forall₂ (Evaluates row metadata) parts truths

theorem CompilesAll.nil : CompilesAll params (.ok ([], params)) true [] :=
  ⟨[], [], by simp, rfl, rfl, fun _ _ _ _ _ => .nil⟩

theorem CompilesAll.cons {first truth} {rest : List SqlParam → Except JsString (List SqlPredicate × List SqlParam)} {truths ok oks}
    (h : Compiles params first ok truth) (hre : ∀ params, CompilesAll params (rest params) oks truths) :
    CompilesAll params (first >>= fun (part, params) => rest params >>= fun (parts, params) => .ok (part :: parts, params))
      (ok && oks) (truth :: truths) := by
  obtain ⟨p, added, hp, hok, hev⟩ := h
  obtain ⟨ps, more, hps, hoks, hlen, hevs⟩ := hre (params ++ added)
  refine ⟨p :: ps, added ++ more, ?_, by simp [hok, hoks], by simp [hlen], ?_⟩
  · rw [hp]
    simp [bind, Except.bind, hps]
  · intro row metadata hst hpre hbo
    rw [Bool.and_eq_true] at hbo
    rw [← List.append_assoc] at hpre
    exact .cons (hev row metadata hst ((List.prefix_append _ _).trans hpre) hbo.1) (hevs row metadata hst hpre hbo.2)

theorem Compiles.imp {first truth truth' ok ok'}
    (h : Compiles params first ok truth) (hok : ok' = ok) (htru : truth' = truth) : Compiles params first ok' truth' := by
  rwa [hok, htru]

/-! ## 結び -/

theorem foldl_and_eval : ∀ {parts : List SqlPredicate} {truths : List (JsValue → Bool)} {p : SqlPredicate} {b : Bool},
    List.Forall₂ (Evaluates row metadata) parts truths → (∃ t, p.eval row = .ok t ∧ (t = some true ↔ b = true)) →
    ∃ t, (parts.foldl SqlPredicate.and p).eval row = .ok t ∧ (t = some true ↔ (b && truths.all fun truth => truth metadata) = true)
  | [], [], p, b, _, hp => by simpa using hp
  | q :: parts, truth :: truths, p, b, h, ⟨t, ht, htr⟩ => by
    cases h with
    | cons hq hre =>
      obtain ⟨t', ht', htr'⟩ := hq
      have hand : ∃ u, (SqlPredicate.and p q).eval row = .ok u ∧ (u = some true ↔ (b && truth metadata) = true) :=
        ⟨_, by rw [SqlPredicate.eval, Truth.both_ok ht fun _ => ht'], by rw [Truth.and_eq_true, htr, htr', Bool.and_eq_true]⟩
      simpa [and_assoc] using foldl_and_eval hre hand

theorem foldl_or_eval : ∀ {parts : List SqlPredicate} {truths : List (JsValue → Bool)} {p : SqlPredicate} {b : Bool},
    List.Forall₂ (Evaluates row metadata) parts truths → (∃ t, p.eval row = .ok t ∧ (t = some true ↔ b = true)) →
    ∃ t, (parts.foldl SqlPredicate.or p).eval row = .ok t ∧ (t = some true ↔ (b || truths.any fun truth => truth metadata) = true)
  | [], [], p, b, _, hp => by simpa using hp
  | q :: parts, truth :: truths, p, b, h, ⟨t, ht, htr⟩ => by
    cases h with
    | cons hq hre =>
      obtain ⟨t', ht', htr'⟩ := hq
      have hor : ∃ u, (SqlPredicate.or p q).eval row = .ok u ∧ (u = some true ↔ (b || truth metadata) = true) :=
        ⟨_, by rw [SqlPredicate.eval, Truth.either_ok ht fun _ => ht'], by rw [Truth.or_eq_true, htr, htr', Bool.or_eq_true]⟩
      simpa [or_assoc] using foldl_or_eval hre hor

section Join

variable {result : Except JsString (List SqlPredicate × List SqlParam)} {ok : Bool} {truths : List (JsValue → Bool)}
  (h : CompilesAll params result ok truths) (hne : truths ≠ [])
include h hne

theorem CompilesAll.join {join : List SqlPredicate → SqlPredicate} {truth}
    (hjo : ∀ row metadata parts, parts ≠ [] → List.Forall₂ (Evaluates row metadata) parts truths → Evaluates row metadata (join parts) truth) :
    ∃ parts added, parts ≠ [] ∧ result = .ok (parts, params ++ added) ∧ Compiles params (.ok (join parts, params ++ added)) ok truth := by
  obtain ⟨parts, added, hp, hok, hlen, hev⟩ := h
  have hpas : parts ≠ [] := by
    rintro rfl
    exact hne (List.eq_nil_of_length_eq_zero hlen.symm)
  exact ⟨parts, added, hpas, hp, join parts, added, rfl, hok, fun row metadata hst hpre hb =>
    hjo row metadata parts hpas (hev row metadata hst hpre hb)⟩

theorem CompilesAll.and : ∃ parts added, parts ≠ [] ∧ result = .ok (parts, params ++ added) ∧
    Compiles params (.ok (joinAnd parts, params ++ added)) ok fun metadata => truths.all fun truth => truth metadata := by
  apply h.join hne
  intro row metadata parts hpas hall
  cases hall with
  | nil => exact absurd rfl hpas
  | cons hp hre => simpa [Evaluates, joinAnd] using foldl_and_eval hre hp

theorem CompilesAll.or : ∃ parts added, parts ≠ [] ∧ result = .ok (parts, params ++ added) ∧
    Compiles params (.ok (joinOr parts, params ++ added)) ok fun metadata => truths.any fun truth => truth metadata := by
  apply h.join hne
  intro row metadata parts hpas hall
  cases hall with
  | nil => exact absurd rfl hpas
  | cons hp hre => simpa [Evaluates, joinOr] using foldl_or_eval hre hp

end Join

def leafSendable (leaf : JsString × JsString × JsValue) : Bool := hasNoNul leaf.1 && cleanValue leaf.2.2

theorem operators_compile (key) : ∀ {operators}, (∀ e ∈ operators, ValidOperator e.1 e.2) →
    ∀ params, CompilesAll params (operatorsSql key operators params) ((operators.map fun e => (key, e.1, e.2)).all leafSendable)
      (operators.map fun e metadata => sqlMeets metadata key e.1 e.2)
  | [], _, _ => CompilesAll.nil
  | (operator, expected) :: rest, h, params => by
    have hfi : ValidOperator operator expected := h (operator, expected) (by simp)
    exact CompilesAll.cons hfi.compiles fun params => operators_compile key (fun e he => h e (List.mem_cons_of_mem _ he)) params

theorem ValidCondition.compiles {condition} (h : ValidCondition condition) :
    Compiles params (conditionSql key condition params) ((conditionLeaves key condition).all leafSendable)
      fun metadata => readCondition (sqlMeets metadata) key condition := by
  cases h with
  | primitive h =>
    have heq : Compiles params (.ok (equalitySql key condition params)) _ _ := equality_compiles h
    cases condition with
    | object _ => simp [isFilterPrimitive] at h
    | _ => exact heq.imp (by simp [conditionLeaves, leafSendable]) rfl
  | @operators operators hne h =>
    obtain ⟨parts, added, _, hp, hc⟩ := (operators_compile key h params).and (by simpa using hne)
    rw [conditionSql, hp]
    exact hc.imp rfl (by funext metadata; simp [readCondition, Function.comp_def])

/-! ## 絞り込み -/

@[simp] theorem readEntries_nil {meets} : readEntries meets [] = true := rfl

theorem readEntries_cons {meets e rest} : readEntries meets (e :: rest) = (readEntries meets [e] && readEntries meets rest) := by
  obtain ⟨key, condition⟩ := e
  cases condition with
  | array children => rw [readEntries, readEntries, readEntries, Bool.and_true]
  | _ =>
    rw [readEntries, readEntries, readEntries, Bool.and_true]
    · simp
    · simp

theorem readEntries_eq_all {meets} : ∀ entries : List (JsString × JsValue),
    readEntries meets entries = entries.all fun e => readEntries meets [e]
  | [] => rfl
  | e :: rest => by rw [readEntries_cons, readEntries_eq_all rest, List.all_cons]

theorem readEvery_eq_all {meets} : ∀ {children}, readEvery meets children = children.all fun child => reading meets child
  | [] => rfl
  | child :: rest => by rw [readEvery, readEvery_eq_all, List.all_cons]

theorem readSome_eq_any {meets} : ∀ {children}, readSome meets children = children.any fun child => reading meets child
  | [] => rfl
  | child :: rest => by rw [readSome, readSome_eq_any, List.any_cons]

mutual
theorem ValidFilter.compiles {filter} (h : ValidFilter filter) (params) :
    Compiles params (compileMetadataFilter filter params) ((leaves filter).all leafSendable)
      fun metadata => reading (sqlMeets metadata) filter := by
  match h with
  | .undefined => exact ⟨.always, [], by simp [compileMetadataFilter], rfl, fun _ _ _ _ _ => ⟨some true, rfl, by simp [reading]⟩⟩
  | .null => exact ⟨.always, [], by simp [compileMetadataFilter], rfl, fun _ _ _ _ _ => ⟨some true, rfl, by simp [reading]⟩⟩
  | .object hne h =>
    obtain ⟨parts, added, hpas, hp, hc⟩ := (ValidEntries.compiles h params).and (by simpa using hne)
    rw [compileMetadataFilter, hp]
    simp only [bind, Except.bind, List.isEmpty_iff, hpas, if_false]
    exact hc.imp (by rw [leaves]) (by funext metadata; rw [reading, readEntries_eq_all, List.all_map]; rfl)

theorem ValidEntries.compiles {entries} (h : ValidEntries entries) (params) :
    CompilesAll params (compileEntries entries params) ((entryLeaves entries).all leafSendable)
      (entries.map fun e metadata => readEntries (sqlMeets metadata) [e]) := by
  match h with
  | .nil => exact CompilesAll.nil
  | .and hne h hre =>
    rw [compileEntries, if_pos (Or.inl rfl), if_neg (by simpa using hne), entryLeaves_and, List.all_append]
    apply CompilesAll.cons _ fun params => ValidEntries.compiles hre params
    obtain ⟨parts, added, _, hp, hc⟩ := (ValidChildren.compiles h params).and (by simpa using hne)
    rw [hp]
    exact hc.imp rfl (by funext metadata; simp [readEvery_eq_all, List.all_map, Function.comp_def])
  | .or hne h hre =>
    rw [compileEntries, if_pos (Or.inr rfl), if_neg (by simpa using hne), entryLeaves_or, List.all_append]
    apply CompilesAll.cons _ fun params => ValidEntries.compiles hre params
    obtain ⟨parts, added, _, hp, hc⟩ := (ValidChildren.compiles h params).or (by simpa using hne)
    rw [hp]
    exact hc.imp rfl (by funext metadata; simp [readSome_eq_any, List.any_map, Function.comp_def])
  | .condition hkey h hre =>
    rw [compileEntries, if_neg (not_or.mpr (not_junction hkey)), if_neg (by simp [hkey]), entryLeaves_condition hkey h, List.all_append]
    · apply CompilesAll.cons _ fun params => ValidEntries.compiles hre params
      exact h.compiles.imp rfl (by funext metadata; simp [readEntries_condition hkey h])
    · exact h.not_array

theorem ValidChildren.compiles {children} (h : ValidChildren children) (params) :
    CompilesAll params (compileChildren children params) ((childLeaves children).all leafSendable)
      (children.map fun child metadata => reading (sqlMeets metadata) child) := by
  match h with
  | .nil => exact CompilesAll.nil
  | .cons h hre =>
    rw [compileChildren, childLeaves, List.all_append]
    exact CompilesAll.cons (ValidFilter.compiles h params) fun params => ValidChildren.compiles hre params
end

end Supacloud.Vectors
