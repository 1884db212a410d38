import Supacloud.Vectors.Filters

/-!
# 検査を通った絞り込みの形と、手元での評価
-/

namespace Supacloud.Vectors

open Contracts (JsString)
open Library List

/-! ## 検査を通った演算 -/

inductive ValidOperator : JsString → JsValue → Prop where
  | eq {expected} (h : isFilterPrimitive expected = true) : ValidOperator (js "$eq") expected
  | ne {expected} (h : isFilterPrimitive expected = true) : ValidOperator (js "$ne") expected
  | gt (q : ℚ) : ValidOperator (js "$gt") (.number (.finite q))
  | gte (q : ℚ) : ValidOperator (js "$gte") (.number (.finite q))
  | lt (q : ℚ) : ValidOperator (js "$lt") (.number (.finite q))
  | lte (q : ℚ) : ValidOperator (js "$lte") (.number (.finite q))
  | in_ {items} (hne : items ≠ []) (h : ∀ item ∈ items, isFilterPrimitive item = true) : ValidOperator (js "$in") (.array items)
  | nin {items} (hne : items ≠ []) (h : ∀ item ∈ items, isFilterPrimitive item = true) : ValidOperator (js "$nin") (.array items)
  | exists_ (b : Bool) : ValidOperator (js "$exists") (.boolean b)

variable {operator key : JsString} {expected condition left : JsValue}

theorem isFiniteNumber_eq (h : isFiniteNumber expected = true) : ∃ q, expected = .number (.finite q) := by
  cases expected with
  | number n =>
    cases n with
    | finite q => exact ⟨q, rfl⟩
    | infinity _ | nan => simp [isFiniteNumber, JsNumber.isFinite] at h
  | _ => simp [isFiniteNumber] at h

theorem isPrimitiveList_eq (h : isPrimitiveList expected = true) :
    ∃ items, expected = .array items ∧ items ≠ [] ∧ ∀ item ∈ items, isFilterPrimitive item = true := by
  cases expected with
  | array items => grind [isPrimitiveList]
  | _ => simp [isPrimitiveList] at h

theorem isBoolean_eq (h : isBoolean expected = true) : ∃ b, expected = .boolean b := by
  cases expected with
  | boolean b => exact ⟨b, rfl⟩
  | _ => simp [isBoolean] at h

theorem validateOperator_ok (h : validateOperator operator expected = .ok ()) : ValidOperator operator expected := by
  have hmem : operator ∈ filterOperators := by
    by_contra hm
    simp [validateOperator, hm] at h
  simp only [filterOperators, map_cons, map_nil, mem_cons, not_mem_nil, or_false] at hmem
  have checked {b} (hre : b = false → ∃ e, validateOperator operator expected = .error e) : b = true := by
    grind
  rcases hmem with rfl | rfl | rfl | rfl | rfl | rfl | rfl | rfl | rfl
  · exact .eq (checked fun hp => ⟨_, by rw [validateOperator, hp]; rfl⟩)
  · exact .ne (checked fun hp => ⟨_, by rw [validateOperator, hp]; rfl⟩)
  · obtain ⟨q, rfl⟩ := isFiniteNumber_eq (checked fun hp => ⟨_, by rw [validateOperator, hp]; rfl⟩)
    exact .gt q
  · obtain ⟨q, rfl⟩ := isFiniteNumber_eq (checked fun hp => ⟨_, by rw [validateOperator, hp]; rfl⟩)
    exact .gte q
  · obtain ⟨q, rfl⟩ := isFiniteNumber_eq (checked fun hp => ⟨_, by rw [validateOperator, hp]; rfl⟩)
    exact .lt q
  · obtain ⟨q, rfl⟩ := isFiniteNumber_eq (checked fun hp => ⟨_, by rw [validateOperator, hp]; rfl⟩)
    exact .lte q
  · obtain ⟨items, rfl, hne, hall⟩ := isPrimitiveList_eq (checked fun hp => ⟨_, by rw [validateOperator, hp]; rfl⟩)
    exact .in_ hne hall
  · obtain ⟨items, rfl, hne, hall⟩ := isPrimitiveList_eq (checked fun hp => ⟨_, by rw [validateOperator, hp]; rfl⟩)
    exact .nin hne hall
  · obtain ⟨b, rfl⟩ := isBoolean_eq (checked fun hp => ⟨_, by rw [validateOperator, hp]; rfl⟩)
    exact .exists_ b

theorem validateOperators_ok : ∀ {operators}, validateOperators operators = .ok () → ∀ e ∈ operators, ValidOperator e.1 e.2
  | [], _, _, he => by simp at he
  | (operator, expected) :: rest, h, e, he => by
    simp only [validateOperators, bind_eq_ok] at h
    obtain ⟨_, hfi, hrest⟩ := h
    rcases mem_cons.mp he with rfl | hmem
    · exact validateOperator_ok hfi
    · exact validateOperators_ok hrest e hmem

/-! ## 検査を通った絞り込み -/

inductive ValidCondition : JsValue → Prop where
  | primitive {condition : JsValue} (h : isFilterPrimitive condition = true) : ValidCondition condition
  | operators {operators} (hne : operators ≠ []) (h : ∀ e ∈ operators, ValidOperator e.1 e.2) :
      ValidCondition (.object operators)

mutual
inductive ValidFilter : JsValue → Prop where
  | undefined : ValidFilter .undefined
  | null : ValidFilter .null
  | object {entries} (hne : entries ≠ []) (h : ValidEntries entries) : ValidFilter (.object entries)

inductive ValidEntries : List (JsString × JsValue) → Prop where
  | nil : ValidEntries []
  | and {children : List JsValue} {rest} (hne : children ≠ []) (h : ValidChildren children) (hrest : ValidEntries rest) :
      ValidEntries ((js "$and", .array children) :: rest)
  | or {children rest} (hne : children ≠ []) (h : ValidChildren children) (hrest : ValidEntries rest) :
      ValidEntries ((js "$or", .array children) :: rest)
  | condition {key : JsString} {value rest} (hkey : startsWithDollar key = false)
      (h : ValidCondition value) (hrest : ValidEntries rest) : ValidEntries ((key, value) :: rest)

inductive ValidChildren : List JsValue → Prop where
  | nil : ValidChildren []
  | cons {child rest} (h : ValidFilter child) (hrest : ValidChildren rest) : ValidChildren (child :: rest)
end

theorem not_junction (h : startsWithDollar key = false) : key ≠ js "$and" ∧ key ≠ js "$or" := by
  constructor
  · rintro rfl
    exact absurd h (by decide)
  · rintro rfl
    exact absurd h (by decide)

theorem validateCondition_ok (h : validateCondition condition = .ok ()) : ValidCondition condition := by
  have primitive (h' : (if isFilterPrimitive condition then .ok ()
      else .error (js "metadata filter values must be strings, numbers, or booleans") : Except JsString Unit) = .ok ()) :
      ValidCondition condition := by
    apply ValidCondition.primitive
    by_contra hp
    simp [hp] at h'
  cases condition with
  | object operators =>
    simp only [validateCondition] at h
    by_cases hne : operators = []
    · simp [hne] at h
    · rw [if_neg (by simpa using hne)] at h
      exact .operators hne (validateOperators_ok h)
  | _ => exact primitive h

theorem validateEntries_cons {rest} (h : validateEntries ((key, condition) :: rest) = .ok ()) :
    ((∃ children, condition = .array children ∧ (key = js "$and" ∨ key = js "$or") ∧ children ≠ [] ∧ validateChildren children = .ok ()) ∨
      (startsWithDollar key = false ∧ ValidCondition condition)) ∧ validateEntries rest = .ok () := by
  have plain (h' : (if startsWithDollar key = true then .error (unsupportedOperator key) else validateCondition condition :
      Except JsString Unit) = .ok ()) : startsWithDollar key = false ∧ ValidCondition condition := by
    by_cases hd : startsWithDollar key = true
    · simp [hd] at h'
    · rw [if_neg hd] at h'
      exact ⟨by simpa using hd, validateCondition_ok h'⟩
  cases condition with
  | array children =>
    rw [validateEntries, bind_eq_ok] at h
    obtain ⟨_, hfi, hrest⟩ := h
    refine ⟨?_, hrest⟩
    by_cases hj : key = js "$and" ∨ key = js "$or"
    · grind
    · rw [if_neg hj] at hfi
      exact Or.inr (plain hfi)
  | _ =>
    rw [validateEntries, bind_eq_ok] at h
    · grind
    · nofun

mutual
theorem validateFilter_ok {b} : ∀ {filter}, validateFilter b filter = .ok () → ValidFilter filter
  | .undefined, _ => .undefined
  | .null, _ => .null
  | .object entries, h => by
    simp only [validateFilter] at h
    by_cases hne : entries = []
    · simp [hne] at h
    · rw [if_neg (by simpa using hne)] at h
      exact .object hne (validateEntries_ok h)
  | .boolean _, h | .number _, h | .string _, h | .array _, h => by simp [validateFilter] at h

theorem validateEntries_ok : ∀ {entries}, validateEntries entries = .ok () → ValidEntries entries
  | [], _ => .nil
  | (key, .array children) :: rest, h => by
    obtain ⟨hfi, hrest⟩ := validateEntries_cons h
    rcases hfi with ⟨_, hc, hj, hne, hch⟩ | ⟨hd, hv⟩
    · cases hc
      rcases hj with rfl | rfl
      · exact .and hne (validateChildren_ok hch) (validateEntries_ok hrest)
      · exact .or hne (validateChildren_ok hch) (validateEntries_ok hrest)
    · exact .condition hd hv (validateEntries_ok hrest)
  | (_, .undefined) :: rest, h | (_, .null) :: rest, h | (_, .boolean _) :: rest, h | (_, .number _) :: rest, h
  | (_, .string _) :: rest, h | (_, .object _) :: rest, h => by
    obtain ⟨hfi, hrest⟩ := validateEntries_cons h
    rcases hfi with ⟨_, hc, _⟩ | ⟨hd, hv⟩
    · cases hc
    · exact .condition hd hv (validateEntries_ok hrest)

theorem validateChildren_ok : ∀ {children}, validateChildren children = .ok () → ValidChildren children
  | [], _ => .nil
  | child :: rest, h => by
    simp only [validateChildren, bind_eq_ok] at h
    obtain ⟨_, hfi, hrest⟩ := h
    exact .cons (validateFilter_ok hfi) (validateChildren_ok hrest)
end

/-! ## 手元での評価 -/

theorem ValidOperator.compare_ok (h : ValidOperator operator expected) :
    comparePrimitive left operator expected = .ok (compares left operator expected) := by
  cases h <;> rfl

theorem everyOperator_ok : ∀ {operators}, (∀ e ∈ operators, ValidOperator e.1 e.2) →
    everyOperator left operators = .ok (operators.all fun e => compares left e.1 e.2)
  | [], _ => rfl
  | (operator, expected) :: rest, h => by
    have hfi : comparePrimitive left operator expected = _ := (h (operator, expected) (by simp)).compare_ok
    have hrest := everyOperator_ok fun e he => h e (mem_cons_of_mem _ he)
    simp only [everyOperator, hfi, hrest, all_cons, bind, Except.bind]
    cases compares left operator expected <;> rfl

theorem ValidCondition.matches_ok {meets} (h : ValidCondition condition)
    (hmes : meets key = compares left) : matchesCondition left condition = .ok (readCondition meets key condition) := by
  cases h with
  | primitive h =>
    have heq : comparePrimitive left _ condition = _ := (ValidOperator.eq h).compare_ok
    cases condition with
    | object _ => simp [isFilterPrimitive] at h
    | _ => simpa [matchesCondition, readCondition, hmes] using heq
  | operators hne h => simp only [matchesCondition, readCondition, hmes, everyOperator_ok h]

theorem ValidCondition.not_array (h : ValidCondition condition) (items) : condition ≠ .array items := by
  rintro rfl
  cases h with
  | primitive h => simp [isFilterPrimitive] at h

section Reading

variable {value : JsValue} {children : List JsValue} {rest : List (JsString × JsValue)}

attribute [local simp] readEntries entryLeaves

@[simp] theorem readEntries_and {meets} :
    readEntries meets ((js "$and", .array children) :: rest) = (readEvery meets children && readEntries meets rest) := by
  simp

@[simp] theorem readEntries_or {meets} :
    readEntries meets ((js "$or", .array children) :: rest) = (readSome meets children && readEntries meets rest) := by
  have hne : js "$or" ≠ js "$and" := by decide
  simp [hne]

theorem readEntries_condition {meets} (hkey : startsWithDollar key = false) (h : ValidCondition value) :
    readEntries meets ((key, value) :: rest) = (readCondition meets key value && readEntries meets rest) := by
  rw [readEntries, if_neg (not_junction hkey).1, if_neg (not_junction hkey).2]
  exact h.not_array

@[simp] theorem entryLeaves_and : entryLeaves ((js "$and", .array children) :: rest) = childLeaves children ++ entryLeaves rest := by
  simp

@[simp] theorem entryLeaves_or : entryLeaves ((js "$or", .array children) :: rest) = childLeaves children ++ entryLeaves rest := by
  simp

theorem entryLeaves_condition (hkey : startsWithDollar key = false) (h : ValidCondition value) :
    entryLeaves ((key, value) :: rest) = conditionLeaves key value ++ entryLeaves rest := by
  rw [entryLeaves, if_neg (not_or.mpr (not_junction hkey))]
  exact h.not_array

end Reading

section Local

mutual
theorem ValidFilter.matches_ok {meets filter} (hmes : ∀ key, meets key = compares (metadata.get key)) (h : ValidFilter filter) :
    matchesFilter metadata filter = .ok (reading meets filter) := by
  match h with
  | .undefined => rw [matchesFilter, reading]
  | .null => rw [matchesFilter, reading]
  | .object _ h => rw [matchesFilter, reading, ValidEntries.matches_ok hmes h]

theorem ValidEntries.matches_ok {meets entries} (hmes : ∀ key, meets key = compares (metadata.get key)) (h : ValidEntries entries) :
    matchesEntries metadata entries = .ok (readEntries meets entries) := by
  match h with
  | .nil => rfl
  | .and _ h hrest =>
    rw [matchesEntries, if_pos rfl, readEntries_and, ValidChildren.every_ok hmes h, ValidEntries.matches_ok hmes hrest]
    cases readEvery meets _ <;> rfl
  | .or _ h hrest =>
    rw [matchesEntries, if_neg (by decide), if_pos rfl, readEntries_or, ValidChildren.some_ok hmes h, ValidEntries.matches_ok hmes hrest]
    cases readSome meets _ <;> rfl
  | .condition hkey h hrest =>
    rw [matchesEntries, if_neg (not_junction hkey).1, if_neg (not_junction hkey).2, if_neg (by simp [hkey]),
      readEntries_condition hkey h, h.matches_ok (hmes _), ValidEntries.matches_ok hmes hrest]
    · cases readCondition meets _ _ <;> rfl
    · exact h.not_array

theorem ValidChildren.every_ok {meets children} (hmes : ∀ key, meets key = compares (metadata.get key)) (h : ValidChildren children) :
    everyChild metadata children = .ok (readEvery meets children) := by
  match h with
  | .nil => rfl
  | .cons h hrest =>
    rw [everyChild, readEvery, ValidFilter.matches_ok hmes h, ValidChildren.every_ok hmes hrest]
    cases reading meets _ <;> rfl

theorem ValidChildren.some_ok {meets children} (hmes : ∀ key, meets key = compares (metadata.get key)) (h : ValidChildren children) :
    someChild metadata children = .ok (readSome meets children) := by
  match h with
  | .nil => rfl
  | .cons h hrest =>
    rw [someChild, readSome, ValidFilter.matches_ok hmes h, ValidChildren.some_ok hmes hrest]
    cases reading meets _ <;> rfl
end

end Local

section Congruence

variable {meets meets' : JsString → JsString → JsValue → Bool}
  (hmes : ∀ key operator e, ValidOperator operator e → meets key operator e = meets' key operator e)
include hmes

theorem ValidCondition.read_congr (h : ValidCondition condition) : readCondition meets key condition = readCondition meets' key condition := by
  cases h with
  | primitive h =>
    have heq := hmes key _ _ (ValidOperator.eq h)
    cases condition with
    | object _ => simp [isFilterPrimitive] at h
    | _ => exact heq
  | @operators operators hne h =>
    rw [readCondition, readCondition, Bool.eq_iff_iff, all_eq_true, all_eq_true]
    constructor
    · intro hall e he
      rw [← hmes key e.1 e.2 (h e he)]
      exact hall e he
    · intro hall e he
      rw [hmes key e.1 e.2 (h e he)]
      exact hall e he

end Congruence

mutual
theorem ValidFilter.read_congr {meets meets' filter}
    (hmes : ∀ key operator e, ValidOperator operator e → meets key operator e = meets' key operator e) (h : ValidFilter filter) :
    reading meets filter = reading meets' filter := by
  match h with
  | .undefined => rw [reading, reading]
  | .null => rw [reading, reading]
  | .object _ h => rw [reading, reading, ValidEntries.read_congr hmes h]

theorem ValidEntries.read_congr {meets meets' entries}
    (hmes : ∀ key operator e, ValidOperator operator e → meets key operator e = meets' key operator e) (h : ValidEntries entries) :
    readEntries meets entries = readEntries meets' entries := by
  match h with
  | .nil => rfl
  | .and _ h hrest => rw [readEntries_and, readEntries_and, (ValidChildren.read_congr hmes h).1, ValidEntries.read_congr hmes hrest]
  | .or _ h hrest => rw [readEntries_or, readEntries_or, (ValidChildren.read_congr hmes h).2, ValidEntries.read_congr hmes hrest]
  | .condition hkey h hrest =>
    rw [readEntries_condition hkey h, readEntries_condition hkey h, h.read_congr hmes, ValidEntries.read_congr hmes hrest]

theorem ValidChildren.read_congr {meets meets' children}
    (hmes : ∀ key operator e, ValidOperator operator e → meets key operator e = meets' key operator e) (h : ValidChildren children) :
    readEvery meets children = readEvery meets' children ∧ readSome meets children = readSome meets' children := by
  match h with
  | .nil => exact ⟨rfl, rfl⟩
  | .cons h hrest =>
    have hc := ValidFilter.read_congr hmes h
    have hr := ValidChildren.read_congr hmes hrest
    exact ⟨by rw [readEvery, readEvery, hc, hr.1], by rw [readSome, readSome, hc, hr.2]⟩
end

end Supacloud.Vectors
