import Mathlib.Data.List.Basic
import Mathlib.Data.List.Nodup

/-!
# 表

行の表では、`update` が条件に合う行だけを書き換える。番号で引く表は列で表し、書き換えは `List.set` である。挿入の順の
Map は、鍵の重ならない組の列である。
-/

namespace Supacloud.Library

open List

/-- `Object.prototype` の項目。オブジェクトの表を引くと、これらも見つかる。 -/
def inheritedNames : List String :=
  ["constructor", "hasOwnProperty", "isPrototypeOf", "propertyIsEnumerable", "toLocaleString", "toString", "valueOf", "__defineGetter__",
    "__defineSetter__", "__lookupGetter__", "__lookupSetter__", "__proto__"]

/-! ## 行の表 -/

section Rows

variable {α β : Type} {p : α → Bool} {f : α → α} {rows : List α} {a b : α} {key : α → β} {q : α → Bool}

def update (p : α → Bool) (f : α → α) (rows : List α) : List α :=
  rows.map fun a => if p a then f a else a

theorem mem_update : b ∈ update p f rows ↔ ∃ a ∈ rows, (if p a then f a else a) = b := by
  simp [update]

theorem map_update {g : α → β} (h : ∀ a, p a = true → g (f a) = g a) : (update p f rows).map g = rows.map g := by
  rw [update, map_map]
  apply map_congr_left
  intro a _
  by_cases hp : p a = true
  · simp [hp, h a hp]
  · simp [hp]

/-- 取り出しの条件を変えない書き換えの後は、取り出した行が書き換わる。 -/
theorem find?_update (h : ∀ a, p a = true → q (f a) = q a) :
    (update p f rows).find? q = (rows.find? q).map fun a => if p a then f a else a := by
  rw [update, find?_map]
  congr 1
  apply congrArg (fun r => find? r rows)
  funext a
  by_cases hp : p a = true
  · simp [hp, h a hp]
  · simp [hp]

section

variable (h : ∀ a ∈ rows, p a = true → q (f a) = true → q a = true)

include h

theorem countP_update_le : (update p f rows).countP q ≤ rows.countP q := by
  rw [update, countP_map]
  apply countP_mono_left
  intro a ha hq
  by_cases hp : p a = true
  · exact h a ha hp (by simpa [hp] using hq)
  · simpa [hp] using hq

theorem countP_update_lt (hb : b ∈ rows) (hp : p b = true) (hq : q b = true) (hlo : q (f b) = false) :
    (update p f rows).countP q < rows.countP q := by
  obtain ⟨l₁, l₂, rfl⟩ := append_of_mem hb
  have h₁ : (update p f l₁).countP q ≤ l₁.countP q :=
    countP_update_le fun a ha => h a (mem_append_left _ ha)
  have h₂ : (update p f l₂).countP q ≤ l₂.countP q :=
    countP_update_le fun a ha => h a (mem_append_right _ (mem_cons_of_mem _ ha))
  have hsp : update p f (l₁ ++ b :: l₂) = update p f l₁ ++ f b :: update p f l₂ := by
    simp [update, hp]
  rw [hsp, countP_append, countP_append, countP_cons_of_neg (by simp [hlo]), countP_cons_of_pos hq]
  omega

end

theorem filter_update (h : ∀ a, q (f a) = q a) : (update p f rows).filter q = update p f (rows.filter q) := by
  induction rows with
  | nil => rfl
  | cons a rows ih => grind [update]

theorem update_eq_self (h : ∀ a ∈ rows, p a = false) : update p f rows = rows := by
  refine (map_congr_left fun a ha => ?_).trans (map_id rows)
  simp [h a ha]

theorem filter_update_other [DecidableEq β] {k} (hf : ∀ a, key (f a) = key a) (hp : ∀ a ∈ rows, p a = true → key a ≠ k) :
    (update p f rows).filter (fun a => key a = k) = rows.filter fun a => key a = k := by
  rw [filter_update fun a => by rw [hf a]]
  refine update_eq_self fun a ha => ?_
  obtain ⟨hmem, ha⟩ := mem_filter.mp ha
  simpa using fun hpa => hp a hmem hpa (of_decide_eq_true ha)

theorem update_append {l l'} : update p f (l ++ l') = update p f l ++ update p f l' := map_append

theorem eq_of_key (h : (rows.map key).Nodup) (ha : a ∈ rows) (hb : b ∈ rows) (hk : key a = key b) : a = b :=
  inj_on_of_nodup_map h ha hb hk

theorem find?_key [DecidableEq β] (h : (rows.map key).Nodup) (ha : a ∈ rows) : (rows.find? fun b => key b = key a) = some a := by
  cases hfi : rows.find? fun b => key b = key a with
  | none =>
    rw [find?_eq_none] at hfi
    exact absurd (decide_eq_true rfl) (hfi a ha)
  | some b =>
    have hkey : key b = key a := by simpa using find?_some hfi
    rw [eq_of_key h (mem_of_find?_eq_some hfi) ha hkey]

theorem eq_of_filterMap_nodup {g} (h : (rows.filterMap g).Nodup) {x : β} (ha : a ∈ rows) (hb : b ∈ rows)
    (hga : g a = some x) (hgb : g b = some x) : a = b := by
  induction rows with
  | nil => cases ha
  | cons c rows ih =>
    have hsp : (c :: rows).filterMap g = (g c).toList ++ rows.filterMap g := by
      cases hc : g c <;> simp [hc]
    have hre : (rows.filterMap g).Nodup := (nodup_append.mp (hsp ▸ h)).2.1
    have hap : ∀ d ∈ rows, g c = some x → g d = some x → False := by grind
    rcases mem_cons.mp ha with rfl | ha'
    · rcases mem_cons.mp hb with rfl | hb'
      · rfl
      · exact (hap b hb' hga hgb).elim
    · rcases mem_cons.mp hb with rfl | hb'
      · exact (hap a ha' hgb hga).elim
      · exact ih hre ha' hb'

theorem mem_update_key [DecidableEq β] (h : (rows.map key).Nodup) (ha : a ∈ rows) :
    b ∈ update (fun r => key r = key a) f rows ↔ b = f a ∨ (b ∈ rows ∧ key b ≠ key a) := by
  rw [mem_update]
  constructor
  · rintro ⟨r, hr, rfl⟩
    by_cases hk : key r = key a
    · exact .inl (by simp [eq_of_key h hr ha hk])
    · exact .inr (by simpa [hk] using hr)
  · rintro (rfl | ⟨hb, hk⟩)
    · exact ⟨a, ha, by simp⟩
    · exact ⟨b, hb, by simp [hk]⟩

theorem countP_update_key [DecidableEq β] (h : (rows.map key).Nodup) (ha : a ∈ rows) (q) :
    (update (fun r => key r = key a) f rows).countP q + (if q a then 1 else 0) = rows.countP q + (if q (f a) then 1 else 0) := by
  obtain ⟨l₁, l₂, rfl⟩ := append_of_mem ha
  have hot : ∀ l, (∀ b ∈ l, key b ≠ key a) → update (fun r => key r = key a) f l = l := by
    intro l hl
    refine (map_congr_left fun b hb => ?_).trans (map_id l)
    simp [hl b hb]
  rw [map_append, map_cons] at h
  obtain ⟨-, h₂, hdi⟩ := nodup_append.mp h
  have h₁ : ∀ b ∈ l₁, key b ≠ key a := fun b hb => hdi _ (mem_map_of_mem hb) _ mem_cons_self
  have h₂' : ∀ b ∈ l₂, key b ≠ key a := fun b hb heq =>
    (nodup_cons.mp h₂).1 (heq ▸ mem_map_of_mem hb)
  have hsp : update (fun r => key r = key a) f (l₁ ++ a :: l₂) = l₁ ++ f a :: l₂ := by
    have hco : update (fun r => key r = key a) f (l₁ ++ a :: l₂) =
        update (fun r => key r = key a) f l₁ ++ f a :: update (fun r => key r = key a) f l₂ := by simp [update]
    rw [hco, hot l₁ h₁, hot l₂ h₂']
  rw [hsp, countP_append, countP_append, countP_cons, countP_cons]
  omega

end Rows

variable {α β κ : Type}

/-! ## 番号の表 -/

section Table

variable {rows : List α} {i j : ℕ} {a b : α} {p q r : α → Bool}

theorem getElem?_set_of (h : rows[i]? = some a) : (rows.set i b)[j]? = if i = j then some b else rows[j]? := by
  rw [List.getElem?_set]
  by_cases hij : i = j
  · subst hij
    simp [(List.getElem?_eq_some_iff.mp h).1]
  · simp [hij]

theorem countP_set_add (h : rows[i]? = some a) :
    (rows.set i b).countP p + (if p a then 1 else 0) = rows.countP p + (if p b then 1 else 0) := by
  induction rows generalizing i with
  | nil => simp at h
  | cons c rows ih => grind

/-- 重ならない二つの条件に合う行の数は、両方を含む条件に合う行の数を超えない。 -/
theorem countP_add_le (hq : ∀ a, q a = true → p a = true) (hr : ∀ a, r a = true → p a = true ∧ q a = false) :
    rows.countP q + rows.countP r ≤ rows.countP p := by
  induction rows with
  | nil => simp
  | cons a rows ih => grind

theorem map_set_of {f : α → β} (h : rows[i]? = some a) (hf : f b = f a) : (rows.set i b).map f = rows.map f := by
  rw [map_set, hf]
  refine ext_getElem? fun j => ?_
  have hrow : (rows.map f)[i]? = some (f a) := by rw [getElem?_map, h]; rfl
  rw [getElem?_set_of hrow]
  split
  · rename_i heq
    rw [← heq, hrow]
  · rfl

theorem forall_mem_set {P : α → Prop} (hall : ∀ a ∈ rows, P a) (hb : P b) : ∀ a ∈ rows.set i b, P a := by
  intro a ha
  rcases mem_or_eq_of_mem_set ha with hmem | rfl
  · exact hall a hmem
  · exact hb

end Table

/-! ## 挿入の順の Map -/

section Map

variable {m : List (κ × β)} {k k' : κ} {v v' : β}

theorem eq_of_mem_keys (hn : (m.map Prod.fst).Nodup) (h : (k, v) ∈ m) (h' : (k, v') ∈ m) : v = v' :=
  congrArg Prod.snd (inj_on_of_nodup_map hn h h' rfl)

theorem length_filter_key [DecidableEq κ] (hn : (m.map Prod.fst).Nodup) (h : (k, v) ∈ m) : (m.filter fun e => e.1 ≠ k).length + 1 = m.length := by
  induction m with
  | nil => cases h
  | cons e m ih =>
    rw [map_cons, nodup_cons] at hn
    by_cases hk : e.1 = k
    · have hre : m.filter (fun e => e.1 ≠ k) = m := by
        rw [filter_eq_self]
        intro e' he'
        have : e'.1 ≠ k := fun heq => hn.1 (hk ▸ heq ▸ mem_map_of_mem he')
        simpa using this
      rw [filter_cons_of_neg (by simp [hk]), hre, length_cons]
    · grind

theorem nodup_filter_key [DecidableEq κ] (hn : (m.map Prod.fst).Nodup) : ((m.filter fun e => e.1 ≠ k).map Prod.fst).Nodup :=
  hn.sublist (filter_sublist.map Prod.fst)

variable [BEq κ] [LawfulBEq κ]

theorem mem_of_lookup (h : m.lookup k = some v) : (k, v) ∈ m := by
  induction m with
  | nil => simp at h
  | cons e m ih => grind

theorem lookup_isSome (h : (k, v) ∈ m) : ∃ v', m.lookup k = some v' := by
  induction m with
  | nil => cases h
  | cons e m ih =>
    obtain ⟨k₀, v₀⟩ := e
    rw [lookup_cons]
    cases hk : k == k₀ with
    | true => exact ⟨v₀, rfl⟩
    | false =>
      rcases mem_cons.mp h with heq | hm
      · cases heq
        simp at hk
      · exact ih hm

theorem lookup_eq_some_iff (hn : (m.map Prod.fst).Nodup) : m.lookup k = some v ↔ (k, v) ∈ m := by
  constructor
  · exact mem_of_lookup
  · intro h
    obtain ⟨v', hv'⟩ := lookup_isSome h
    rw [hv', eq_of_mem_keys hn h (mem_of_lookup hv')]

theorem lookup_eq_none_iff : m.lookup k = none ↔ ∀ v, (k, v) ∉ m := by
  constructor
  · intro h v hv
    obtain ⟨v', hv'⟩ := lookup_isSome hv
    rw [h] at hv'
    cases hv'
  · intro h
    cases hl : m.lookup k with
    | none => rfl
    | some v => exact absurd (mem_of_lookup hl) (h v)

theorem lookup_filter_key [DecidableEq κ] (hn : (m.map Prod.fst).Nodup) : (m.filter fun e => e.1 ≠ k).lookup k' = if k' = k then none else m.lookup k' := by
  by_cases hk : k' = k
  · rw [if_pos hk, lookup_eq_none_iff]
    intro v hv
    simp [hk] at hv
  · rw [if_neg hk]
    cases hl : m.lookup k' with
    | none =>
      rw [lookup_eq_none_iff] at hl ⊢
      exact fun v hv => hl v (mem_filter.mp hv).1
    | some v =>
      rw [lookup_eq_some_iff (nodup_filter_key hn), mem_filter]
      exact ⟨mem_of_lookup hl, by simpa using hk⟩

theorem nodup_concat_key (hn : (m.map Prod.fst).Nodup) (h : m.lookup k = none) : ((m ++ [(k, v)]).map Prod.fst).Nodup := by
  rw [map_append, nodup_append]
  refine ⟨hn, by simp, ?_⟩
  rintro k₁ hk₁ k₂ hk₂ rfl
  obtain ⟨⟨_, v₁⟩, he, rfl⟩ := mem_map.mp hk₁
  simp only [map_cons, map_nil, mem_singleton] at hk₂
  subst hk₂
  exact lookup_eq_none_iff.mp h v₁ he

theorem lookup_concat_key [DecidableEq κ] (hn : (m.map Prod.fst).Nodup) (h : m.lookup k = none) :
    (m ++ [(k, v)]).lookup k' = if k' = k then some v else m.lookup k' := by
  by_cases hk : k' = k
  · rw [if_pos hk, lookup_eq_some_iff (nodup_concat_key hn h)]
    simp [hk]
  · grind [lookup_eq_none_iff, lookup_eq_some_iff, nodup_concat_key, mem_of_lookup]

end Map

end Supacloud.Library
