import Mathlib.Data.List.AList
import Mathlib.Data.List.Sort

/-!
# 鍵ごとの列の表

`Lists` は鍵に列を結んだ表で、空の列は持たない。
-/

namespace Supacloud.Library

open List

variable {κ α ε : Type} [DecidableEq κ]

def adjust (m : AList fun _ : κ => α) (k : κ) (f : α → α) : AList fun _ : κ => α :=
  match m.lookup k with
  | none => m
  | some v => m.insert k (f v)

theorem lookup_adjust {m : AList fun _ : κ => α} {k k' f} :
    (adjust m k f).lookup k' = if k' = k then (m.lookup k).map f else m.lookup k' := by
  unfold adjust
  by_cases hk : k' = k
  · subst hk
    cases hm : m.lookup k' with
    | none => simp [hm]
    | some v => simp
  · rw [if_neg hk]
    cases m.lookup k with
    | none => rfl
    | some v => exact AList.lookup_insert_ne hk

abbrev Lists (κ α : Type) := AList fun _ : κ => List α

namespace Lists

variable {m : Lists κ α} {k k' : κ} {x : α} {xs : List α} {keep : α → Bool}

def listAt (m : Lists κ α) (k : κ) : List α := (m.lookup k).getD []

def push (m : Lists κ α) (k : κ) (x : α) : Lists κ α := m.insert k (m.listAt k ++ [x])

def prune (keep : α → Bool) (m : Lists κ α) (k : κ) : Lists κ α :=
  match m.lookup k with
  | none => m
  | some xs => if xs.filter keep = [] then m.erase k else m.insert k (xs.filter keep)

def NoEmpty (m : Lists κ α) : Prop := ∀ k, m.lookup k ≠ some []

@[simp] theorem listAt_empty : (∅ : Lists κ α).listAt k = [] := rfl

theorem noEmpty_empty : NoEmpty (∅ : Lists κ α) := by
  intro k
  simp

@[simp] theorem listAt_insert : listAt (m.insert k xs) k' = if k' = k then xs else m.listAt k' := by
  unfold listAt
  split
  · rename_i hk
    rw [hk, AList.lookup_insert]
    rfl
  · rename_i hk
    rw [AList.lookup_insert_ne hk]

theorem listAt_push : (m.push k x).listAt k' = if k' = k then m.listAt k ++ [x] else m.listAt k' := by
  simp [push]

theorem listAt_prune : (m.prune keep k).listAt k' = if k' = k then (m.listAt k).filter keep else m.listAt k' := by
  unfold prune
  cases hm : m.lookup k with
  | none =>
    have hnil : m.listAt k = [] := by simp [listAt, hm]
    by_cases hk : k' = k
    · simp [hk, hnil]
    · simp [hk]
  | some xs =>
    have hxs : m.listAt k = xs := by simp [listAt, hm]
    simp only [hxs]
    split
    · rename_i hre
      unfold listAt
      by_cases hk : k' = k
      · subst hk
        simp [hre]
      · simp [hk]
    · simp

section

variable (h : NoEmpty m)

include h

theorem NoEmpty.insert (hxs : xs ≠ []) : NoEmpty (m.insert k xs) := by
  intro k'
  by_cases hk : k' = k
  · subst hk
    simpa using hxs
  · rw [AList.lookup_insert_ne hk]
    exact h k'

theorem NoEmpty.push : NoEmpty (m.push k x) := h.insert (by simp)

theorem NoEmpty.erase : NoEmpty (m.erase k) := by
  intro k'
  by_cases hk : k' = k
  · subst hk
    simp
  · rw [AList.lookup_erase_ne hk]
    exact h k'

theorem NoEmpty.prune : NoEmpty (m.prune keep k) := by
  unfold Lists.prune
  split
  · exact h
  · split
    · exact h.erase
    · rename_i hre
      exact h.insert hre

theorem NoEmpty.lookup : m.lookup k = if m.listAt k = [] then none else some (m.listAt k) := by
  have hk := h k
  unfold listAt
  cases hm : m.lookup k with
  | none => simp
  | some xs =>
    rw [hm] at hk
    have hxs : xs ≠ [] := fun hnil => hk (by rw [hnil])
    simp [hxs]

theorem NoEmpty.eq_empty (hnil : ∀ k, m.listAt k = []) : m = ∅ := by
  apply AList.ext
  rw [AList.empty_entries, eq_nil_iff_forall_not_mem]
  intro e he
  have hlo := AList.mem_lookup_iff.mpr he
  rw [Option.mem_def, h.lookup, if_pos (hnil e.1)] at hlo
  cases hlo

end

/-! ## 続けて除く -/

variable {key : ε → κ} {kept : ε → α → Bool} {es : List ε}

theorem listAt_foldl_prune :
    (es.foldl (fun m e => m.prune (kept e) (key e)) m).listAt k = (m.listAt k).filter fun x => es.all fun e => key e ≠ k || kept e x := by
  induction es generalizing m with
  | nil => simp
  | cons e es ih =>
    rw [foldl_cons, ih, listAt_prune]
    by_cases hk : k = key e
    · simp [hk, Bool.and_comm]
    · have hne : key e ≠ k := fun h => hk h.symm
      simp [hk, hne]

theorem NoEmpty.foldl_prune (h : NoEmpty m) : NoEmpty (es.foldl (fun m e => m.prune (kept e) (key e)) m) := by
  induction es generalizing m with
  | nil => exact h
  | cons e es ih => exact ih h.prune

def pairs (m : Lists κ α) : List (κ × α) := m.entries.flatMap fun e => e.2.map (e.1, ·)

theorem pairs_insert : pairs (m.insert k xs) = xs.map (k, ·) ++ pairs (m.erase k) := rfl

theorem pairs_perm : m.pairs.Perm ((m.listAt k).map (k, ·) ++ pairs (m.erase k)) := by
  cases hm : m.lookup k with
  | none =>
    have hke : m.erase k = m := AList.ext (kerase_of_notMem_keys (AList.lookup_eq_none.mp hm))
    simp [listAt, hm, hke]
  | some xs =>
    have hpe : m.entries.Perm (m.insert k xs).entries := by
      refine lookup_ext m.nodupKeys (m.insert k xs).nodupKeys fun k' ys => ?_
      change ys ∈ m.lookup k' ↔ ys ∈ (m.insert k xs).lookup k'
      by_cases hk : k' = k
      · subst hk
        rw [hm, AList.lookup_insert]
      · rw [AList.lookup_insert_ne hk]
    rw [listAt, hm, Option.getD_some, ← pairs_insert]
    exact hpe.flatMap_right _

theorem pairs_push : (m.push k x).pairs.Perm ((k, x) :: m.pairs) := by
  rw [push, pairs_insert, map_append]
  refine (perm_append_comm.append_right _).trans ?_
  simpa using pairs_perm.symm

end Lists

/-!
## 同じ順位のある安定な整列

同じ順位の二つがどちらの列でも `s` の順に並んでいれば、並べ替えの関係にある列は、整列すると等しい。
-/

variable {r s : α → α → Prop} [DecidableRel r] {l l' : List α} {a b : α}

theorem pair_sublist_or (ha : a ∈ l) (hb : b ∈ l) (hne : a ≠ b) : [a, b].Sublist l ∨ [b, a].Sublist l := by
  induction l with
  | nil => cases ha
  | cons c l ih => grind

theorem not_pair_sublist (hnd : l.Nodup) (h : [a, b].Sublist l) : ¬ [b, a].Sublist l := by
  intro h'
  have hne : ∀ {x y}, [x, y].Sublist l → x ≠ y := by
    intro x y hxy heq
    have hpr := hxy.nodup hnd
    simp [heq] at hpr
  induction l with
  | nil => cases h
  | cons c l ih =>
    obtain ⟨hc, hl⟩ := nodup_cons.mp hnd
    cases h with
    | cons _ h =>
      cases h' with
      | cons _ h' => exact ih hl h h' fun hxy => hne (hxy.cons c)
      | cons_cons _ h' => exact hc (h.subset (by simp))
    | cons_cons _ h => grind

theorem pairwise_sort {p} [Std.Total r] [IsTrans α r] (hnd : l.Nodup) (h : (l.filter p).Pairwise fun a b => r a b → r b a → s a b) :
    ((l.insertionSort r).filter p).Pairwise fun a b => r a b ∧ (r b a → s a b) := by
  have hso : (l.insertionSort r).Nodup := (perm_insertionSort r l).nodup_iff.mpr hnd
  refine pairwise_iff_forall_sublist.mpr fun {a b} hab => ?_
  have hmem : ∀ x ∈ [a, b], x ∈ l ∧ p x = true := by
    intro x hx
    obtain ⟨hx, hp⟩ := mem_filter.mp (hab.subset hx)
    exact ⟨(mem_insertionSort r).mp hx, hp⟩
  obtain ⟨ha, hpa⟩ := hmem a (by simp)
  obtain ⟨hb, hpb⟩ := hmem b (by simp)
  have hsub : [a, b].Sublist (l.insertionSort r) := hab.trans filter_sublist
  have hle : r a b := pairwise_iff_forall_sublist.mp (pairwise_insertionSort r l) hsub
  refine ⟨hle, fun htie => ?_⟩
  have hne : a ≠ b := by
    intro heq
    have hpr := hsub.nodup hso
    simp [heq] at hpr
  -- 元の並びで逆なら、整列しても逆のまま残ってしまう
  rcases pair_sublist_or ha hb hne with hfi | hfi
  · grind [hfi.filter]
  · exact absurd (pair_sublist_insertionSort htie hfi) (not_pair_sublist hso hsub)

theorem filter_sort_eq {p} [Std.Total r] [IsTrans α r] (hpe : l.Perm l') (hnd : l.Nodup) (hasy : ∀ a b, s a b → ¬ s b a)
    (h : (l.filter p).Pairwise fun a b => r a b → r b a → s a b) (h' : (l'.filter p).Pairwise fun a b => r a b → r b a → s a b) :
    (l.insertionSort r).filter p = (l'.insertionSort r).filter p := by
  have hpe' : (l.insertionSort r).Perm (l'.insertionSort r) :=
    (perm_insertionSort r l).trans (hpe.trans (perm_insertionSort r l').symm)
  refine (hpe'.filter p).eq_of_pairwise ?_ (pairwise_sort hnd h) (pairwise_sort (hpe.nodup_iff.mp hnd) h')
  rintro a b - - ⟨hab, htie⟩ ⟨hba, hti'⟩
  exact absurd (hti' hab) (hasy a b (htie hba))

/-! ## 列の切り分け -/

def cut (k : ℕ) (l : List α) : List (List α) :=
  if _h : 0 < k ∧ k < l.length then l.take k :: cut k (l.drop k) else [l]
termination_by l.length
decreasing_by simp; omega

theorem flatten_cut (k : ℕ) (l : List α) : (cut k l).flatten = l := by
  induction l using cut.induct k with
  | case1 l h ih => rw [cut, dif_pos h, flatten_cons, ih, take_append_drop]
  | case2 l h => simp [cut, h]

theorem mem_cut {c l : List α} {k} (hk : 0 < k) (hc : c ∈ cut k l) : c.length ≤ k ∧ c.length ≤ l.length := by
  induction l using cut.induct k with
  | case1 l h ih =>
    rw [cut, dif_pos h, mem_cons] at hc
    rcases hc with rfl | hc
    · simp
    · have := ih hc
      simp at this
      omega
  | case2 l h =>
    rw [cut, dif_neg h, mem_singleton] at hc
    subst hc
    omega

/-- 列どうしが互いに素であるとき、そのときに限り、どの要素も、ちょうど一つの列に現れる。 -/
theorem countP_mem_eq_one_iff [BEq α] [LawfulBEq α] (ds : List (List α)) :
    (∀ g ∈ ds.flatten, ds.countP (g ∈ ·) = 1) ↔ ds.Pairwise Disjoint := by
  induction ds with
  | nil => simp
  | cons d ds ih =>
    have hpos : ∀ g ∈ ds.flatten, 0 < ds.countP (g ∈ ·) := fun g hg => by simpa [countP_pos_iff] using hg
    rw [pairwise_cons, ← ih]
    simp only [flatten_cons, mem_append, countP_cons, decide_eq_true_eq]
    constructor
    · intro h
      refine ⟨fun d' hd' g hg hg' => ?_, fun g hg => ?_⟩
      · have hone := h g (.inl hg)
        have := hpos g (mem_flatten.mpr ⟨d', hd', hg'⟩)
        rw [if_pos hg] at hone
        omega
      · have := h g (.inr hg)
        have := hpos g hg
        omega
    · rintro ⟨hd, h⟩ g (hg | hg)
      · have : ds.countP (g ∈ ·) = 0 := by simpa using fun d' hd' hg' => hd d' hd' hg hg'
        simp [this, hg]
      · obtain ⟨d', hd', hg'⟩ := mem_flatten.mp hg
        simp [h g hg, show g ∉ d from fun hgd => hd d' hd' hgd hg']

end Supacloud.Library
