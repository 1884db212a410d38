import Mathlib.Data.List.Perm.Basic
import Mathlib.Data.List.Nodup

/-!
# 鍵ごとの待ち行列

`MultiQueue` の三つの項目の食い違いは、構造体の証明により起こらない。
-/

namespace Supacloud.Library

/-! ## 連想リスト -/

namespace Assoc

variable {κ β : Type} [DecidableEq κ]

def get (k : κ) : List (κ × β) → Option β
  | [] => none
  | (k', v) :: rest => if k' = k then some v else get k rest

def put (k : κ) (v : β) (l : List (κ × β)) : List (κ × β) := l.map fun x => if x.1 = k then (k, v) else x

def erase (k : κ) (l : List (κ × β)) : List (κ × β) := l.filter fun x => x.1 ≠ k

def keys (l : List (κ × β)) : List κ := l.map Prod.fst

variable {k k' : κ} {v : β} {l : List (κ × β)}

attribute [local grind =] get put keys

theorem get_eq_none : get k l = none ↔ k ∉ keys l := by
  induction l with
  | nil => simp [get, keys]
  | cons x rest ih => grind

theorem mem_keys_of_get (h : get k l = some v) : k ∈ keys l := by
  by_contra hk
  rw [get_eq_none.mpr hk] at h
  cases h

theorem exists_get (hk : k ∈ keys l) : ∃ v, get k l = some v :=
  Option.ne_none_iff_exists'.mp fun hg => get_eq_none.mp hg hk

theorem get_mem (h : get k l = some v) : (k, v) ∈ l := by
  induction l with
  | nil => simp [get] at h
  | cons x rest ih => grind

theorem get_put : get k' (put k v l) = if k' = k ∧ k ∈ keys l then some v else get k' l := by
  induction l with
  | nil => simp [put, keys]
  | cons x rest ih => grind

theorem get_erase : get k' (erase k l) = if k' = k then none else get k' l := by
  induction l with
  | nil => simp [get, erase]
  | cons x rest ih =>
    obtain ⟨k₁, v₁⟩ := x
    unfold erase at ih ⊢
    by_cases h₁ : k₁ = k
    · grind
    · grind

theorem get_append (l') : get k (l ++ l') = (get k l).or (get k l') := by
  induction l with
  | nil => simp [get]
  | cons x rest ih =>
    obtain ⟨k₁, v₁⟩ := x
    simp only [List.cons_append, get]
    split
    · simp
    · exact ih

@[simp] theorem keys_put : keys (put k v l) = keys l := by
  unfold keys put
  rw [List.map_map]
  refine List.map_congr_left fun x _ => ?_
  by_cases h : x.1 = k <;> simp [h]

theorem keys_erase : keys (erase k l) = (keys l).filter (fun x => x ≠ k) := by
  induction l with
  | nil => rfl
  | cons x rest ih =>
    unfold keys erase at ih ⊢
    by_cases h : x.1 = k <;> simpa [h] using ih

theorem flatMap_perm {α l} {v : List α} (hn : (keys l).Nodup) (h : get k l = some v) :
    (l.flatMap Prod.snd).Perm (v ++ (erase k l).flatMap Prod.snd) := by
  induction l with
  | nil => simp [get] at h
  | cons x rest ih =>
    obtain ⟨k₁, v₁⟩ := x
    simp only [keys, List.map_cons, List.nodup_cons] at hn
    unfold get at h
    split at h
    · rename_i hk
      subst hk
      cases h
      -- 鍵は重ならないので、残りからは何も除かれない。
      have hre : erase k₁ rest = rest := by
        refine List.filter_eq_self.mpr fun x hx => ?_
        have : x.1 ≠ k₁ := fun he => hn.1 (he ▸ List.mem_map_of_mem hx)
        simpa using this
      have hco : erase k₁ ((k₁, v) :: rest) = rest := by
        unfold erase at hre ⊢
        rw [List.filter_cons_of_neg (by simp), hre]
      rw [hco, List.flatMap_cons]
    · rename_i hk
      have hco : erase k ((k₁, v₁) :: rest) = (k₁, v₁) :: erase k rest := by
        unfold erase
        rw [List.filter_cons_of_pos (by simpa using hk)]
      rw [hco, List.flatMap_cons, List.flatMap_cons]
      refine ((ih hn.2 h).append_left _).trans ?_
      rw [← List.append_assoc, ← List.append_assoc]
      exact List.perm_append_comm.append_right _

theorem erase_put : erase k (put k v l) = erase k l := by
  unfold erase put
  induction l with
  | nil => rfl
  | cons x rest ih =>
    by_cases h : x.1 = k <;> simpa [h] using ih

theorem flatMap_put_perm {α l} {v : List α} (hn : (keys l).Nodup) (hk : k ∈ keys l) :
    ((put k v l).flatMap Prod.snd).Perm (v ++ (erase k l).flatMap Prod.snd) := by
  have hget : get k (put k v l) = some v := by simp [get_put, hk]
  have h := flatMap_perm (by rw [keys_put]; exact hn) hget
  rwa [erase_put] at h

end Assoc

open Assoc List

/-- 鍵ごとの待ち行列。`queues` の列は空でなく、`order` はその鍵を並べたもの、`count` は要素の総数である。 -/
structure MultiQueue (κ α : Type) [DecidableEq κ] where
  queues : List (κ × List α)
  order : List κ
  count : Nat
  keys_nodup : (keys queues).Nodup
  nonempty : ∀ x ∈ queues, x.2 ≠ []
  order_perm : order.Perm (keys queues)
  count_eq : count = (queues.flatMap Prod.snd).length

namespace MultiQueue

variable {κ α : Type} [DecidableEq κ]

def empty : MultiQueue κ α where
  queues := []
  order := []
  count := 0
  keys_nodup := List.nodup_nil
  nonempty := by simp
  order_perm := .refl _
  count_eq := rfl

def «at» (q : MultiQueue κ α) (k : κ) : List α := (get k q.queues).getD []

def all (q : MultiQueue κ α) : List α := q.queues.flatMap Prod.snd

def has (q : MultiQueue κ α) (k : κ) : Bool := (get k q.queues).isSome

variable (q : MultiQueue κ α)

def push (k : κ) (a : α) : MultiQueue κ α :=
  match h : get k q.queues with
  | some l =>
    { queues := put k (l ++ [a]) q.queues
      order := q.order
      count := q.count + 1
      keys_nodup := by rw [keys_put]; exact q.keys_nodup
      nonempty := by
        intro x hx
        simp only [put, List.mem_map] at hx
        obtain ⟨y, hy, rfl⟩ := hx
        split
        · simp
        · exact q.nonempty y hy
      order_perm := by rw [keys_put]; exact q.order_perm
      count_eq := by
        rw [(flatMap_put_perm q.keys_nodup (mem_keys_of_get h)).length_eq, q.count_eq, (flatMap_perm q.keys_nodup h).length_eq]
        simp only [List.length_append, List.length_singleton]
        omega }
  | none =>
    { queues := q.queues ++ [(k, [a])]
      order := q.order ++ [k]
      count := q.count + 1
      keys_nodup := by
        have hk := get_eq_none.mp h
        unfold Assoc.keys at hk ⊢
        rw [List.map_append]
        refine List.Nodup.append q.keys_nodup (by simp) ?_
        simpa using hk
      nonempty := by
        intro x hx
        rcases List.mem_append.mp hx with hx | hx
        · exact q.nonempty x hx
        · simp only [List.mem_singleton] at hx
          simp [hx]
      order_perm := by
        unfold Assoc.keys
        rw [List.map_append]
        exact q.order_perm.append_right _
      count_eq := by simp [q.count_eq] }

/-- 列の中身を入れ替える。空になれば鍵ごと除く。`order` は鍵の並びの新しい順である。 -/
def replace (k : κ) (l : List α) (order : List κ) (hk : k ∈ keys q.queues)
    (horder : order.Perm (if l = [] then (keys q.queues).filter (fun x => x ≠ k) else keys q.queues)) :
    MultiQueue κ α :=
  if h : l = [] then
    { queues := erase k q.queues
      order
      count := q.count - (q.at k).length
      keys_nodup := by rw [keys_erase]; exact q.keys_nodup.filter _
      nonempty := fun x hx => q.nonempty x (List.mem_of_mem_filter hx)
      order_perm := by rw [keys_erase]; simpa [h] using horder
      count_eq := by
        obtain ⟨v, hv⟩ := exists_get hk
        rw [q.count_eq, (flatMap_perm q.keys_nodup hv).length_eq]
        simp [MultiQueue.at, hv] }
  else
    { queues := put k l q.queues
      order
      count := q.count - (q.at k).length + l.length
      keys_nodup := by rw [keys_put]; exact q.keys_nodup
      nonempty := by
        intro x hx
        simp only [put, List.mem_map] at hx
        obtain ⟨y, hy, rfl⟩ := hx
        split
        · exact h
        · exact q.nonempty y hy
      order_perm := by rw [keys_put]; simpa [h] using horder
      count_eq := by
        obtain ⟨v, hv⟩ := exists_get hk
        rw [q.count_eq, (flatMap_perm q.keys_nodup hv).length_eq, (flatMap_put_perm q.keys_nodup hk).length_eq]
        simp only [MultiQueue.at, hv, Option.getD_some, List.length_append]
        omega }

variable {q}

theorem mem_keys_iff {k} : k ∈ keys q.queues ↔ q.at k ≠ [] := by
  constructor
  · intro hk
    cases hg : get k q.queues with
    | none => exact absurd hk (get_eq_none.mp hg)
    | some l =>
      have := q.nonempty _ (get_mem hg)
      simpa [MultiQueue.at, hg] using this
  · intro h
    by_contra hk
    rw [MultiQueue.at, get_eq_none.mpr hk] at h
    exact h rfl

theorem mem_order {k} : k ∈ q.order ↔ q.at k ≠ [] := q.order_perm.mem_iff.trans mem_keys_iff

theorem has_iff {k} : q.has k = true ↔ q.at k ≠ [] := by
  rw [← mem_keys_iff, has, Option.isSome_iff_ne_none, ne_eq, get_eq_none, not_not]

theorem get_of_at {k} (h : q.at k ≠ []) : get k q.queues = some (q.at k) := by
  cases hg : get k q.queues with
  | none => simp [MultiQueue.at, hg] at h
  | some l => simp [MultiQueue.at, hg]

theorem all_perm (k) : q.all.Perm (q.at k ++ (erase k q.queues).flatMap Prod.snd) := by
  cases hg : get k q.queues with
  | none =>
    have hk := get_eq_none.mp hg
    have : erase k q.queues = q.queues := by
      refine filter_eq_self.mpr fun x hx => ?_
      have : x.1 ≠ k := fun he => hk (he ▸ mem_map_of_mem hx)
      simpa using this
    rw [this, MultiQueue.at, hg]
    exact .refl _
  | some l =>
    rw [MultiQueue.at, hg]
    exact flatMap_perm q.keys_nodup hg

theorem mem_all_of_at {k a} (h : a ∈ q.at k) : a ∈ q.all :=
  (all_perm k).mem_iff.mpr (mem_append_left _ h)

theorem mem_all {a} : a ∈ q.all ↔ ∃ k, a ∈ q.at k := by
  constructor
  · intro h
    simp only [all, mem_flatMap] at h
    obtain ⟨⟨k, l⟩, hm, ha⟩ := h
    have hk : k ∈ keys q.queues := mem_map_of_mem hm
    refine ⟨k, ?_⟩
    have hg := get_of_at (mem_keys_iff.mp hk)
    -- 鍵は重ならないので、k の列は l である。
    have hl : l = q.at k := by
      have h₂ := get_mem hg
      have := inj_on_of_nodup_map q.keys_nodup hm h₂ rfl
      exact congrArg Prod.snd this
    rw [← hl]
    exact ha
  · rintro ⟨k, h⟩
    exact mem_all_of_at h

theorem count_eq_zero : q.count = 0 ↔ ∀ k, q.at k = [] := by
  rw [q.count_eq, length_eq_zero_iff]
  constructor
  · intro h k
    refine eq_nil_iff_forall_not_mem.mpr fun a ha => ?_
    have := mem_all_of_at ha
    rw [all, h] at this
    cases this
  · intro h
    refine eq_nil_iff_forall_not_mem.mpr fun a ha => ?_
    obtain ⟨k, hk⟩ := mem_all.mp ha
    rw [h k] at hk
    cases hk

@[simp] theorem at_empty (k) : (empty : MultiQueue κ α).at k = [] := rfl

@[simp] theorem all_empty : (empty : MultiQueue κ α).all = [] := rfl

@[simp] theorem at_push {k k'} {a : α} : (q.push k a).at k' = if k' = k then q.at k ++ [a] else q.at k' := by
  unfold push
  split
  · rename_i l h
    have hk := mem_keys_of_get h
    by_cases he : k' = k
    · subst he
      simp [MultiQueue.at, get_put, hk, h]
    · simp [MultiQueue.at, get_put, he]
  · rename_i h
    by_cases he : k' = k
    · subst he
      simp [MultiQueue.at, get_append, h, Assoc.get]
    · simp [MultiQueue.at, get_append, Assoc.get, Ne.symm he, he]

theorem all_push {k} {a : α} : (q.push k a).all.Perm (a :: q.all) := by
  have h₁ := all_perm (q := q.push k a) k
  have h₂ := all_perm (q := q) k
  have he : erase k (q.push k a).queues = erase k q.queues := by
    unfold push
    split
    · exact erase_put
    · simp [erase]
  rw [he, at_push, if_pos rfl] at h₁
  refine h₁.trans (.trans ?_ (h₂.symm.cons a))
  rw [append_assoc]
  exact perm_middle

@[simp] theorem at_replace {k k'} {l : List α} {order : List κ} {hk : k ∈ keys q.queues}
    {ho : order.Perm (if l = [] then (keys q.queues).filter (fun x => x ≠ k) else keys q.queues)} :
    (q.replace k l order hk ho).at k' = if k' = k then l else q.at k' := by
  unfold replace
  split
  · rename_i hl
    by_cases he : k' = k
    · simp [MultiQueue.at, get_erase, he, hl]
    · simp [MultiQueue.at, get_erase, he]
  · by_cases he : k' = k
    · simp [MultiQueue.at, get_put, he, hk]
    · simp [MultiQueue.at, get_put, he]

theorem all_replace {k} {l : List α} {order : List κ} {hk : k ∈ keys q.queues}
    {ho : order.Perm (if l = [] then (keys q.queues).filter (fun x => x ≠ k) else keys q.queues)} :
    (q.replace k l order hk ho).all.Perm (l ++ (erase k q.queues).flatMap Prod.snd) := by
  have h := all_perm (q := q.replace k l order hk ho) k
  have he : erase k (q.replace k l order hk ho).queues = erase k q.queues := by
    unfold replace
    split
    · simp [erase]
    · exact erase_put
  rwa [he, at_replace, if_pos rfl] at h

theorem order_erase_perm {k} : (q.order.erase k).Perm ((keys q.queues).filter fun x => x ≠ k) := by
  have h := q.order_perm.erase k
  rw [q.keys_nodup.erase_eq_filter] at h
  simpa [bne, BEq.beq] using h

def popFor (q : MultiQueue κ α) (k : κ) : Option (α × MultiQueue κ α) :=
  match h : get k q.queues with
  | some (a :: rest) =>
    some (a, q.replace k rest (if rest = [] then q.order.erase k else q.order.erase k ++ [k])
      (mem_keys_of_get h)
      (by
        have hk : k ∈ q.order := mem_order.mpr (by simp [MultiQueue.at, h])
        by_cases hr : rest = []
        · simpa [hr] using order_erase_perm (q := q)
        · simp only [hr, ↓reduceIte]
          exact (List.perm_append_singleton k _).trans ((List.perm_cons_erase hk).symm.trans q.order_perm)))
  | _ => none

def popNext (q : MultiQueue κ α) (last : Option κ) : Option (α × MultiQueue κ α) := do
  let k ← (q.order.find? fun k => some k ≠ last).or q.order.head?
  q.popFor k

def removeAt (q : MultiQueue κ α) (k : κ) (i : Nat) : Option (α × MultiQueue κ α) :=
  match h : get k q.queues with
  | none => none
  | some l =>
    match l[i]? with
    | none => none
    | some a =>
      some (a, q.replace k (l.eraseIdx i)
        (if l.eraseIdx i = [] then q.order.filter (fun x => x ≠ k) else q.order)
        (mem_keys_of_get h)
        (by
          split
          · exact q.order_perm.filter _
          · exact q.order_perm))

def drop (q : MultiQueue κ α) (k : κ) : MultiQueue κ α :=
  if h : k ∈ keys q.queues then
    q.replace k [] (q.order.filter fun x => x ≠ k) h (by simpa using q.order_perm.filter _)
  else q

def find (q : MultiQueue κ α) (p : α → Bool) : Option (κ × Nat) :=
  q.queues.findSome? fun x => (x.2.findIdx? p).map fun i => (x.1, i)

theorem popFor_some {k a q'} (h : q.popFor k = some (a, q')) :
    q.at k = a :: q'.at k ∧ (∀ k', k' ≠ k → q'.at k' = q.at k') ∧ q.all.Perm (a :: q'.all) := by
  unfold popFor at h
  split at h
  · rename_i a' rest hg
    cases h
    have hat : q.at k = a :: rest := by simp [MultiQueue.at, hg]
    refine ⟨by simp [hat], fun k' hk' => by simp [hk'], ?_⟩
    refine (all_perm k).trans ?_
    rw [hat, cons_append]
    exact all_replace.symm.cons a
  · cases h

theorem popFor_sublist {k a q'} (h : q.popFor k = some (a, q')) (k') : (q'.at k').Sublist (q.at k') := by
  obtain ⟨hat, hot, -⟩ := popFor_some h
  by_cases hk : k' = k
  · subst hk
    rw [hat]
    exact sublist_cons_self _ _
  · rw [hot k' hk]

theorem popFor_eq_none {k} : q.popFor k = none ↔ q.at k = [] := by
  unfold popFor
  split
  · rename_i a rest hg
    simp [MultiQueue.at, hg]
  · rename_i hno
    simp only [true_iff]
    by_contra hne
    have hg := get_of_at hne
    obtain ⟨a, rest, he⟩ := exists_cons_of_ne_nil hne
    rw [he] at hg
    exact hno a rest hg

theorem removeAt_some {k i a q'} (h : q.removeAt k i = some (a, q')) :
    (q'.at k).Sublist (q.at k) ∧ (∀ k', k' ≠ k → q'.at k' = q.at k') ∧ q.all.Perm (a :: q'.all) := by
  unfold removeAt at h
  split at h
  · cases h
  · rename_i l hg
    split at h
    · cases h
    · rename_i b hb
      cases h
      have hat : q.at k = l := by simp [MultiQueue.at, hg]
      refine ⟨by simpa [hat] using eraseIdx_sublist l i, fun k' hk' => by simp [hk'], ?_⟩
      refine (all_perm k).trans ?_
      rw [hat]
      refine .trans ?_ (all_replace.symm.cons a)
      rw [← cons_append]
      refine List.Perm.append_right _ ?_
      obtain ⟨hi, hget⟩ := List.getElem?_eq_some_iff.mp hb
      rw [← hget]
      exact (getElem_cons_eraseIdx_perm hi).symm

@[simp] theorem at_drop {k k'} : (q.drop k).at k' = if k' = k then [] else q.at k' := by
  unfold drop
  split
  · simp
  · grind [mem_keys_iff]

theorem all_drop (k) : q.all.Perm (q.at k ++ (q.drop k).all) := by
  unfold drop
  split
  · rename_i h
    refine (all_perm k).trans (List.Perm.append_left _ ?_)
    exact (all_replace (q := q) (l := [])).symm
  · rename_i h
    have hk : q.at k = [] := by
      by_contra hne
      exact h (mem_keys_iff.mpr hne)
    rw [hk]
    exact .refl _

end MultiQueue

end Supacloud.Library
