import Mathlib.Data.List.Rotate
import Mathlib.Data.List.Perm.Basic

/-!
# 先に合う候補の割り当て

候補を前から順に調べ、はじめに使えたものを割り当てる。使わなかった候補には戻らない。
-/

namespace Supacloud.Library

open List

variable {α κ ε : Type} {probe : α → Except ε Bool} {exhausted : ε} {candidates rest : List α} {keys : List κ} {a : α}

def firstFit (probe : α → Except ε Bool) : List α → Except ε (Option (α × List α))
  | [] => .ok none
  | a :: rest =>
    match probe a with
    | .error e => .error e
    | .ok true => .ok (some (a, rest))
    | .ok false => firstFit probe rest

def assign (probe : α → Except ε Bool) (exhausted : ε) : List κ → List α → Except ε (List (κ × α))
  | [], _ => .ok []
  | key :: keys, candidates =>
    match firstFit probe candidates with
    | .error e => .error e
    | .ok none => .error exhausted
    | .ok (some (a, rest)) => (assign probe exhausted keys rest).map fun pairs => (key, a) :: pairs

def usable (probe : α → Except ε Bool) (a : α) : Bool :=
  match probe a with
  | .ok true => true
  | _ => false

def Answers (probe : α → Except ε Bool) (candidates : List α) : Prop := ∀ a ∈ candidates, ∃ b, probe a = .ok b

attribute [local grind =] firstFit assign usable

theorem Answers.cons_iff : Answers probe (a :: candidates) ↔ (∃ b, probe a = .ok b) ∧ Answers probe candidates := forall_mem_cons

/-! ## 一つの候補 -/

theorem firstFit_none (h : firstFit probe candidates = .ok none) : Answers probe candidates ∧ candidates.filter (usable probe) = [] := by
  induction candidates with
  | nil => exact ⟨nofun, rfl⟩
  | cons a rest ih =>
    rw [firstFit] at h
    cases ha : probe a with
    | error e =>
      rw [ha] at h
      cases h
    | ok b => grind [Answers.cons_iff]

theorem firstFit_some (h : firstFit probe candidates = .ok (some (a, rest))) :
    ∃ skipped, candidates = skipped ++ a :: rest ∧ probe a = .ok true ∧ Answers probe skipped ∧ skipped.filter (usable probe) = [] := by
  induction candidates with
  | nil => cases h
  | cons c candidates ih =>
    rw [firstFit] at h
    cases hc : probe c with
    | error e =>
      rw [hc] at h
      cases h
    | ok b =>
      rw [hc] at h
      cases b with
      | true =>
        cases h
        exact ⟨[], rfl, hc, nofun, rfl⟩
      | false => grind [Answers.cons_iff]

theorem firstFit_error {e} (h : firstFit probe candidates = .error e) : ∃ a ∈ candidates, probe a = .error e := by
  induction candidates with
  | nil => cases h
  | cons c candidates ih =>
    rw [firstFit] at h
    cases hc : probe c with
    | error e' =>
      rw [hc] at h
      cases h
      exact ⟨c, mem_cons_self, hc⟩
    | ok b => grind

/-! ## 割り当て -/

theorem assign_ok {pairs} (h : assign probe exhausted keys candidates = .ok pairs) :
    pairs.map Prod.fst = keys ∧ (pairs.map Prod.snd).Sublist candidates ∧ ∀ a ∈ pairs.map Prod.snd, probe a = .ok true := by
  induction keys generalizing candidates pairs with
  | nil =>
    cases h
    exact ⟨rfl, nil_sublist _, nofun⟩
  | cons key keys ih =>
    rw [assign] at h
    cases hfit : firstFit probe candidates with
    | error e =>
      rw [hfit] at h
      cases h
    | ok found =>
      rw [hfit] at h
      cases found with
      | none => cases h
      | some found =>
        obtain ⟨a, rest⟩ := found
        cases hre : assign probe exhausted keys rest with
        | error e =>
          simp only [hre] at h
          cases h
        | ok tail =>
          simp only [hre] at h
          cases h
          obtain ⟨hke, hsub, hall⟩ := ih hre
          obtain ⟨skipped, rfl, ha, -, -⟩ := firstFit_some hfit
          refine ⟨?_, ?_, ?_⟩
          · rw [map_cons, hke]
          · rw [map_cons]
            exact (hsub.cons_cons a).trans (sublist_append_right skipped _)
          · rw [map_cons]
            exact forall_mem_cons.mpr ⟨ha, hall⟩

/-- 候補が尽きるのは、どの候補も調べがつき、使える候補が鍵より少ないときである。 -/
theorem assign_exhausted_iff (hpr : ∀ a, probe a ≠ .error exhausted) : assign probe exhausted keys candidates = .error exhausted ↔
      Answers probe candidates ∧ (candidates.filter (usable probe)).length < keys.length := by
  induction keys generalizing candidates with
  | nil =>
    refine iff_of_false ?_ fun h => Nat.not_lt_zero _ h.2
    rw [assign]
    nofun
  | cons key keys ih =>
    rw [assign]
    cases hfit : firstFit probe candidates with
    | error e =>
      obtain ⟨a, ha, he⟩ := firstFit_error hfit
      refine iff_of_false ?_ fun h => ?_
      · intro heq
        cases heq
        exact hpr a he
      · obtain ⟨b, hb⟩ := h.1 a ha
        rw [he] at hb
        cases hb
    | ok found =>
      cases found with
      | none => grind [firstFit_none]
      | some found =>
        obtain ⟨a, rest⟩ := found
        obtain ⟨skipped, rfl, ha, hans, hno⟩ := firstFit_some hfit
        have hre : (assign probe exhausted keys rest).map (fun pairs => (key, a) :: pairs) = .error exhausted ↔
            assign probe exhausted keys rest = .error exhausted := by
          cases assign probe exhausted keys rest with
          | error e => exact Iff.rfl
          | ok pairs => exact iff_of_false nofun nofun
        have hco : ((skipped ++ a :: rest).filter (usable probe)).length = (rest.filter (usable probe)).length + 1 := by
          rw [filter_append, hno, nil_append, filter_cons_of_pos (by simp [usable, ha]), length_cons]
        have hall : Answers probe (skipped ++ a :: rest) ↔ Answers probe rest := by
          rw [Answers, forall_mem_append]
          exact ⟨fun h => (Answers.cons_iff.mp h.2).2, fun h => ⟨hans, Answers.cons_iff.mpr ⟨⟨true, ha⟩, h⟩⟩⟩
        dsimp only
        rw [hre, ih, hco, hall, length_cons, Nat.succ_lt_succ_iff]

theorem assign_enough (hans : Answers probe candidates) (hen : keys.length ≤ (candidates.filter (usable probe)).length)
    (hpr : ∀ a, probe a ≠ .error exhausted) : ∃ pairs, assign probe exhausted keys candidates = .ok pairs := by
  cases h : assign probe exhausted keys candidates with
  | ok pairs => exact ⟨pairs, rfl⟩
  | error e =>
    have her : ∀ {keys : List κ} {candidates}, Answers probe candidates →
        assign probe exhausted keys candidates = .error e → e = exhausted := by
      intro keys
      induction keys with
      | nil => exact fun _ h => nomatch h
      | cons key keys ih =>
        intro candidates hans h
        rw [assign] at h
        cases hfit : firstFit probe candidates with
        | error e' =>
          obtain ⟨a, ha, he⟩ := firstFit_error hfit
          obtain ⟨b, hb⟩ := hans a ha
          rw [he] at hb
          cases hb
        | ok found =>
          rw [hfit] at h
          cases found with
          | none =>
            cases h
            rfl
          | some found =>
            obtain ⟨a, rest⟩ := found
            obtain ⟨skipped, rfl, -, -, -⟩ := firstFit_some hfit
            cases hre : assign probe exhausted keys rest with
            | ok pairs =>
              simp only [hre] at h
              cases h
            | error e' =>
              simp only [hre] at h
              cases h
              refine ih (fun a ha => hans a ?_) hre
              exact mem_append_right _ (mem_cons_of_mem _ ha)
    cases her hans h
    exact absurd ((assign_exhausted_iff hpr).mp h).2 (Nat.not_lt.mpr hen)

/-! ## 一回りの並び -/

def cycle (start size : Nat) : List Nat := (List.range size).map fun i => (start + i) % size

theorem cycle_eq_rotate (start size) : cycle start size = (range size).rotate start := by
  refine ext_getElem (by simp [cycle]) fun i hi hi' => ?_
  simp [cycle, Nat.add_comm]

theorem cycle_perm (start size) : (cycle start size).Perm (range size) :=
  cycle_eq_rotate start size ▸ rotate_perm _ _

theorem length_cycle (start size) : (cycle start size).length = size := by simp [cycle]

end Supacloud.Library
