import Mathlib.Data.List.Basic

/-!
# 出来事の列にそった走行

`run` は走行の終わりの状態、`Along` は、どの一歩も、その前の状態と出来事について条件を満たすことである。
-/

namespace Supacloud.Library

variable {σ ε : Type} {step : σ → ε → σ} {C D : σ → ε → Prop} {I : σ → Prop} {s : σ} {e : ε} {es es' : List ε}

def run (step : σ → ε → σ) (s : σ) (es : List ε) : σ := es.foldl step s

def Along (step : σ → ε → σ) (C : σ → ε → Prop) : σ → List ε → Prop
  | _, [] => True
  | s, e :: es => C s e ∧ Along step C (step s e) es

instance Along.decidable [∀ s e, Decidable (C s e)] (s : σ) (es : List ε) : Decidable (Along step C s es) :=
  match es with
  | [] => isTrue trivial
  | e :: es => @instDecidableAnd _ _ _ (Along.decidable (step s e) es)

@[simp] theorem run_nil : run step s [] = s := rfl

@[simp] theorem run_cons : run step s (e :: es) = run step (step s e) es := rfl

theorem run_append : run step s (es ++ es') = run step (run step s es) es' := by
  simp [run]

theorem Along.append : Along step C s (es ++ es') ↔ Along step C s es ∧ Along step C (run step s es) es' := by
  induction es generalizing s with
  | nil => simp [Along]
  | cons e es ih => simp [Along, ih, and_assoc]

theorem Along.invariant (hst : ∀ s e, I s → C s e → I (step s e)) (h : Along step C s es) (hs : I s) : I (run step s es) := by
  induction es generalizing s with
  | nil => exact hs
  | cons e es ih => exact ih h.2 (hst s e hs h.1)

theorem run_invariant (hst : ∀ s e, I s → I (step s e)) (hs : I s) : I (run step s es) := by
  induction es generalizing s with
  | nil => exact hs
  | cons e es ih => exact ih (hst s e hs)

/-- 一度起きると残る破れが、条件を満たさない一歩でだけ新しく起きるなら、終わりに破れがないのは、走行が条件にそうときである。 -/
theorem along_iff_not {J B : σ → Prop} (hJ : ∀ s e, J s → J (step s e)) (hst : ∀ s e, J s → (B (step s e) ↔ B s ∨ ¬ C s e))
    (hj : J s) (hs : ¬ B s) : Along step C s es ↔ ¬ B (run step s es) := by
  induction es generalizing s with
  | nil => exact iff_of_true trivial hs
  | cons e es ih =>
    by_cases hc : C s e
    · have hne : ¬ B (step s e) := by simp [hst s e hj, hs, hc]
      simpa [Along, hc] using ih (hJ s e hj) hne
    · have hke : ∀ s e, J s ∧ B s → J (step s e) ∧ B (step s e) := fun s e h => ⟨hJ s e h.1, (hst s e h.1).mpr (.inl h.2)⟩
      have hbad : B (run step (step s e) es) :=
        (run_invariant (I := fun s => J s ∧ B s) hke ⟨hJ s e hj, (hst s e hj).mpr (.inr hc)⟩).2
      exact iff_of_false (fun h => hc h.1) (fun h => h hbad)

/-- どの一歩についても、その前の状態は、列を前から切り取った走行の終わりである。 -/
theorem along_iff : Along step C s es ↔ ∀ before e after, es = before ++ e :: after → C (run step s before) e := by
  constructor
  · intro h before e after hsp
    rw [hsp, Along.append] at h
    exact h.2.1
  · intro h
    induction es generalizing s with
    | nil => trivial
    | cons e es ih =>
      refine ⟨h [] e es rfl, ih ?_⟩
      intro before e' after hsp
      exact h (e :: before) e' after (by rw [hsp]; rfl)

/-- 一歩の条件が、その一歩の後の性質とちょうど同じなら、条件にそった走行は、途中のどの状態も性質を満たす走行である。`G` は、走行の
どの一歩もはじめから満たしている条件である。 -/
theorem along_iff_forall_of {G} {J : σ → Prop} (hJ : ∀ s e, J s → G s e → J (step s e))
    (hst : ∀ s e, J s → I s → G s e → (C s e ↔ I (step s e))) (hG : Along step G s es) (hj : J s) (hs : I s) :
    Along step C s es ↔ ∀ before after, es = before ++ after → I (run step s before) := by
  induction es generalizing s with
  | nil =>
    refine iff_of_true trivial fun before after hsp => ?_
    obtain ⟨rfl, rfl⟩ := List.append_eq_nil_iff.mp hsp.symm
    exact hs
  | cons e es ih =>
    have hfi := hst s e hj hs hG.1
    have hne := fun hi : I (step s e) => ih hG.2 (hJ s e hj hG.1) hi
    constructor
    · rintro ⟨hc, hre⟩ before after hsp
      cases before with
      | nil => exact hs
      | cons e' before =>
        obtain ⟨rfl, hta⟩ := List.cons.inj hsp
        exact (hne (hfi.mp hc)).mp hre before after hta
    · intro h
      have hi : I (step s e) := h [e] es rfl
      refine ⟨hfi.mpr hi, (hne hi).mpr fun before after hsp => ?_⟩
      exact h (e :: before) after (by rw [hsp]; rfl)

theorem along_iff_forall (step es) {J : σ → Prop} (hJ : ∀ s e, J s → J (step s e)) (hst : ∀ s e, J s → I s → (C s e ↔ I (step s e)))
    (hj : J s) (hs : I s) : Along step C s es ↔ ∀ before after, es = before ++ after → I (run step s before) := by
  have hG : Along step (fun _ _ => True) s es := along_iff.mpr fun _ _ _ _ => trivial
  exact along_iff_forall_of (fun s e h _ => hJ s e h) (fun s e hj hi _ => hst s e hj hi) hG hj hs

end Supacloud.Library

/-!
## 新しいものから並ぶ記録

`Since` は、どの記録についても、その後ずっと守る約束が果たされていること、`Ordered` は、
前後の二つの記録がいつも関係を満たすことである。
-/

namespace Supacloud.Library

variable {α : Type} {P Q : List α → α → Prop} {R : List α → α → α → Prop} {log : List α} {e : α}

def Since (P : List α → α → Prop) (log : List α) : Prop :=
  ∀ later old earlier, log = later ++ old :: earlier → P earlier old

def Ordered (R : List α → α → α → Prop) (log : List α) : Prop :=
  ∀ later old earlier, log = later ++ old :: earlier → ∀ new ∈ later, R earlier old new

theorem Since.cons (h : Since P log) (he : P log e) : Since P (e :: log) := by
  intro later old earlier hsp
  cases later with
  | nil =>
    cases hsp
    exact he
  | cons a rest =>
    cases hsp
    exact h rest old earlier rfl

theorem Since.mono (h : Since P log) (hPQ : ∀ earlier old, earlier ⊆ log → P earlier old → Q earlier old) : Since Q log := by
  intro later old earlier hsp
  refine hPQ earlier old ?_ (h later old earlier hsp)
  rw [hsp]
  exact fun x hx => List.mem_append_right _ (List.mem_cons_of_mem _ hx)

theorem Since.append {news} (h : Since P log) (hn : ∀ e ∈ news, ∀ earlier, P earlier e) : Since P (news ++ log) := by
  induction news with
  | nil => exact h
  | cons a news ih =>
    exact (ih fun e he => hn e (List.mem_cons_of_mem _ he)).cons (hn a List.mem_cons_self _)

theorem Ordered.cons (h : Ordered R log) (he : Since (fun earlier old => R earlier old e) log) : Ordered R (e :: log) := by
  intro later old earlier hsp new hnew
  cases later with
  | nil => cases hnew
  | cons a rest =>
    cases hsp
    rcases List.mem_cons.mp hnew with rfl | hnew
    · exact he rest old earlier rfl
    · exact h rest old earlier rfl new hnew

end Supacloud.Library
