import Mathlib.Data.List.Basic

/-!
# 検査の連なり

`require` は条件の検査、`fetch` は行の取り出しである。
-/

namespace Supacloud.Library

variable {ε α β : Type} {x : Except ε α} {f : α → Except ε β} {a : α} {b : β} {e : ε}

def require (c : Prop) [Decidable c] (e : ε) : Except ε Unit :=
  if c then .ok () else .error e

def fetch (o : Option α) (e : ε) : Except ε α :=
  match o with
  | some a => .ok a
  | none => .error e

@[simp] theorem bind_eq_ok : (x >>= f) = .ok b ↔ ∃ a, x = .ok a ∧ f a = .ok b := by
  cases x <;> simp [bind, Except.bind]

@[simp] theorem bind_eq_error : (x >>= f) = .error e ↔ x = .error e ∨ ∃ a, x = .ok a ∧ f a = .error e := by
  cases x <;> simp [bind, Except.bind]

@[simp] theorem pure_eq_ok {b'} : (pure a : Except ε α) = .ok b' ↔ a = b' := by
  simp [pure, Except.pure]

@[simp] theorem pure_ne_error : ¬ (pure a : Except ε α) = .error e := by
  simp [pure, Except.pure]

@[simp] theorem require_eq_ok {c} [Decidable c] {u} : require c e = .ok u ↔ c := by
  by_cases h : c <;> simp [require]

@[simp] theorem require_eq_error {c} [Decidable c] {e'} : require c e = .error e' ↔ ¬ c ∧ e = e' := by
  by_cases h : c <;> simp [require, h]

@[simp] theorem fetch_eq_ok {o} : fetch o e = .ok a ↔ o = some a := by
  cases o <;> simp [fetch]

end Supacloud.Library
