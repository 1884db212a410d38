import Supacloud.Library.Checked

/-!
# 三値の論理

`none` は NULL（不明）である。`both`・`either`・`anyRow` は、左から順に、結果の決まる所まで評価し、
評価は例外で終わりうる。
-/

namespace Supacloud.Library

abbrev Truth := Option Bool

namespace Truth

def not (a : Truth) : Truth := a.map (!·)

def and (a b : Truth) : Truth :=
  if a = some false ∨ b = some false then some false else a.bind fun x => b.map (x && ·)

def or (a b : Truth) : Truth :=
  if a = some true ∨ b = some true then some true else a.bind fun x => b.map (x || ·)

variable {ε α : Type} {a b : Truth} {x y : Except ε Truth}

@[simp] theorem not_eq_true : not a = some true ↔ a = some false := by
  cases a <;> simp [not]

@[simp] theorem not_eq_false : not a = some false ↔ a = some true := by
  cases a <;> simp [not]

@[simp] theorem and_eq_true : and a b = some true ↔ a = some true ∧ b = some true := by
  rcases a with _ | _ | _ <;> rcases b with _ | _ | _ <;> simp [and]

@[simp] theorem or_eq_true : or a b = some true ↔ a = some true ∨ b = some true := by
  rcases a with _ | _ | _ <;> rcases b with _ | _ | _ <;> simp [or]

/-! ## 順に評価する -/

def both (x y : Except ε Truth) : Except ε Truth :=
  x >>= fun a => if a = some false then .ok (some false) else y.map (and a)

def either (x y : Except ε Truth) : Except ε Truth :=
  x >>= fun a => if a = some true then .ok (some true) else y.map (or a)

def anyRow (p : α → Except ε Truth) : List α → Except ε Truth
  | [] => .ok (some false)
  | row :: rows => p row >>= fun a => if a = some true then .ok (some true) else anyRow p rows

def holds (x : Except ε Truth) : Bool :=
  match x with
  | .ok a => a == some true
  | .error _ => false

@[simp] theorem holds_ok : holds (.ok a : Except ε Truth) = true ↔ a = some true := by
  simp [holds]

theorem both_ok (hx : x = .ok a) (hy : a ≠ some false → y = .ok b) : both x y = .ok (and a b) := by
  by_cases h : a = some false
  · subst hx
    simp [both, bind, Except.bind, h, and]
  · rw [hx, hy h]
    simp [both, bind, Except.bind, h, Except.map]

theorem either_ok (hx : x = .ok a) (hy : a ≠ some true → y = .ok b) : either x y = .ok (or a b) := by
  by_cases h : a = some true
  · subst hx
    simp [either, bind, Except.bind, h, or]
  · rw [hx, hy h]
    simp [either, bind, Except.bind, h, Except.map]

theorem anyRow_ok {p : α → Except ε Truth} {t : α → Truth} {rows} (h : ∀ row ∈ rows, p row = .ok (t row)) :
    anyRow p rows = .ok (some (rows.any fun row => t row == some true)) := by
  induction rows with
  | nil => rfl
  | cons row rows ih =>
    have hrow := h row (by simp)
    have hre := ih fun r hr => h r (by simp [hr])
    simp only [anyRow, hrow, bind, Except.bind, hre]
    by_cases ht : t row = some true
    · simp [ht]
    · simp [ht]

end Truth

end Supacloud.Library
