import Mathlib.Data.List.TakeDrop
import Supacloud.SystemdEnv.Quoting

/-!
# 引用の往復
-/

namespace Supacloud.SystemdEnv

open List

open Contracts (JsString)

open Vectors (isHighSurrogate isLowSurrogate isWellFormed toWellFormed)

def Reads (text value : JsString) : Prop :=
  ∀ t s rest, readDouble t = some (s, rest) → readDouble (text ++ t) = some (value ++ s, rest)

theorem Reads.nil : Reads [] [] := fun _ _ _ h => h

theorem Reads.append {a b s t} (h : Reads a s) (h' : Reads b t) : Reads (a ++ b) (s ++ t) := by
  intro x y rest hx
  rw [append_assoc, append_assoc]
  exact h _ _ _ (h' _ _ _ hx)

theorem Reads.plain {u} (hq : u ≠ doubleQuote) (hb : u ≠ backslash) : Reads [u] [u] := by
  intro t s rest h
  cases t with
  | nil => cases h
  | cons v t => simp [readDouble, hq, hb, h]

theorem Reads.escaped {u} (hn : u ≠ newline) : Reads [backslash, u] (if escapable u then [u] else [backslash, u]) := by
  intro t s rest h
  have hq : backslash ≠ doubleQuote := by decide
  simp [readDouble, hq, hn, h]

theorem readDouble_close {text value} (h : Reads text value) : readDouble (text ++ [doubleQuote]) = some (value, []) := by
  simpa using h [doubleQuote] [] [] rfl

theorem readValue_double {text value} (h : Reads text value) : readValue (doubleQuote :: (text ++ [doubleQuote])) = some value := by
  have hne : doubleQuote ≠ singleQuote := by decide
  simp [readValue, hne, readDouble_close h]

/-! ## `quoteSystemdEnvValue` -/

def kept (u : UInt16) : JsString := if u = newline then [backslash, 0x6E] else if u = tab then [backslash, 0x74] else [u]

theorem replace_eq (value) : replace tab [backslash, 0x74] (replace newline [backslash, 0x6E]
    (replace doubleQuote [backslash, doubleQuote] (replace backslash [backslash, backslash] value))) =
      value.flatMap fun u => if u = backslash ∨ u = doubleQuote then [backslash, u] else kept u := by
  simp only [replace, flatMap_assoc]
  congr 1
  funext u
  by_cases hb : u = backslash
  · subst hb
    rfl
  by_cases hq : u = doubleQuote
  · subst hq
    rfl
  by_cases hn : u = newline
  · subst hn
    rfl
  by_cases ht : u = tab
  · subst ht
    rfl
  · simp [kept, hb, hq, hn, ht]

theorem reads_quoted (value : JsString) :
    Reads (value.flatMap fun u => if u = backslash ∨ u = doubleQuote then [backslash, u] else kept u) (value.flatMap kept) := by
  induction value with
  | nil => exact .nil
  | cons u value ih =>
    refine Reads.append ?_ ih
    by_cases hb : u = backslash
    · subst hb
      exact Reads.escaped (by decide)
    by_cases hq : u = doubleQuote
    · subst hq
      exact Reads.escaped (by decide)
    simp only [hb, hq, or_self, if_false]
    unfold kept
    split
    · exact Reads.escaped (u := 0x6E) (by decide)
    split
    · exact Reads.escaped (u := 0x74) (by decide)
    · exact Reads.plain hq hb

theorem flatMap_kept_eq_iff (value : JsString) : value.flatMap kept = value ↔ newline ∉ value ∧ tab ∉ value := by
  induction value with
  | nil => simp
  | cons u value ih =>
    rw [flatMap_cons, mem_cons, mem_cons]
    by_cases hn : u = newline
    · subst hn
      exact iff_of_false (fun h => absurd (cons_eq_cons.mp h).1 (by decide)) fun h => h.1 (.inl rfl)
    by_cases ht : u = tab
    · subst ht
      exact iff_of_false (fun h => absurd (cons_eq_cons.mp h).1 (by decide)) fun h => h.2 (.inl rfl)
    · simp [kept, hn, ht, ih, Ne.symm hn, Ne.symm ht]

theorem quoteSystemdEnvValue_read {value text} (h : quoteSystemdEnvValue value = .ok text) :
    readValue text = some value ↔ Quotable value := by
  unfold quoteSystemdEnvValue at h
  split at h
  · cases h
  split at h
  · rename_i hin
    cases h
    simp only [Bool.and_eq_true, contains_iff_mem, Bool.not_eq_true', ← Bool.not_eq_true] at hin
    exact iff_of_true (by simp [readValue, hin.2]) (.inl hin)
  · rename_i hin
    cases h
    simp only [Bool.and_eq_true, contains_iff_mem, Bool.not_eq_true', ← Bool.not_eq_true] at hin
    rw [replace_eq, readValue_double (reads_quoted value), Option.some.injEq, flatMap_kept_eq_iff, Quotable, or_iff_right hin]

/-! ## `renderSystemdEnvLine` -/

theorem hexDigit_plain (n) : hexDigit n ≠ doubleQuote ∧ hexDigit n ≠ backslash := by
  have hdi : ∀ m < 16, (if m < 10 then UInt16.ofNat (0x30 + m) else .ofNat (0x57 + m)) ≠ doubleQuote ∧
      (if m < 10 then UInt16.ofNat (0x30 + m) else .ofNat (0x57 + m)) ≠ backslash := by decide
  exact hdi _ (Nat.mod_lt _ (by decide))

theorem reads_unicodeEscape (u) : Reads (unicodeEscape u) (unicodeEscape u) := by
  have hhe : ∀ n, Reads [hexDigit n] [hexDigit n] := fun n => .plain (hexDigit_plain n).1 (hexDigit_plain n).2
  exact (Reads.escaped (u := 0x75) (by decide)).append ((hhe _).append ((hhe _).append ((hhe _).append (hhe _))))

def shownUnit (u : UInt16) : JsString := if isSurrogate u then unicodeEscape u else [u]

def shown : JsString → JsString
  | [] => []
  | [u] => shownUnit u
  | u :: v :: rest => if isHighSurrogate u && isLowSurrogate v then u :: v :: shown rest else shownUnit u ++ shown (v :: rest)

theorem reads_escapeUnit {u} (h : (u ≤ 0x1F || u == 0x7F) = false) : Reads (escapeUnit u) (shownUnit u) := by
  have hge : ¬ u < 0x20 := by
    simp only [Bool.or_eq_false_iff, decide_eq_false_iff_not, UInt16.le_iff_toNat_le, UInt16.lt_iff_toNat_lt] at h ⊢
    have hlo := h.1
    simp at hlo ⊢
    omega
  have hne : ∀ v, v < 0x20 → u ≠ v := fun v hv heq => hge (heq ▸ hv)
  unfold escapeUnit
  split
  · rename_i hu
    rcases hu with rfl | rfl
    · exact Reads.escaped (by decide)
    · exact Reads.escaped (by decide)
  rename_i hu
  rw [if_neg (hne _ (by decide)), if_neg (hne _ (by decide)), if_neg (hne _ (by decide)), if_neg (hne _ (by decide)), if_neg (hne _ (by decide))]
  simp only [hge, false_or]
  unfold shownUnit
  split
  · exact reads_unicodeEscape u
  · exact Reads.plain (fun hq => hu (.inl hq)) fun hb => hu (.inr hb)

theorem reads_surrogate {u} (h : isSurrogate u = true) : Reads [u] [u] := by
  refine Reads.plain ?_ ?_
  · rintro rfl
    exact absurd h (by decide)
  · rintro rfl
    exact absurd h (by decide)

theorem reads_stringified (value) (h : forbidden value = false) : Reads (stringified value) (shown value) := by
  induction value using shown.induct with
  | case1 => exact .nil
  | case2 u => exact reads_escapeUnit (by simpa [forbidden] using h)
  | case3 u v rest hsu ih =>
    have hre := ih (by simp only [forbidden, any_cons, Bool.or_eq_false_iff] at h ⊢; exact h.2.2)
    rw [Bool.and_eq_true] at hsu
    have hu : isSurrogate u = true := by simp [isSurrogate, hsu.1]
    have hv : isSurrogate v = true := by simp [isSurrogate, hsu.2]
    simpa [stringified, shown, hsu] using (reads_surrogate hu).append ((reads_surrogate hv).append hre)
  | case4 u v rest hsu ih =>
    simp only [forbidden, any_cons] at h ih
    obtain ⟨hu, hre⟩ := Bool.or_eq_false_iff.mp h
    simpa [stringified, shown, hsu] using (reads_escapeUnit hu).append (ih hre)

theorem shownUnit_append_iff {u : UInt16} {a b : JsString} : shownUnit u ++ a = u :: b ↔ isSurrogate u = false ∧ a = b := by
  unfold shownUnit
  cases hu : isSurrogate u with
  | true =>
    refine iff_of_false (fun h => ?_) (by simp)
    rw [← (cons_eq_cons.mp h).1] at hu
    exact absurd hu (by decide)
  | false => simp

theorem replaced_iff {u : UInt16} {a b : JsString} :
    (if isHighSurrogate u || isLowSurrogate u then 0xFFFD else u) :: a = u :: b ↔ isSurrogate u = false ∧ a = b := by
  rw [← isSurrogate]
  cases hu : isSurrogate u with
  | true =>
    refine iff_of_false (fun h => ?_) (by simp)
    rw [if_pos rfl] at h
    rw [← (cons_eq_cons.mp h).1] at hu
    exact absurd hu (by decide)
  | false => simp

theorem shown_eq_iff (value) : shown value = value ↔ isWellFormed value = true := by
  rw [isWellFormed, beq_iff_eq]
  induction value using shown.induct with
  | case1 => exact iff_of_true rfl rfl
  | case2 u =>
    have hsh := shownUnit_append_iff (u := u) (a := []) (b := [])
    rw [append_nil] at hsh
    rw [shown, toWellFormed, hsh, replaced_iff]
  | case3 u v rest hsu ih => simp [shown, toWellFormed, hsu, ih]
  | case4 u v rest hsu ih => simp only [shown, toWellFormed, hsu, if_false, Bool.false_eq_true, shownUnit_append_iff, replaced_iff, ih]

theorem environmentName_separates {name : JsString} (h : environmentName name = true) (rest : JsString) :
    (name ++ 0x3D :: rest).span (· != 0x3D) = (name, 0x3D :: rest) := by
  have hal : ∀ u ∈ name, (u != 0x3D) = true := by
    cases name with
    | nil => cases h
    | cons u tail =>
      simp only [environmentName, Bool.and_eq_true, all_eq_true] at h
      intro v hv
      rw [bne_iff_ne]
      rintro rfl
      rcases mem_cons.mp hv with rfl | hv
      · exact absurd h.1 (by decide)
      · exact absurd (h.2 _ hv) (by decide)
  rw [span_eq_takeWhile_dropWhile, takeWhile_append_of_pos hal, dropWhile_append_of_pos hal]
  simp

theorem renderSystemdEnvLine_read {name value line} (h : renderSystemdEnvLine name value = .ok line) :
    readLine line = some (name, value) ↔ isWellFormed value = true := by
  unfold renderSystemdEnvLine at h
  split at h
  · cases h
  split at h
  · cases h
  rename_i hna hfo
  cases h
  have hre := readValue_double (reads_stringified value (by simpa using hfo))
  rw [readLine, environmentName_separates (by simpa using hna)]
  simp [hre, shown_eq_iff]

/-- 一重引用符で囲まれるか改行もタブもない値と、対になっていないサロゲートのない値は、そのまま読み戻され、ほかの値は読み戻されない。 -/
theorem systemd_env_roundTrip (name value text line) :
    (quoteSystemdEnvValue value = .ok text → (readValue text = some value ↔ Quotable value)) ∧
    (renderSystemdEnvLine name value = .ok line → (readLine line = some (name, value) ↔ isWellFormed value = true)) :=
  ⟨quoteSystemdEnvValue_read, renderSystemdEnvLine_read⟩

/-- 改行は、`\n` の二文字に変わる。 -/
theorem newline_changed : quoteSystemdEnvValue [0x61, newline] = .ok [doubleQuote, 0x61, backslash, 0x6E, doubleQuote] ∧
    readValue [doubleQuote, 0x61, backslash, 0x6E, doubleQuote] ≠ some [0x61, newline] := ⟨rfl, by decide⟩

end Supacloud.SystemdEnv
