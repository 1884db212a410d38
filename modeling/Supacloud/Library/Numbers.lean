import Mathlib.Algebra.GroupWithZero.Nat
import Mathlib.Data.Nat.Log
import Mathlib.Data.Rat.Floor

/-!
# 数と時刻の表記

倍精度の有限の値を有理数で表し、-0 は 0 と同じに見る。時刻は 1970 年からのミリ秒である。年の始まりを三月に移すと、
月の日数は `(153 * m + 2) / 5` で数えられ、四百年で一巡りする。
-/

namespace Supacloud.Library

open List

inductive Number where
  | nan
  | infinite (negative : Bool)
  | finite (value : ℚ)
deriving DecidableEq

def maxSafeInteger : ℤ := 9007199254740991

def safe (n : ℤ) : Bool := -maxSafeInteger ≤ n && n ≤ maxSafeInteger

def Number.safeInteger? : Number → Option ℤ
  | .finite q => if q.den = 1 && safe q.num then some q.num else none
  | .nan | .infinite _ => none

theorem safeInteger?_natCast (n : ℕ) : (Number.finite n).safeInteger? = if safe n then some (n : ℤ) else none := by
  simp [Number.safeInteger?]

/-- 最も近い整数。等しく近い二つでは、偶数である。 -/
def roundEven (q : ℚ) : ℤ :=
  if q - ⌊q⌋ < 1 / 2 ∨ q - ⌊q⌋ = 1 / 2 ∧ ⌊q⌋ % 2 = 0 then ⌊q⌋ else ⌊q⌋ + 1

/-- 1 以上 2 ^ 53 未満の数に最も近い倍精度の数。 -/
def roundDouble (q : ℚ) : ℚ :=
  let scale : ℕ := 2 ^ (52 - Nat.log 2 ⌊q⌋.toNat)
  roundEven (q * scale) / scale

theorem floor_le_roundDouble (q : ℚ) : ⌊q⌋ ≤ roundDouble q := by
  have hround : ∀ x : ℚ, ⌊x⌋ ≤ roundEven x := fun x => by
    unfold roundEven
    split <;> omega
  have hpos : (0 : ℚ) < (2 ^ (52 - Nat.log 2 ⌊q⌋.toNat) : ℕ) := by positivity
  rw [roundDouble, le_div_iff₀ hpos]
  have hle : ⌊q⌋ * ((2 ^ (52 - Nat.log 2 ⌊q⌋.toNat) : ℕ) : ℤ) ≤ ⌊q * (2 ^ (52 - Nat.log 2 ⌊q⌋.toNat) : ℕ)⌋ := by
    rw [Int.le_floor]
    push_cast
    exact mul_le_mul_of_nonneg_right (Int.floor_le q) (by positivity)
  exact_mod_cast hle.trans (hround _)

example : roundDouble (1 + 1 / 2 ^ 52 + 1) = 2 := by decide +kernel

def digit (n : ℕ) : Char := Char.ofNat (48 + n % 10)

def pad : (w n : ℕ) → List Char
  | 0, _ => []
  | w + 1, n => pad w (n / 10) ++ [digit n]

theorem digit_injective {a b} (h : digit a = digit b) : a % 10 = b % 10 := by
  have hfin : ∀ x y : Fin 10, Char.ofNat (48 + x.1) = Char.ofNat (48 + y.1) → x = y := by decide
  exact Fin.mk.inj_iff.mp (hfin ⟨a % 10, Nat.mod_lt _ (by decide)⟩ ⟨b % 10, Nat.mod_lt _ (by decide)⟩ h)

theorem digit_isDigit (n) : (digit n).isDigit = true := by
  have hfin : ∀ x : Fin 10, (Char.ofNat (48 + x.1)).isDigit = true := by decide
  exact hfin ⟨n % 10, Nat.mod_lt _ (by decide)⟩

@[simp] theorem length_pad (w n) : (pad w n).length = w := by
  induction w generalizing n with
  | zero => rfl
  | succ w ih => simp [pad, ih]

theorem pad_injective {w n n'} (hn : n < 10 ^ w) (hn' : n' < 10 ^ w) (h : pad w n = pad w n') : n = n' := by
  induction w generalizing n n' with
  | zero => omega
  | succ w ih =>
    obtain ⟨hini, hla⟩ := append_inj' h rfl
    have hmod := digit_injective (singleton_inj.mp hla)
    have hdiv := ih (by omega) (by omega) hini
    omega

/-- `String.prototype.trim` の除く文字。 -/
def isWhitespace (c : Char) : Bool :=
  c.toNat ∈ [9, 10, 11, 12, 13, 32, 160, 5760, 8232, 8233, 8239, 8287, 12288, 65279] || (8192 ≤ c.toNat && c.toNat ≤ 8202)

/-! ## 年月日 -/

structure MarchDay where
  year : ℤ
  day : ℤ

/-- 1970-01-01 を 0 とする日の番号を、四百年、百年、四年、一年の順に分ける。 -/
def marchDay (days : ℤ) : MarchDay :=
  let era := (days + 719468) / 146097
  let ofEra := (days + 719468) % 146097
  let century := min (ofEra / 36524) 3
  let ofCentury := ofEra - 36524 * century
  let quad := ofCentury / 1461
  let ofQuad := ofCentury % 1461
  let year := min (ofQuad / 365) 3
  { year := 400 * era + 100 * century + 4 * quad + year, day := ofQuad - 365 * year }

theorem marchDay_spec (days) : ∃ era century quad year, 0 ≤ century ∧ century ≤ 3 ∧ 0 ≤ quad ∧ quad ≤ 24 ∧ 0 ≤ year ∧ year ≤ 3 ∧
    (marchDay days).year = 400 * era + 100 * century + 4 * quad + year ∧ 0 ≤ (marchDay days).day ∧ (marchDay days).day ≤ 365 ∧
    days + 719468 = 146097 * era + 36524 * century + 1461 * quad + 365 * year + (marchDay days).day := by
  have hera := Int.emod_add_mul_ediv (days + 719468) 146097
  have hlow := Int.emod_nonneg (days + 719468) (show (146097 : ℤ) ≠ 0 by decide)
  have hhi := Int.emod_lt_of_pos (days + 719468) (show (0 : ℤ) < 146097 by decide)
  simp only [marchDay]
  generalize (days + 719468) / 146097 = era at hera ⊢
  generalize (days + 719468) % 146097 = ofEra at hera hlow hhi ⊢
  obtain ⟨century, hce⟩ : ∃ century, century = min (ofEra / 36524) 3 := ⟨_, rfl⟩
  have hc : 0 ≤ century ∧ century ≤ 3 ∧ 0 ≤ ofEra - 36524 * century ∧ ofEra - 36524 * century ≤ 36524 := by omega
  rw [← hce]
  generalize hofC : ofEra - 36524 * century = ofCentury at hc ⊢
  have hqu := Int.emod_add_mul_ediv ofCentury 1461
  have hq : 0 ≤ ofCentury / 1461 ∧ ofCentury / 1461 ≤ 24 ∧ 0 ≤ ofCentury % 1461 ∧ ofCentury % 1461 < 1461 := by omega
  generalize ofCentury / 1461 = quad at hqu hq ⊢
  generalize ofCentury % 1461 = ofQuad at hqu hq ⊢
  obtain ⟨year, hye⟩ : ∃ year, year = min (ofQuad / 365) 3 := ⟨_, rfl⟩
  have hy : 0 ≤ year ∧ year ≤ 3 ∧ 0 ≤ ofQuad - 365 * year ∧ ofQuad - 365 * year ≤ 365 := by omega
  rw [← hye]
  exact ⟨era, century, quad, year, hc.1, hc.2.1, hq.1, hq.2.1, hy.1, hy.2.1, rfl, hy.2.2.1, hy.2.2.2, by omega⟩

theorem marchDay_injective {a b} (hye : (marchDay a).year = (marchDay b).year) (hday : (marchDay a).day = (marchDay b).day) : a = b := by
  obtain ⟨e, c, q, y, hc₀, hc₁, hq₀, hq₁, hy₀, hy₁, hyr, -, -, hsum⟩ := marchDay_spec a
  obtain ⟨e', c', q', y', hc₀', hc₁', hq₀', hq₁', hy₀', hy₁', hyr', -, -, hsu'⟩ := marchDay_spec b
  have he : e = e' := by omega
  have hcq : c = c' := by omega
  have hqq : q = q' := by omega
  omega

theorem pad_append {w n n' l l'} (hn : n < 10 ^ w) (hn' : n' < 10 ^ w) (h : pad w n ++ l = pad w n' ++ l') : n = n' ∧ l = l' := by
  obtain ⟨hpad, hre⟩ := append_inj h (by simp)
  exact ⟨pad_injective hn hn' hpad, hre⟩

structure Civil where
  year : ℤ
  month : ℕ
  day : ℕ

def civil (days : ℤ) : Civil :=
  let m := marchDay days
  let mp := (5 * m.day + 2) / 153
  let month := if mp < 10 then mp + 3 else mp - 9
  { year := if month ≤ 2 then m.year + 1 else m.year, month := month.toNat, day := (m.day - (153 * mp + 2) / 5 + 1).toNat }

theorem civil_bounds (days) : (civil days).month < 100 ∧ (civil days).day < 100 := by
  obtain ⟨-, -, -, -, -, -, -, -, -, -, -, h₀, h₁, -⟩ := marchDay_spec days
  simp only [civil]
  omega

theorem civil_injective {a b} (h : civil a = civil b) : a = b := by
  obtain ⟨-, -, -, -, -, -, -, -, -, -, -, h₀, h₁, -⟩ := marchDay_spec a
  obtain ⟨-, -, -, -, -, -, -, -, -, -, -, h₀', h₁', -⟩ := marchDay_spec b
  simp only [civil, Civil.mk.injEq] at h
  have hmp : (5 * (marchDay a).day + 2) / 153 = (5 * (marchDay b).day + 2) / 153 := by omega
  rw [hmp] at h
  exact marchDay_injective (by omega) (by omega)

/-! ## ISO 8601 -/

def isoYear (year : ℤ) : List Char :=
  if 0 ≤ year ∧ year ≤ 9999 then pad 4 year.toNat
  else (if year < 0 then '-' else '+') :: pad 6 year.natAbs

def isoRest (month day ms : ℕ) : List Char :=
  '-' :: (pad 2 month ++ '-' :: (pad 2 day ++ 'T' :: (pad 2 (ms / 3600000) ++ ':' :: (pad 2 (ms / 60000 % 60) ++
    ':' :: (pad 2 (ms / 1000 % 60) ++ '.' :: (pad 3 (ms % 1000) ++ ['Z']))))))

def isoString (t : ℤ) : List Char :=
  let c := civil (t / 86400000)
  isoYear c.year ++ isoRest c.month c.day (t % 86400000).toNat

def maxTime : ℤ := 8640000000000000

theorem isoYear_injective {y y'} (hy : y.natAbs < 1000000) (hy' : y'.natAbs < 1000000) (h : isoYear y = isoYear y') : y = y' := by
  have hle : (isoYear y).length = (isoYear y').length := by rw [h]
  simp only [isoYear] at h hle
  by_cases hs : 0 ≤ y ∧ y ≤ 9999
  · by_cases hs' : 0 ≤ y' ∧ y' ≤ 9999
    · rw [if_pos hs, if_pos hs'] at h
      have := pad_injective (by omega) (by omega) h
      omega
    · simp [hs, hs'] at hle
  · by_cases hs' : 0 ≤ y' ∧ y' ≤ 9999
    · simp [hs, hs'] at hle
    · rw [if_neg hs, if_neg hs'] at h
      obtain ⟨hsi, hpad⟩ := cons_eq_cons.mp h
      have := pad_injective (by omega) (by omega) hpad
      have hpos : y < 0 ↔ y' < 0 := by
        grind
      omega

theorem isoRest_injective {m m' d d' s s'} (hm : m < 100 ∧ m' < 100) (hd : d < 100 ∧ d' < 100) (hs : s < 86400000 ∧ s' < 86400000)
    (h : isoRest m d s = isoRest m' d' s') : m = m' ∧ d = d' ∧ s = s' := by
  obtain ⟨-, h⟩ := cons_eq_cons.mp h
  obtain ⟨hmo, h⟩ := pad_append (by omega) (by omega) h
  obtain ⟨hday, h⟩ := pad_append (by omega) (by omega) (cons_eq_cons.mp h).2
  obtain ⟨hho, h⟩ := pad_append (by omega) (by omega) (cons_eq_cons.mp h).2
  obtain ⟨hmi, h⟩ := pad_append (by omega) (by omega) (cons_eq_cons.mp h).2
  obtain ⟨hse, h⟩ := pad_append (by omega) (by omega) (cons_eq_cons.mp h).2
  obtain ⟨hms, -⟩ := pad_append (by omega) (by omega) (cons_eq_cons.mp h).2
  omega

theorem civil_year_bound {t} (h : -maxTime ≤ t ∧ t ≤ maxTime) : (civil (t / 86400000)).year.natAbs < 1000000 := by
  obtain ⟨e, c, q, y, hc₀, hc₁, hq₀, hq₁, hy₀, hy₁, hyr, h₀, h₁, hsum⟩ := marchDay_spec (t / 86400000)
  simp only [maxTime] at h
  simp only [civil]
  omega

@[simp] theorem length_isoRest (m d s) : (isoRest m d s).length = 20 := by simp [isoRest]

theorem isoString_injective {t t'} (ht : -maxTime ≤ t ∧ t ≤ maxTime) (ht' : -maxTime ≤ t' ∧ t' ≤ maxTime)
    (h : isoString t = isoString t') : t = t' := by
  obtain ⟨hye, hre⟩ := append_inj' h (by simp)
  have hb := civil_bounds (t / 86400000)
  have hb' := civil_bounds (t' / 86400000)
  obtain ⟨hm, hd, hs⟩ := isoRest_injective ⟨hb.1, hb'.1⟩ ⟨hb.2, hb'.2⟩ (by omega) hre
  have hy := isoYear_injective (civil_year_bound ht) (civil_year_bound ht') hye
  have hci : civil (t / 86400000) = civil (t' / 86400000) := by
    generalize civil (t / 86400000) = c at hy hm hd ⊢
    generalize civil (t' / 86400000) = c' at hy hm hd ⊢
    cases c
    cases c'
    simp_all
  have hday := civil_injective hci
  omega

end Supacloud.Library
