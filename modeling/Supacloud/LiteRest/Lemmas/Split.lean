import Supacloud.LiteRest.Parse

/-! # 釣り合いと切り分け -/

namespace Supacloud.LiteRest

open Scan List Bool

variable {s t : Text} {d k : ℕ} {quoted : Bool} {pieces : List Text}

def plain : (d : ℕ) → (quoted : Bool) → Text → Bool
  | d, quoted, [] => d = 0 && !quoted
  | d, true, c :: s => plain d (c ≠ '"') s
  | d, false, c :: s =>
    if c = '"' then plain d true s
    else if c = '(' then plain (d + 1) false s
    else if c = ')' then d ≠ 0 && plain (d - 1) false s
    else (c ≠ ',' || d ≠ 0) && plain d false s

attribute [local simp] plain splits splitFrom

theorem plain_cons {c} (h : plain d quoted (c :: s)) : (∀ k, splits { depth := (d + k : ℕ), inQuote := quoted } ',' c = false) ∧
      ∃ d' quoted', plain d' quoted' s ∧
        (∀ k, step { depth := (d + k : ℕ), inQuote := quoted } c = { depth := (d' + k : ℕ), inQuote := quoted' }) ∧
        ∀ k t, plain (d + k) quoted (c :: t) = plain (d' + k) quoted' t := by
  cases quoted with
  | true => exact ⟨fun k => by simp, d, c ≠ '"', h, fun k => rfl, fun k t => rfl⟩
  | false =>
    unfold plain at h
    by_cases hqu : c = '"'
    · subst hqu
      exact ⟨fun k => by simp, d, true, by simpa using h, fun k => rfl, fun k t => by simp⟩
    · by_cases hop : c = '('
      · subst hop
        refine ⟨fun k => by simp, d + 1, false, by simpa using h, fun k => ?_, fun k t => ?_⟩
        · simp only [step]
          simp
          omega
        · simp [Nat.add_right_comm]
      · by_cases hcl : c = ')'
        · subst hcl
          simp only [hqu, hop, if_false, if_true, Bool.and_eq_true, decide_eq_true_eq] at h
          refine ⟨fun k => by simp, d - 1, false, h.2, fun k => ?_, fun k t => ?_⟩
          · simp only [step]
            simp
            omega
          · have hne : d + k ≠ 0 := by omega
            have hsub : d + k - 1 = d - 1 + k := by omega
            simp only [plain, hqu, hop, if_false, if_true, hne, hsub, ne_eq, not_false_eq_true, decide_true, Bool.true_and]
        · simp only [hqu, hop, hcl, if_false, Bool.and_eq_true, Bool.or_eq_true, decide_eq_true_eq] at h
          refine ⟨fun k => ?_, d, false, h.2, fun k => by simp [step, hqu, hop, hcl], fun k t => ?_⟩
          · rcases h.1 with hc | hd
            · simp [splits, hc]
            · have hne : ((d + k : ℕ) : ℤ) ≠ 0 := by omega
              simp only [splits, hne, decide_false, Bool.and_false]
          · have hco : c ≠ ',' ∨ d + k ≠ 0 := h.1.imp_right (by omega)
            simp only [plain, hqu, hop, hcl, if_false, hco, ← Bool.decide_or, decide_true, Bool.true_and]

theorem plain_append (h : plain d quoted s) : plain (d + k) quoted (s ++ t) = plain k false t := by
  induction s generalizing d quoted with
  | nil =>
    simp only [plain, and_eq_true, decide_eq_true_eq, not_eq_true'] at h
    obtain ⟨rfl, rfl⟩ := h
    simp
  | cons c s ih =>
    obtain ⟨-, d', quoted', hs, -, hst⟩ := plain_cons h
    rw [cons_append, hst k, ih hs]

theorem splitFrom_plain {current} (h : plain d quoted s) :
    splitFrom ',' { depth := (d + k : ℕ), inQuote := quoted } current (s ++ t) = splitFrom ',' { depth := (k) } (current ++ s) t := by
  induction s generalizing d quoted current with
  | nil =>
    simp only [plain, and_eq_true, decide_eq_true_eq, not_eq_true'] at h
    obtain ⟨rfl, rfl⟩ := h
    simp
  | cons c s ih =>
    obtain ⟨hsp, d', quoted', hs, hst, -⟩ := plain_cons h
    rw [cons_append, splitFrom, if_neg (by rw [hsp k]; exact false_ne_true), hst k, ih hs, append_assoc, singleton_append]

def joined : List Text → Text
  | [] => []
  | [s] => s
  | s :: t :: pieces => s ++ ',' :: joined (t :: pieces)

theorem splitTopLevel_joined (h : ∀ s ∈ pieces, plain 0 false s ∧ s ≠ []) : splitTopLevel (joined pieces) ',' = pieces := by
  unfold splitTopLevel
  induction pieces with
  | nil => rfl
  | cons s pieces ih =>
    obtain ⟨⟨hs, hne⟩, hrs⟩ := forall_mem_cons.mp h
    cases pieces with
    | nil =>
      have hre := @splitFrom_plain _ [] _ 0 _ [] hs
      simp only [append_nil, nil_append] at hre
      exact hre.trans (by simp [hne])
    | cons t pieces =>
      have hre := @splitFrom_plain _ (',' :: joined (t :: pieces)) _ 0 _ [] hs
      exact hre.trans (by simpa using ih hrs)

theorem plain_joined (h : ∀ s ∈ pieces, plain 0 false s) : plain (k + 1) false (joined pieces ++ t) = plain (k + 1) false t := by
  induction pieces with
  | nil => rfl
  | cons s pieces ih =>
    obtain ⟨hs, hrs⟩ := forall_mem_cons.mp h
    cases pieces with
    | nil => simpa [joined] using plain_append (k := k + 1) (t := t) hs
    | cons t' pieces =>
      have hre := plain_append (k := k + 1) (t := ',' :: (joined (t' :: pieces) ++ t)) hs
      rw [Nat.zero_add] at hre
      rw [joined, append_assoc, cons_append, hre, ← ih hrs]
      simp

theorem plain_group {before : Text} (hbe : plain 0 false before) (h : ∀ s ∈ pieces, plain 0 false s) :
    plain 0 false (before ++ '(' :: (joined pieces ++ [')'])) := by
  have hre := plain_append (k := 0) (t := '(' :: (joined pieces ++ [')'])) hbe
  rw [Nat.zero_add] at hre
  rw [hre]
  simp only [plain, Char.reduceEq, if_false, if_true]
  rw [plain_joined h]
  simp

theorem plain_of_no_special (h : ∀ c ∈ s, c ≠ '"' ∧ c ≠ '(' ∧ c ≠ ')' ∧ c ≠ ',') : plain 0 false s := by
  induction s with
  | nil => rfl
  | cons c s ih =>
    obtain ⟨⟨hqu, hop, hcl, hco⟩, hrs⟩ := forall_mem_cons.mp h
    simp [hqu, hop, hcl, hco, ih hrs]

/-! ## 空白を除く -/

theorem trim_eq (hfi : ∀ c, s.head? = some c → isSpace c = false) (hla : ∀ c, s.getLast? = some c → isSpace c = false) : trim s = s := by
  have hdr : ∀ {s : Text}, (∀ c, s.head? = some c → isSpace c = false) → s.dropWhile isSpace = s := by
    intro s h
    cases s with
    | nil => rfl
    | cons c s => simp [h c rfl]
  rw [trim, hdr hfi, hdr (by simpa using hla), reverse_reverse]

end Supacloud.LiteRest
