import Supacloud.Diagnostics.Redaction

/-! 途中までの読み取りと、流れの全体の伏せ字の対応。 -/

namespace Supacloud.Diagnostics

open List

open Contracts (JsString)

structure Ordered (patterns : List Bytes) : Prop where
  nonempty : ∀ p ∈ patterns, p ≠ []
  sorted : patterns.Pairwise fun left right => right.length ≤ left.length

variable {patterns : List Bytes} {maxBytes : ℕ} {out : Output} {total s d p pending : Bytes}

theorem ordered_patterns {secrets : List JsString} (h : diagnosticSecretPatterns secrets = .ok patterns) : Ordered patterns := by
  unfold diagnosticSecretPatterns at h
  split at h
  · cases h
  · cases h
    refine ⟨fun p hp => ?_, ?_⟩
    · simp only [mem_mergeSort, mem_filter, decide_eq_true_eq] at hp
      exact length_pos_iff.mp hp.2
    · refine (pairwise_mergeSort ?_ ?_ _).imp fun hle => of_decide_eq_true hle
      · intro a b c hab hbc
        simp only [decide_eq_true_eq] at *
        omega
      · intro a b
        simp only [Bool.or_eq_true, decide_eq_true_eq]
        omega

theorem Ordered.longest_pos (h : Ordered patterns) : 0 < longestPattern patterns := by
  cases patterns with
  | nil => exact Nat.one_pos
  | cons p rest => exact length_pos_iff.mpr (h.nonempty p mem_cons_self)

theorem Ordered.le_longest (h : Ordered patterns) (hp : p ∈ patterns) : p.length ≤ longestPattern patterns := by
  have hsorted := h.sorted
  cases patterns with
  | nil => cases hp
  | cons q rest =>
    rcases mem_cons.mp hp with rfl | hp
    · exact le_refl _
    · exact (pairwise_cons.mp hsorted).1 p hp

/-! ## 合う型 -/

theorem Ordered.find_eq (h : Ordered patterns) (hm : ∀ q ∈ patterns, q.isPrefixOf (d ++ s) = q.isPrefixOf d) :
    longestMatch patterns (d ++ s) = patterns.find? fun q => q.isPrefixOf d := by
  have hfilter : patterns.filter (·.isPrefixOf (d ++ s)) = patterns.filter (·.isPrefixOf d) := filter_congr hm
  rw [longestMatch, hfilter]
  cases hf : patterns.find? fun q => q.isPrefixOf d with
  | none =>
    rw [find?_eq_none] at hf
    rw [filter_eq_nil_iff.mpr hf, argmax_nil]
  | some p =>
    obtain ⟨hp, front, back, rfl, hno⟩ := find?_eq_some_iff_append.mp hf
    have hfront : front.filter (·.isPrefixOf d) = [] := filter_eq_nil_iff.mpr fun q hq => by rw [Bool.not_eq_true]; simpa using hno q hq
    have hback := (pairwise_append.mp h.sorted).2.1
    rw [filter_append, hfront, nil_append, filter_cons, if_pos hp, argmax_eq_some_iff]
    refine ⟨mem_cons_self, fun q hq => ?_, fun q hq _ => by simp⟩
    rcases mem_cons.mp hq with rfl | hq
    · exact le_refl _
    · exact (pairwise_cons.mp hback).1 q (mem_of_mem_filter hq)

theorem redactFrom_drop (skip : ℕ) (s : Bytes) : redactFrom patterns skip s = redact patterns (s.drop skip) := by
  induction skip generalizing s with
  | zero => rfl
  | succ skip ih =>
    cases s with
    | nil => rfl
    | cons b s => exact ih s

theorem Ordered.redact_append (h : Ordered patterns) (hroom : longestPattern patterns ≤ d.length ∨ s = []) (hd : d ≠ []) :
    redact patterns (d ++ s) = match patterns.find? fun q => q.isPrefixOf d with
      | some p => replacement ++ redact patterns (d.drop p.length ++ s)
      | none => d.take 1 ++ redact patterns (d.drop 1 ++ s) := by
  have hm : ∀ q ∈ patterns, q.isPrefixOf (d ++ s) = q.isPrefixOf d := by
    intro q hq
    rcases hroom with hle | rfl
    · have hlen := (h.le_longest hq).trans hle
      rw [Bool.eq_iff_iff, isPrefixOf_iff_prefix, isPrefixOf_iff_prefix, prefix_iff_eq_take, prefix_iff_eq_take,
        take_append_of_le_length hlen]
    · rw [append_nil]
  have hfind := h.find_eq hm
  obtain ⟨b, d, rfl⟩ := exists_cons_of_ne_nil hd
  rw [cons_append] at hfind ⊢
  rw [redact, redactFrom, hfind]
  cases hf : patterns.find? fun q => q.isPrefixOf (b :: d) with
  | none => rfl
  | some p =>
    have hpre : p <+: b :: d := by simpa using find?_some hf
    obtain ⟨c, p, rfl⟩ := exists_cons_of_ne_nil (h.nonempty p (mem_of_find?_eq_some hf))
    have hle : p.length ≤ d.length := by simpa using hpre.length_le
    simp [redactFrom_drop, length_cons, drop_succ_cons, drop_append_of_le_length hle]

/-! ## 読み取り -/

structure Captures (maxBytes : ℕ) (out : Output) (total : Bytes) : Prop where
  captured : out.captured = total.take (maxBytes + 1)
  outputBytes : out.outputBytes = total.length

theorem Captures.append (h : Captures maxBytes out total) (value : Bytes) : Captures maxBytes (appendOutput maxBytes out value) (total ++ value) := by
  refine ⟨?_, ?_⟩
  · rw [appendOutput, h.captured, h.outputBytes, take_append]
  · rw [appendOutput, h.outputBytes, length_append]

def Proceeds (patterns : List Bytes) (maxBytes : ℕ) (pending s whole : Bytes) (limit : ℕ) (r : ℕ × Output) : Prop :=
  ∃ total, Captures maxBytes r.2 total ∧ ((maxBytes < r.2.outputBytes ∧ total <+: whole) ∨
    (r.2.outputBytes ≤ maxBytes ∧ limit ≤ r.1 ∧ whole = total ++ redact patterns (pending.drop r.1 ++ s)))

theorem Ordered.redactPending_proceeds (h : Ordered patterns) (pending s : Bytes) (limit fuel offset : ℕ)
    (hroom : ∀ offset < limit, offset < pending.length ∧ (longestPattern patterns ≤ (pending.drop offset).length ∨ s = []))
    (hfuel : limit ≤ offset + fuel) (hout : Captures maxBytes out total) (hle : out.outputBytes ≤ maxBytes) :
    Proceeds patterns maxBytes pending s (total ++ redact patterns (pending.drop offset ++ s)) limit
      (redactPending patterns maxBytes pending limit fuel offset out) := by
  induction fuel generalizing offset out total with
  | zero => exact ⟨total, hout, .inr ⟨hle, hfuel, rfl⟩⟩
  | succ fuel ih =>
    rw [redactPending]
    split
    next hlt =>
      obtain ⟨hin, hlong⟩ := hroom offset hlt
      have hstep := h.redact_append hlong (ne_nil_of_length_pos (by rw [length_drop]; omega) : pending.drop offset ≠ [])
      -- 一つの値を出して、その幅だけ進む。
      have hnext : ∀ (value : Bytes) (width : ℕ), 0 < width →
          redact patterns (pending.drop offset ++ s) = value ++ redact patterns ((pending.drop offset).drop width ++ s) →
          Proceeds patterns maxBytes pending s (total ++ redact patterns (pending.drop offset ++ s)) limit
            (if (appendOutput maxBytes out value).outputBytes > maxBytes then (offset, appendOutput maxBytes out value)
              else redactPending patterns maxBytes pending limit fuel (offset + width) (appendOutput maxBytes out value)) := by
        intro value width hpos heq
        rw [heq, drop_drop, ← append_assoc]
        split
        next hgt => exact ⟨_, hout.append value, .inl ⟨hgt, prefix_append _ _⟩⟩
        next hno => exact ih _ (by omega) (hout.append value) (by omega)
      change _ = match patterns.find? (bytePatternMatches pending offset) with | some p => _ | none => _ at hstep
      cases hf : patterns.find? (bytePatternMatches pending offset) with
      | some p =>
        rw [hf] at hstep
        exact hnext _ _ (length_pos_iff.mpr (h.nonempty p (mem_of_find?_eq_some hf))) hstep
      | none =>
        rw [hf] at hstep
        exact hnext _ 1 Nat.one_pos hstep
    next hge => exact ⟨total, hout, .inr ⟨hle, by omega, rfl⟩⟩

theorem Ordered.readStream_captured (h : Ordered patterns) (chunks : List Bytes) (hout : Captures maxBytes out total)
    (hle : out.outputBytes ≤ maxBytes) : (readStream patterns maxBytes chunks pending out).captured =
      (total ++ redact patterns (pending ++ chunks.flatten)).take (maxBytes + 1) := by
  have stopped {out' : Output} {total' whole : Bytes} (hout : Captures maxBytes out' total') (hgt : maxBytes < out'.outputBytes)
      (hpre : total' <+: whole) : out'.captured = whole.take (maxBytes + 1) := by
    obtain ⟨rest, rfl⟩ := hpre
    rw [hout.captured, take_append_of_le_length (by have := hout.outputBytes; omega)]
  induction chunks generalizing pending out total with
  | nil =>
    obtain ⟨total', hout', ⟨hgt, hpre⟩ | ⟨-, hlim, heq⟩⟩ :=
      h.redactPending_proceeds pending [] pending.length pending.length 0 (fun _ hlt => ⟨hlt, .inr rfl⟩) (by omega) hout hle
    · exact stopped hout' hgt hpre
    · rw [drop_eq_nil_of_le hlim] at heq
      rw [readStream, hout'.captured, flatten_nil]
      simp only [drop_zero, nil_append] at heq
      rw [heq, show redact patterns [] = [] from rfl, append_nil]
  | cons chunk chunks ih =>
    rw [readStream, flatten_cons, ← append_assoc]
    generalize pending ++ chunk = pending
    have hpos := h.longest_pos
    have hproceeds := h.redactPending_proceeds pending chunks.flatten (pending.length + 1 - longestPattern patterns)
      (pending.length + 1 - longestPattern patterns) 0 (fun o ho => by rw [length_drop]; omega) (by omega) hout hle
    generalize redactPending patterns maxBytes pending _ _ 0 out = r at hproceeds ⊢
    obtain ⟨total', hout', ⟨hgt, hpre⟩ | ⟨hno, -, heq⟩⟩ := hproceeds
    · exact (congrArg Output.captured (if_pos hgt)).trans (stopped hout' hgt hpre)
    · exact (congrArg Output.captured (if_neg (Nat.not_lt.mpr hno))).trans ((ih hout' hno).trans (congrArg (take _) heq.symm))

end Supacloud.Diagnostics
