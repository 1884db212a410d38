import Supacloud.Diagnostics.Lemmas

/-! 診断の伏せ字の正しさ。 -/

namespace Supacloud.Diagnostics

open Contracts (JsString)

theorem byteLength_append (a b : List Char) : byteLength (a ++ b) = byteLength a + byteLength b := by simp [byteLength]

theorem byteLength_takePrefix {limit : ℤ} (text : List Char) (used : ℕ) (h : used ≤ limit) :
    used + byteLength (takePrefix limit text used) ≤ limit := by
  induction text generalizing used with
  | nil => simpa [takePrefix, byteLength] using h
  | cons c text ih =>
    rw [takePrefix]
    split
    next => simpa [byteLength] using h
    next hno =>
      have := ih (used + c.utf8Size) (by push_cast; omega)
      simp only [byteLength, List.map_cons, List.sum_cons] at this ⊢
      push_cast at this ⊢
      omega

theorem byteLength_bounded {maxBytes : ℕ} (text : List Char) (h : byteLength truncationMarker ≤ maxBytes) :
    byteLength (boundedUtf8Text text maxBytes) ≤ maxBytes := by
  unfold boundedUtf8Text
  split
  next hle => exact hle
  next =>
    have hlimit : (0 : ℕ) ≤ (maxBytes : ℤ) - byteLength truncationMarker := by omega
    have := byteLength_takePrefix text 0 hlimit
    rw [byteLength_append]
    omega

/-- 読み取るバイトは、左から最も長い型を替えた伏せ字の、初めの maxBytes + 1 バイトで、かたまりの切り方によらない。 -/
theorem redaction_exact (decode : Bytes → List Char) (secrets : List JsString) (chunks : List Bytes) (maxBytes : ℕ) :
    readCaptured secrets chunks maxBytes =
      (diagnosticSecretPatterns secrets).map (fun patterns => (redact patterns chunks.flatten).take (maxBytes + 1)) ∧
    (byteLength truncationMarker ≤ maxBytes → ∀ text, readRedactedBoundedText decode secrets chunks maxBytes = .ok text →
      byteLength text ≤ maxBytes) := by
  refine ⟨?_, fun hmarker text htext => ?_⟩
  · unfold readCaptured
    cases hp : diagnosticSecretPatterns secrets with
    | error e => rfl
    | ok patterns =>
      have hread : (readStream patterns maxBytes chunks [] {}).captured = ([] ++ redact patterns ([] ++ chunks.flatten)).take (maxBytes + 1) :=
        (ordered_patterns hp).readStream_captured chunks ⟨rfl, rfl⟩ (Nat.zero_le maxBytes)
      exact congrArg Except.ok hread
  · unfold readRedactedBoundedText at htext
    cases hc : readCaptured secrets chunks maxBytes with
    | error e => simp [hc, Except.map] at htext
    | ok captured =>
      simp only [hc, Except.map, Except.ok.injEq] at htext
      exact htext ▸ byteLength_bounded _ hmarker

end Supacloud.Diagnostics
