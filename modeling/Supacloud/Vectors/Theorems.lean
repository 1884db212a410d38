import Supacloud.Vectors.Lemmas.Agreement

/-!
# 付随データの絞り込みの性質
-/

namespace Supacloud.Vectors

open Contracts (JsString)
open Library

variable {byteLength : JsValue → ℕ} {queryVector : List JsNumber} {topK : ℕ} {filter metadata : JsValue}

theorem sendable_eq : sendable filter = (leaves filter).all leafSendable := rfl

/-- 行が選ばれるのは、行に入り、問い合わせが受け入れられ、データベースでの成否で読んだ絞り込みが成り立つ時である。 -/
theorem selects_eq (hf : ValidFilter filter) (hm : validateMetadata byteLength metadata = .ok ()) :
    selects queryVector topK filter metadata = (storable metadata && sendable filter && reading (sqlMeets metadata) filter) := by
  obtain ⟨p, added, hp, hok, hev⟩ := hf.compiles (annParams queryVector topK)
  rcases storedMetadata_eq hm with ⟨hs, stored, hsto, hst⟩ | ⟨hs, hsto⟩
  · have hall : (annParams queryVector topK ++ added).all SqlParam.accepted = sendable filter := by
      rw [List.all_append, hok, sendable_eq]
      rfl
    simp only [selects, hp, hsto, hall, hs, Bool.true_and]
    cases hse : sendable filter with
    | false => rfl
    | true =>
      obtain ⟨t, ht, htr⟩ := hev ⟨annParams queryVector topK ++ added, stored, none, none⟩ metadata hst (List.prefix_refl _) hse
      rw [ht, Bool.true_and, Bool.true_and, Bool.eq_iff_iff, Truth.holds_ok, htr]
  · simp [selects, hp, hsto, hs]

theorem lossyReading_eq (hf : ValidFilter filter) (hs : storable metadata = true) :
    lossyReading metadata filter = reading (sqlMeets metadata) filter :=
  hf.read_congr fun _ _ _ h => (sqlMeets_eq hs h).symm

theorem matchesFilter_eq (hf : ValidFilter filter) : matchesFilter metadata filter = .ok (localReading metadata filter) :=
  hf.matches_ok fun _ => rfl

/-- SQL の条件と手元の評価が一致するのは、食い違う条件が絞り込み全体の読みを変えない時、その時に限る。 -/
theorem filters_agree (hf : validateFilter true filter = .ok ()) (hm : validateMetadata byteLength metadata = .ok ()) :
    (selects queryVector topK filter metadata = true ↔ matchesFilter metadata filter = .ok true) ↔ Unaffected metadata filter := by
  have hva := validateFilter_ok hf
  have hlo : matchesFilter metadata filter = .ok true ↔ localReading metadata filter = true := by
    rw [matchesFilter_eq hva]
    simp
  rw [selects_eq hva hm, hlo, Unaffected]
  by_cases hs : storable metadata = true
  · grind [lossyReading_eq]
  · rw [if_neg fun h => hs h.1, Bool.eq_false_iff.mpr hs, Bool.false_and, Bool.false_and]
    simp

theorem filters_agree_number :
    (selects [.finite 1] 5 (.object [(js "a", .object [(js "$gt", .number (.finite 0))])]) (.object [(js "a", .number (.finite 1))]) = true ↔
      matchesFilter (.object [(js "a", .number (.finite 1))]) (.object [(js "a", .object [(js "$gt", .number (.finite 0))])]) = .ok true) ↔
      Unaffected (.object [(js "a", .number (.finite 1))]) (.object [(js "a", .object [(js "$gt", .number (.finite 0))])]) :=
  @filters_agree (fun _ => 7) _ _ _ _ rfl rfl

/-- `{"a": {"$ne": 1}}` は、付随データのないベクトルを、手元では選び、データベースでは選ばない。 -/
theorem absent_metadata_dropped : validateFilter true (.object [(js "a", .object [(js "$ne", .number (.finite 1))])]) = .ok () ∧
      validateMetadata (fun _ => 0) .undefined = .ok () ∧
      matchesFilter .undefined (.object [(js "a", .object [(js "$ne", .number (.finite 1))])]) = .ok true ∧
      selects [.finite 1] 5 (.object [(js "a", .object [(js "$ne", .number (.finite 1))])]) .undefined = false :=
  ⟨rfl, rfl, rfl, rfl⟩

end Supacloud.Vectors
