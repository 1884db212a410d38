import Supacloud.AuditChain.Values

/-!
# 項目の順
-/

namespace Supacloud.AuditChain

open Library List

open Contracts (JsString)

open Vectors (js)

variable {platform : Platform} {entries entries' : List (JsString × Json)} {a b : JsString × Json}

variable (f : JsString → Json → Json)

def mapValues (entries : List (JsString × Json)) : List (JsString × Json) :=
  entries.map fun e => (e.1, f e.1 e.2)

theorem mapValues_keys : (mapValues f entries).map Prod.fst = entries.map Prod.fst := by
  rw [mapValues, map_map]
  rfl

theorem filter_mapValues (p : JsString → Bool) :
    (mapValues f entries).filter (fun e => p e.1) = mapValues f (entries.filter fun e => p e.1) := by
  rw [mapValues, filter_map, mapValues]
  rfl

theorem enumerate_perm : (enumerate entries).Perm entries := by
  have hsp : (entries.filter (fun e => isArrayIndex e.1) ++ entries.filter (fun e => !isArrayIndex e.1)).Perm entries :=
    filter_append_perm _ entries
  exact ((perm_insertionSort byIndex _).append_right _).trans hsp

theorem enumerate_names : (enumerate entries).filter (fun e => !isArrayIndex e.1) = entries.filter fun e => !isArrayIndex e.1 := by
  rw [enumerate, filter_append]
  have hno : ((entries.filter fun e => isArrayIndex e.1).insertionSort byIndex).filter (fun e => !isArrayIndex e.1) = [] := by simp
  rw [hno, nil_append, filter_filter]
  simp

theorem keys_nodup_perm (h : entries.Perm entries') : (entries.map Prod.fst).Nodup ↔ (entries'.map Prod.fst).Nodup :=
  (h.map Prod.fst).nodup_iff

theorem isArrayIndex_inj {x y} (hx : isArrayIndex x = true) (hy : isArrayIndex y = true) (h : indexValue x = indexValue y) : x = y := by
  simp only [isArrayIndex, Bool.and_eq_true, beq_iff_eq] at hx hy
  rw [← hx.2, ← hy.2, h]

instance : Std.Total byIndex := ⟨fun _ _ => Nat.le_total _ _⟩

instance : IsTrans (JsString × Json) byIndex := ⟨fun _ _ _ hab hbc => Nat.le_trans hab hbc⟩

theorem sort_index_eq (hpe : entries.Perm entries') (hnd : (entries.map Prod.fst).Nodup)
    (hind : ∀ e ∈ entries, isArrayIndex e.1 = true) : entries.insertionSort byIndex = entries'.insertionSort byIndex := by
  have hap : ∀ {l : List (JsString × Json)}, (l.map Prod.fst).Nodup → (∀ e ∈ l, isArrayIndex e.1 = true) →
      (l.filter fun _ => true).Pairwise fun a b => byIndex a b → byIndex b a → False := by
    intro l hl hl'
    rw [filter_true]
    refine List.Pairwise.imp_of_mem ?_ (pairwise_map.mp hl)
    intro a b ha hb hne hab hba
    exact hne (isArrayIndex_inj (hl' a ha) (hl' b hb) (Nat.le_antisymm hab hba))
  have heq := filter_sort_eq (r := byIndex) (s := fun _ _ => False) (p := fun _ => true) hpe (List.Nodup.of_map _ hnd)
    (fun _ _ h _ => h) (hap hnd hind)
    (hap ((keys_nodup_perm hpe).mp hnd) fun e he => hind e (hpe.mem_iff.mpr he))
  simpa using heq

/-! ## 比べて等しい鍵 -/

theorem total_byLocale (h : platform.Lawful) : Std.Total (byLocale platform) := ⟨fun a b => h.total a.1 b.1⟩

theorem trans_byLocale (h : platform.Lawful) : IsTrans (JsString × Json) (byLocale platform) := ⟨fun a b c => h.trans a.1 b.1 c.1⟩

instance : Std.Total byJsonbKey where
  total a b := by
    rcases Nat.lt_trichotomy (utf8 a.1).length (utf8 b.1).length with h | h | h
    · exact .inl (.inl h)
    · exact (le_total (utf8 a.1) (utf8 b.1)).imp (fun hle => .inr ⟨h, hle⟩) fun hle => .inr ⟨h.symm, hle⟩
    · exact .inr (.inl h)

instance : IsTrans (JsString × Json) byJsonbKey where
  trans a b c := by
    rintro (hab | ⟨hab, hle⟩) (hbc | ⟨hbc, hle'⟩)
    · exact .inl (hab.trans hbc)
    · exact .inl (hbc ▸ hab)
    · exact .inl (hab ▸ hbc)
    · exact .inr ⟨hab.trans hbc, hle.trans hle'⟩

theorem settled_mapValues : Settled platform (mapValues f entries) ↔ Settled platform entries := by
  rw [Settled, filter_mapValues f fun key => !isArrayIndex key, mapValues, pairwise_map]
  rfl

theorem settled_enumerate : Settled platform (enumerate entries) ↔ Settled platform entries := by
  rw [Settled, enumerate_names, Settled]

theorem canonical_eq (hpl : platform.Lawful) (hpe : entries.Perm entries') (hnd : (entries.map Prod.fst).Nodup)
    (h : Settled platform entries) (h' : Settled platform entries') :
    enumerate (entries.insertionSort (byLocale platform)) = enumerate (entries'.insertionSort (byLocale platform)) := by
  have hto := total_byLocale hpl
  have htrs := trans_byLocale hpl
  have hso : (entries.insertionSort (byLocale platform)).Perm (entries'.insertionSort (byLocale platform)) :=
    (perm_insertionSort _ entries).trans (hpe.trans (perm_insertionSort _ entries').symm)
  have hnas : (entries.insertionSort (byLocale platform)).filter (fun e => !isArrayIndex e.1) =
      (entries'.insertionSort (byLocale platform)).filter fun e => !isArrayIndex e.1 := by
    refine filter_sort_eq (s := fun a b => ¬ byJsonbKey b a) hpe (List.Nodup.of_map _ hnd) ?_ h h'
    intro a b hab hba
    rcases Std.Total.total (r := byJsonbKey) a b with hle | hle
    · exact hba hle
    · exact hab hle
  rw [enumerate, enumerate, hnas]
  congr 1
  refine sort_index_eq (hso.filter _) ?_ fun e he => (mem_filter.mp he).2
  have hke := (keys_nodup_perm (perm_insertionSort (byLocale platform) entries)).mpr hnd
  exact hke.sublist (filter_sublist.map _)

theorem settled_sort (hnd : (entries.map Prod.fst).Nodup) (h : Settled platform entries) :
    Settled platform (entries.insertionSort byJsonbKey) := by
  have hdi : (entries.insertionSort byJsonbKey).Nodup :=
    (perm_insertionSort byJsonbKey entries).nodup_iff.mpr (List.Nodup.of_map _ hnd)
  have hso := ((pairwise_insertionSort byJsonbKey entries).and hdi).sublist
    (filter_sublist (p := fun e => !isArrayIndex e.1))
  refine hso.imp_of_mem fun {a b} ha hb hle htie hti' => ?_
  have hmem : ∀ e ∈ (entries.insertionSort byJsonbKey).filter (fun e => !isArrayIndex e.1), e ∈ entries.filter fun e => !isArrayIndex e.1 :=
    fun e he => ((perm_insertionSort byJsonbKey entries).filter _).mem_iff.mp he
  rcases pair_sublist_or (hmem a ha) (hmem b hb) hle.2 with hfi | hfi
  · exact pairwise_iff_forall_sublist.mp h hfi htie hti'
  · exact absurd hle.1 (pairwise_iff_forall_sublist.mp h hfi hti' htie)

/-!
## 正規化と jsonb
-/

open Contracts (JsString CommandJson)

open Vectors (js)

variable {platform : Platform} {entries entries' : List (JsString × Json)}

theorem canonicalizeEntries_eq : canonicalizeEntries platform entries = mapValues (fun _ => canonicalize platform) entries := by
  induction entries with
  | nil => rfl
  | cons e entries ih => rw [canonicalizeEntries, ih, mapValues, mapValues, map_cons]

theorem roundTripEntries_eq : roundTripEntries entries = mapValues (fun _ => roundTrip) entries := by
  induction entries with
  | nil => rfl
  | cons e entries ih => rw [roundTripEntries, ih, mapValues, mapValues, map_cons]

def redactField (platform : Platform) (key : JsString) (value : Json) : Json :=
  if isSensitiveKey platform key then .string (js "[REDACTED]") else redactAuditValue platform value

theorem redactEntries_eq : redactEntries platform entries = mapValues (redactField platform) entries := by
  induction entries with
  | nil => rfl
  | cons e entries ih => rw [redactEntries, ih, mapValues, mapValues, map_cons, redactField]

theorem mapValues_perm (h : entries.Perm entries') : (mapValues f entries).Perm (mapValues f entries') := h.map _

/-! ## 並びの保たれた値 -/

mutual
def AllSettled (platform : Platform) : Json → Prop
  | .array items => AllSettledItems platform items
  | .object entries => Settled platform entries ∧ AllSettledEntries platform entries
  | .null | .boolean _ | .number _ | .string _ => True

def AllSettledItems (platform : Platform) : List Json → Prop
  | [] => True
  | item :: items => AllSettled platform item ∧ AllSettledItems platform items

def AllSettledEntries (platform : Platform) : List (JsString × Json) → Prop
  | [] => True
  | (_, value) :: entries => AllSettled platform value ∧ AllSettledEntries platform entries
end

theorem allSettledEntries_iff : AllSettledEntries platform entries ↔ ∀ e ∈ entries, AllSettled platform e.2 := by
  induction entries with
  | nil => simp [AllSettledEntries]
  | cons e entries ih => simp [AllSettledEntries, ih]

theorem distinctEntries_iff : DistinctEntries entries ↔ ∀ e ∈ entries, Distinct e.2 := by
  induction entries with
  | nil => simp [DistinctEntries]
  | cons e entries ih => simp [DistinctEntries, ih]

mutual
theorem canonicalize_roundTrip (hpl : platform.Lawful) : ∀ value, Distinct value → AllSettled platform value →
    canonicalize platform (roundTrip value) = canonicalize platform value
  | .array items, hdi, hse => by
      rw [roundTrip, canonicalize, canonicalize, canonicalizeItems_roundTrip hpl items hdi hse]
  | .object entries, ⟨hnd, hdi⟩, ⟨hse, hall⟩ => by
      have hvas := canonicalizeEntries_roundTrip hpl entries hdi hall
      rw [canonicalizeEntries_eq, canonicalizeEntries_eq, roundTripEntries_eq] at hvas
      have hpe : (enumerate ((mapValues (fun _ => roundTrip) entries).insertionSort byJsonbKey)).Perm
          (mapValues (fun _ => roundTrip) entries) := enumerate_perm.trans (perm_insertionSort _ _)
      have hke : ((mapValues (fun _ => roundTrip) entries).map Prod.fst).Nodup := by
        rw [mapValues_keys]
        exact hnd
      have hre : Settled platform (enumerate ((mapValues (fun _ => roundTrip) entries).insertionSort byJsonbKey)) :=
        settled_enumerate.mpr (settled_sort hke ((settled_mapValues _).mpr hse))
      rw [roundTrip, canonicalize, canonicalize, canonicalizeEntries_eq, canonicalizeEntries_eq, roundTripEntries_eq]
      congr 1
      refine canonical_eq hpl ?_ ?_ ((settled_mapValues _).mpr hre) ((settled_mapValues _).mpr hse)
      · rw [← hvas]
        exact mapValues_perm _ hpe
      · rw [mapValues_keys]
        exact (keys_nodup_perm hpe).mpr hke
  | .null, _, _ => rfl
  | .boolean _, _, _ => rfl
  | .number _, _, _ => rfl
  | .string _, _, _ => rfl

theorem canonicalizeItems_roundTrip (hpl : platform.Lawful) : ∀ items, DistinctItems items →
    AllSettledItems platform items → canonicalizeItems platform (roundTripItems items) = canonicalizeItems platform items
  | [], _, _ => rfl
  | item :: items, ⟨hit, hits⟩, ⟨hse, hrs⟩ => by
      rw [roundTripItems, canonicalizeItems, canonicalizeItems, canonicalize_roundTrip hpl item hit hse,
        canonicalizeItems_roundTrip hpl items hits hrs]

theorem canonicalizeEntries_roundTrip (hpl : platform.Lawful) : ∀ entries : List (JsString × Json), DistinctEntries entries →
    AllSettledEntries platform entries → canonicalizeEntries platform (roundTripEntries entries) = canonicalizeEntries platform entries
  | [], _, _ => rfl
  | (key, value) :: entries, ⟨hva, hens⟩, ⟨hse, hrs⟩ => by
      rw [roundTripEntries, canonicalizeEntries, canonicalizeEntries, canonicalize_roundTrip hpl value hva hse,
        canonicalizeEntries_roundTrip hpl entries hens hrs]
end

/-! ## 伏せ字のあと -/

theorem assign_perm : (assign entries).Perm (entries.filter fun e => e.1 != protoKey) := enumerate_perm

mutual
theorem distinct_redact : ∀ value, Distinct value → Distinct (redactAuditValue platform value)
  | .array items, h => by
      rw [redactAuditValue]
      exact distinct_redactItems items h
  | .object entries, ⟨hnd, hdi⟩ => by
      have hvas := distinct_redactEntries entries hdi
      rw [redactAuditValue]
      refine ⟨?_, distinctEntries_iff.mpr fun e he => ?_⟩
      · grind [keys_nodup_perm, assign_perm, redactEntries_eq, mapValues_keys]
      · exact distinctEntries_iff.mp hvas e (mem_filter.mp (assign_perm.mem_iff.mp he)).1
  | .null, _ => trivial
  | .boolean _, _ => trivial
  | .number _, _ => trivial
  | .string _, _ => trivial

theorem distinct_redactItems : ∀ items, DistinctItems items → DistinctItems (redactItems platform items)
  | [], _ => trivial
  | item :: items, ⟨hit, hits⟩ => ⟨distinct_redact item hit, distinct_redactItems items hits⟩

theorem distinct_redactEntries : ∀ entries : List (JsString × Json), DistinctEntries entries →
    DistinctEntries (redactEntries platform entries)
  | [], _ => trivial
  | (key, value) :: entries, ⟨hva, hens⟩ => by
      refine ⟨?_, distinct_redactEntries entries hens⟩
      split
      · trivial
      · exact distinct_redact value hva
end

mutual
theorem settled_redact : ∀ value, Ordered platform value → AllSettled platform (redactAuditValue platform value)
  | .array items, h => by
      rw [redactAuditValue]
      exact settled_redactItems items h
  | .object entries, ⟨hse, hor⟩ => by
      have hvas := settled_redactEntries entries hor
      rw [redactAuditValue]
      refine ⟨?_, allSettledEntries_iff.mpr fun e he => ?_⟩
      · rw [assign, settled_enumerate, redactEntries_eq, filter_mapValues (redactField platform) fun key => key != protoKey,
          settled_mapValues]
        exact hse
      · obtain ⟨hmem, hkey⟩ := mem_filter.mp (assign_perm.mem_iff.mp he)
        exact hvas e hmem (by simpa using hkey)
  | .null, _ => trivial
  | .boolean _, _ => trivial
  | .number _, _ => trivial
  | .string _, _ => trivial

theorem settled_redactItems : ∀ items, OrderedItems platform items → AllSettledItems platform (redactItems platform items)
  | [], _ => trivial
  | item :: items, ⟨hit, hits⟩ => ⟨settled_redact item hit, settled_redactItems items hits⟩

theorem settled_redactEntries : ∀ entries : List (JsString × Json), OrderedEntries platform entries →
    ∀ e ∈ redactEntries platform entries, e.1 ≠ protoKey → AllSettled platform e.2
  | [], _ => nofun
  | (key, value) :: entries, ⟨hva, hens⟩ => by
      intro e he hkey
      rw [redactEntries] at he
      rcases mem_cons.mp he with rfl | he
      · dsimp only at hkey ⊢
        split
        · trivial
        · rename_i hsn
          rcases hva with hpr | hse' | hor
          · exact absurd hpr hkey
          · exact absurd hse' hsn
          · exact settled_redact value hor
      · exact settled_redactEntries entries hens e he hkey
end

end Supacloud.AuditChain
