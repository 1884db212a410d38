import Supacloud.AuditChain.Lemmas.Chain
import Supacloud.Commands.Lemmas.Session

/-! # 正規の文字列と項目の順 -/

namespace Supacloud.Commands

open Contracts AuditChain JsValue CommandJson AuditChain List Option

/-! ## 鍵の順 -/

def codeUnits : Platform where
  localeCompare a b := if a < b then -1 else if b < a then 1 else 0
  toLowerCase := id
  redactAuditText := id
  toISOString _ := []
  sha256 _ := [0]

theorem codeUnits_le {a b} : codeUnits.localeCompare a b ≤ 0 ↔ a ≤ b := by
  rw [codeUnits, ← not_lt]
  dsimp only
  split
  · rename_i hlt
    exact iff_of_true (by decide) (List.lt_asymm hlt)
  · grind

theorem codeUnits_lawful : codeUnits.Lawful where
  total a b := by
    rw [codeUnits_le, codeUnits_le]
    exact List.le_total a b
  trans a b c hab hbc := by
    rw [codeUnits_le] at *
    exact List.le_trans hab hbc
  sha256_ne_nil _ := cons_ne_nil _ _

variable (es : List (JsString × Json))

theorem settled_codeUnits {entries} (h : (entries.map Prod.fst).Nodup) : Settled codeUnits entries := by
  have hdi : entries.Pairwise fun a b => a.1 ≠ b.1 := pairwise_map.mp h
  refine (hdi.filter _).imp fun hne hab hba => ?_
  rw [byLocale, codeUnits_le] at hab hba
  exact absurd (List.le_antisymm hab hba) hne

theorem insertEntry_perm (e : JsString × Json) (es : List (JsString × Json)) : (insertEntry e es).Perm (e :: es) := by
  induction es with
  | nil => exact .refl _
  | cons x xs ih =>
    unfold insertEntry
    split
    · exact (ih.cons x).trans (.swap e x xs)
    · exact .refl _

theorem insertEntry_sorted {e : JsString × Json} {es : List (JsString × Json)} (h : es.Pairwise (byLocale codeUnits)) :
    (insertEntry e es).Pairwise (byLocale codeUnits) := by
  induction es with
  | nil => exact pairwise_singleton _ _
  | cons x xs ih =>
    obtain ⟨hx, hxs⟩ := pairwise_cons.mp h
    unfold insertEntry
    split
    · rename_i hle
      refine pairwise_cons.mpr ⟨fun y hy => ?_, ih hxs⟩
      rcases mem_cons.mp ((insertEntry_perm e xs).mem_iff.mp hy) with rfl | hy
      · exact codeUnits_le.mpr hle
      · exact hx y hy
    · rename_i hle
      have hlt : byLocale codeUnits e x := codeUnits_le.mpr ((List.le_total x.1 e.1).resolve_left hle)
      exact pairwise_cons.mpr ⟨fun y hy => (mem_cons.mp hy).elim (fun h => h ▸ hlt)
        fun hy => codeUnits_lawful.trans _ _ _ hlt (hx y hy), h⟩

theorem sortEntries_sorted : (sortEntries es).Perm es ∧ (sortEntries es).Pairwise (byLocale codeUnits) := by
  suffices h : ∀ acc : List (JsString × Json), acc.Pairwise (byLocale codeUnits) →
      (es.foldl (fun acc e => insertEntry e acc) acc).Perm (acc ++ es) ∧ (es.foldl (fun acc e => insertEntry e acc) acc).Pairwise (byLocale codeUnits) from
    h [] List.Pairwise.nil
  induction es with
  | nil => exact fun acc h => ⟨by simp, h⟩
  | cons e es ih =>
    intro acc h
    obtain ⟨hpe, hso⟩ := ih (insertEntry e acc) (insertEntry_sorted h)
    exact ⟨hpe.trans (((insertEntry_perm e acc).append_right es).trans perm_middle.symm), hso⟩

theorem arrangeEntries_eq : arrangeEntries es = mapValues (fun _ => arrange) es := by
  induction es with
  | nil => rfl
  | cons e es ih => rw [arrangeEntries, ih, mapValues, mapValues, map_cons]

theorem arrange_sortEntries {es : List (JsString × Json)} (h : (es.map Prod.fst).Nodup) :
    arrangeEntries (sortEntries es) = (arrangeEntries es).insertionSort (byLocale codeUnits) := by
  have hto := total_byLocale codeUnits_lawful
  have htrs := trans_byLocale codeUnits_lawful
  obtain ⟨hpe, hso⟩ := sortEntries_sorted es
  rw [arrangeEntries_eq, arrangeEntries_eq]
  have hpe' : (mapValues (fun _ => arrange) (sortEntries es)).Perm ((mapValues (fun _ => arrange) es).insertionSort (byLocale codeUnits)) :=
    (mapValues_perm _ hpe).trans (perm_insertionSort _ _).symm
  refine hpe'.eq_of_pairwise (fun a b ha hb hab hba => ?_) (pairwise_map.mpr hso) (pairwise_insertionSort _ _)
  have hkey : a.1 = b.1 := List.le_antisymm (codeUnits_le.mp hab) (codeUnits_le.mp hba)
  have hnd : ((mapValues (fun _ => arrange) (sortEntries es)).map Prod.fst).Nodup := by
    rw [mapValues_keys]
    exact (hpe.map Prod.fst).nodup_iff.mpr h
  exact inj_on_of_nodup_map hnd ha (hpe'.mem_iff.mpr hb) hkey

/-! ## 読める値 -/

mutual
theorem visit_data : ∀ (v : JsValue) {d : ℕ} {c : Json}, v.visit d = some c → ∃ j : Json, v = j.toValue
  | .null, _, _, _ => ⟨.null, rfl⟩
  | .boolean b, _, _, _ => ⟨.boolean b, rfl⟩
  | .number n, _, _, _ => ⟨.number n, rfl⟩
  | .string s, _, _, _ => ⟨.string s, rfl⟩
  | .array items, d, c, h => by
    simp only [visit, ite_none_left_eq_some, map_eq_some_iff] at h
    obtain ⟨-, cs, hcs, -⟩ := h
    obtain ⟨js, rfl⟩ := visitItems_data items hcs
    exact ⟨.array js, rfl⟩
  | .object entries, d, c, h => by
    simp only [visit, ite_none_left_eq_some, map_eq_some_iff] at h
    obtain ⟨-, cs, hcs, -⟩ := h
    obtain ⟨js, rfl⟩ := visitEntries_data entries hcs
    exact ⟨.object js, rfl⟩

theorem visitItems_data : ∀ (vs : List JsValue) {d : ℕ} {cs : List Json}, visitItems vs d = some cs →
    ∃ js : List Json, vs = toValues js
  | [], _, _, _ => ⟨[], rfl⟩
  | v :: vs, d, cs, h => by
    simp only [visitItems, bind_eq_bind, bind_eq_some_iff] at h
    obtain ⟨c, hc, cs', hcs, -⟩ := h
    obtain ⟨j, rfl⟩ := visit_data v hc
    obtain ⟨js, rfl⟩ := visitItems_data vs hcs
    exact ⟨j :: js, rfl⟩

theorem visitEntries_data : ∀ (es : List (JsString × JsValue)) {d : ℕ} {cs : List (JsString × Json)}, visitEntries es d = some cs →
    ∃ js : List (JsString × Json), es = toEntries js
  | [], _, _, _ => ⟨[], rfl⟩
  | (k, v) :: es, d, cs, h => by
    simp only [visitEntries, bind_eq_bind, bind_eq_some_iff] at h
    obtain ⟨c, hc, cs', hcs, -⟩ := h
    obtain ⟨j, rfl⟩ := visit_data v hc
    obtain ⟨js, rfl⟩ := visitEntries_data es hcs
    exact ⟨(k, j) :: js, rfl⟩
end

mutual
def Shallow : Json → ℕ → Prop
  | .array items, d => d ≤ 100 ∧ ShallowItems items (d + 1)
  | .object entries, d => d ≤ 100 ∧ ShallowEntries entries (d + 1)
  | .null, d | .boolean _, d | .number _, d | .string _, d => d ≤ 100

def ShallowItems : List Json → ℕ → Prop
  | [], _ => True
  | item :: items, d => Shallow item d ∧ ShallowItems items d

def ShallowEntries : List (JsString × Json) → ℕ → Prop
  | [], _ => True
  | (_, value) :: entries, d => Shallow value d ∧ ShallowEntries entries d
end

theorem shallowItems_iff {items d} : ShallowItems items d ↔ ∀ j ∈ items, Shallow j d := by
  induction items with
  | nil => simp [ShallowItems]
  | cons item items ih => rw [ShallowItems, ih, forall_mem_cons]

theorem shallowEntries_iff {d} : ShallowEntries entries d ↔ ∀ e ∈ entries, Shallow e.2 d := by
  induction entries with
  | nil => simp [ShallowEntries]
  | cons e entries ih => rw [ShallowEntries, ih, forall_mem_cons]

mutual
theorem visit_toValue : ∀ (j) {d}, (Shallow j d ↔ (j.toValue.visit d).isSome) ∧
    ∀ c, j.toValue.visit d = some c → Distinct j → arrange c = canonicalize codeUnits j
  | .null, d | .boolean _, d | .number _, d | .string _, d => by
    by_cases hd : d ≤ 100
    · simp [toValue, visit, Shallow, hd, arrange, canonicalize]
    · simp [toValue, visit, Shallow, hd]
  | .array items, d => by
    obtain ⟨hsm, hre⟩ := visitItems_toValues items (d := d + 1)
    simp only [toValue, visit, Shallow, hsm, AuditChain.Distinct]
    by_cases hd : d ≤ 100
    · rw [if_neg (Nat.not_lt.mpr hd)]
      refine ⟨by simp [hd], fun c hc hdi => ?_⟩
      obtain ⟨cs, hcs, rfl⟩ := map_eq_some_iff.mp hc
      rw [arrange, canonicalize, hre cs hcs hdi]
    · simp [hd]
  | .object entries, d => by
    obtain ⟨hsm, hre⟩ := visitEntries_toEntries entries (d := d + 1)
    simp only [toValue, visit, Shallow, hsm, AuditChain.Distinct]
    by_cases hd : d ≤ 100
    · rw [if_neg (Nat.not_lt.mpr hd)]
      refine ⟨by simp [hd], fun c hc hdi => ?_⟩
      obtain ⟨cs, hcs, rfl⟩ := map_eq_some_iff.mp hc
      obtain ⟨hke, heq⟩ := hre cs hcs hdi.2
      rw [arrange, canonicalize, arrange_sortEntries (hke ▸ hdi.1), heq]
    · simp [hd]

theorem visitItems_toValues : ∀ (items) {d}, (ShallowItems items d ↔ (visitItems (toValues items) d).isSome) ∧
    ∀ cs, visitItems (toValues items) d = some cs → DistinctItems items →
      arrangeItems cs = canonicalizeItems codeUnits items
  | [], d => ⟨by simp [ShallowItems, toValues, visitItems], fun cs hcs _ => by
      cases hcs
      rfl⟩
  | item :: items, d => by
    obtain ⟨hsm, hre⟩ := visit_toValue item (d := d)
    obtain ⟨hso', hre'⟩ := visitItems_toValues items (d := d)
    simp only [toValues, visitItems, ShallowItems, hsm, hso', DistinctItems, bind_eq_bind, bind_eq_some_iff]
    refine ⟨?_, ?_⟩
    · cases item.toValue.visit d <;> cases visitItems (toValues items) d <;> simp
    · rintro cs ⟨c, hc, cs', hcs, heq⟩ ⟨hdi, hdis⟩
      cases heq
      rw [arrangeItems, canonicalizeItems, hre c hc hdi, hre' cs' hcs hdis]

theorem visitEntries_toEntries : ∀ (entries) {d},
    (ShallowEntries entries d ↔ (visitEntries (toEntries entries) d).isSome) ∧
    ∀ cs, visitEntries (toEntries entries) d = some cs → DistinctEntries entries →
      cs.map Prod.fst = entries.map Prod.fst ∧ arrangeEntries cs = canonicalizeEntries codeUnits entries
  | [], d => ⟨by simp [ShallowEntries, toEntries, visitEntries], fun cs hcs _ => by
      cases hcs
      exact ⟨rfl, rfl⟩⟩
  | (key, value) :: entries, d => by
    obtain ⟨hsm, hre⟩ := visit_toValue value (d := d)
    obtain ⟨hso', hre'⟩ := visitEntries_toEntries entries (d := d)
    simp only [toEntries, visitEntries, ShallowEntries, hsm, hso', DistinctEntries, bind_eq_bind, bind_eq_some_iff]
    refine ⟨?_, ?_⟩
    · cases value.toValue.visit d <;> cases visitEntries (toEntries entries) d <;> simp
    · rintro cs ⟨c, hc, cs', hcs, heq⟩ ⟨hdi, hdis⟩
      cases heq
      obtain ⟨hke, har⟩ := hre' cs' hcs hdis
      exact ⟨by rw [map_cons, map_cons, hke], by rw [arrangeEntries, canonicalizeEntries, hre c hc hdi, har]⟩
end

/-! ## 項目の順だけの違い -/

theorem distinctItems_iff {items} : DistinctItems items ↔ ∀ j ∈ items, Distinct j := by
  induction items with
  | nil => simp [DistinctItems]
  | cons item items ih => rw [DistinctItems, ih, forall_mem_cons]

theorem canonicalizeItems_eq (items) : canonicalizeItems codeUnits items = items.map (canonicalize codeUnits) := by
  induction items with
  | nil => rfl
  | cons item items ih => rw [canonicalizeItems, ih, map_cons]

theorem same_canonical {a b} (h : SameJson a b) : (Distinct a ↔ Distinct b) ∧ (∀ d, Shallow a d ↔ Shallow b d) ∧
    (Distinct a → canonicalize codeUnits a = canonicalize codeUnits b) := by
  induction h with
  | refl value => exact ⟨Iff.rfl, fun _ => Iff.rfl, fun _ => rfl⟩
  | symm _ ih => exact ⟨ih.1.symm, fun d => (ih.2.1 d).symm, fun h => (ih.2.2 (ih.1.mpr h)).symm⟩
  | trans _ _ ih ih' =>
    exact ⟨ih.1.trans ih'.1, fun d => (ih.2.1 d).trans (ih'.2.1 d), fun h => (ih.2.2 h).trans (ih'.2.2 (ih.1.mp h))⟩
  | item front back _ ih =>
    refine ⟨?_, fun d => ?_, fun h => ?_⟩
    · simp only [AuditChain.Distinct, distinctItems_iff, forall_mem_append, forall_mem_cons, ih.1]
    · simp only [Shallow, shallowItems_iff, forall_mem_append, forall_mem_cons, ih.2.1 (d + 1)]
    · have ha := ih.2.2 (distinctItems_iff.mp h _ (by simp))
      simp [canonicalize, canonicalizeItems_eq, ha]
  | entry key front back _ ih =>
    refine ⟨?_, fun d => ?_, fun h => ?_⟩
    · simp only [AuditChain.Distinct, distinctEntries_iff, map_append, map_cons, forall_mem_append, forall_mem_cons, ih.1]
    · simp only [Shallow, shallowEntries_iff, forall_mem_append, forall_mem_cons, ih.2.1 (d + 1)]
    · have ha := ih.2.2 (distinctEntries_iff.mp h.2 _ (mem_append_right front mem_cons_self))
      simp [canonicalize, canonicalizeEntries_eq, mapValues, ha]
  | order hpe =>
    refine ⟨?_, fun d => ?_, fun h => ?_⟩
    · simp [AuditChain.Distinct, distinctEntries_iff, (hpe.map Prod.fst).nodup_iff, hpe.mem_iff]
    · simp [Shallow, shallowEntries_iff, hpe.mem_iff]
    · have hke : ∀ {es}, (es.map Prod.fst).Nodup → ((canonicalizeEntries codeUnits es).map Prod.fst).Nodup := by
        intro es hes
        rwa [canonicalizeEntries_eq, mapValues_keys]
      have hno' := (hpe.map Prod.fst).nodup_iff.mp h.1
      have hpe' := mapValues_perm (fun _ => canonicalize codeUnits) hpe
      rw [← canonicalizeEntries_eq, ← canonicalizeEntries_eq] at hpe'
      rw [canonicalize, canonicalize,
        canonical_eq codeUnits_lawful hpe' (hke h.1) (settled_codeUnits (hke h.1)) (settled_codeUnits (hke hno'))]

theorem canonicalText_toValue {j text} (hj : Distinct j) (h : canonicalText j.toValue = some text) :
    Shallow j 0 ∧ text = canonicalize codeUnits j := by
  obtain ⟨c, hc, rfl⟩ := map_eq_some_iff.mp h
  obtain ⟨hsm, hre⟩ := visit_toValue j (d := 0)
  exact ⟨hsm.mpr (isSome_of_eq_some hc), hre c hc hj⟩

theorem canonicalText_of_shallow {j} (hj : Distinct j) (h : Shallow j 0) : canonicalText j.toValue = some (canonicalize codeUnits j) := by
  obtain ⟨hsm, hre⟩ := visit_toValue j (d := 0)
  obtain ⟨c, hc⟩ := isSome_iff_exists.mp (hsm.mp h)
  exact map_eq_some_iff.mpr ⟨c, hc, hre c hc hj⟩

end Supacloud.Commands
