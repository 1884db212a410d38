import Mathlib.Data.List.Pairwise
import Supacloud.S3Handler.Listing

/-!
# 一覧の頁
-/

namespace Supacloud.S3Handler

open List Library
open ListParams (follow)

theorem like_escapeLikePrefix (v s : Text) : like (escapeLikePrefix v ++ ['%']) s ↔ v <+: s := by
  induction v generalizing s with
  | nil => simp [escapeLikePrefix, replaceAll, like]
  | cons c v ih =>
    have hcons : escapeLikePrefix (c :: v) = (if c = '\\' ∨ c = '%' ∨ c = '_' then ['\\', c] else [c]) ++ escapeLikePrefix v := by
      by_cases h1 : c = '\\'
      · simp [escapeLikePrefix, replaceAll, h1]
      by_cases h2 : c = '%'
      · simp [escapeLikePrefix, replaceAll, h2]
      by_cases h3 : c = '_' <;> simp [escapeLikePrefix, replaceAll, h1, h2, h3]
    rw [hcons]
    by_cases hc : c = '\\' ∨ c = '%' ∨ c = '_'
    · cases s with
      | nil => simp [hc, like]
      | cons d s => simp [hc, like, ih, cons_prefix_cons]
    · cases s with
      | nil => simp_all [like]
      | cons d s => simp_all [like, cons_prefix_cons]

variable {K : Type} [LinearOrder K] {P : Platform K} {b : Names} {q : ListParams} {k : ℕ} {token : Option Text} {after : Text}

theorem sorted_matching : (matching P b q after).Pairwise (P.collate · < P.collate ·) := by
  have hle := pairwise_insertionSort (P.collate · ≤ P.collate ·) b.names
  have hne : (b.names.insertionSort (P.collate · ≤ P.collate ·)).Nodup := (perm_insertionSort _ _).nodup_iff.mpr b.nodup
  exact ((hle.and hne).imp fun ⟨h, hn⟩ => lt_of_le_of_ne h fun he => hn (P.collate_injective he)).filter _

theorem mem_matching (name : Text) : name ∈ matching P b q after ↔ name ∈ b.names ∧ q.namePrefix.getD [] <+: name ∧ P.collate after < P.collate name := by
  simp [matching]

theorem matching_getLast {l r : List Text} (h : matching P b q after = l ++ r) (hl : l ≠ []) : matching P b q (l.getLast hl) = r := by
  have hlast : P.collate after < P.collate (l.getLast hl) := ((mem_matching _).mp (h ▸ mem_append_left r (getLast_mem hl))).2.2
  have hfilter : matching P b q (l.getLast hl) = (matching P b q after).filter (P.collate (l.getLast hl) < P.collate ·) := by
    rw [matching, matching, filter_filter]
    refine filter_congr fun name _ => ?_
    have : P.collate (l.getLast hl) < P.collate name → P.collate after < P.collate name := hlast.trans
    simp only [← Bool.decide_and, decide_eq_decide]
    tauto
  have hsorted : (matching P b q after).Pairwise _ := sorted_matching
  rw [h, pairwise_append] at hsorted
  have hleft : l.filter (P.collate (l.getLast hl) < P.collate ·) = [] := by
    refine filter_eq_nil_iff.mpr fun name hname => by
      simpa using (hsorted.1.imp le_of_lt).rel_getLast_of_rel_getLast_getLast hname le_rfl
  have hright : r.filter (P.collate (l.getLast hl) < P.collate ·) = r :=
    filter_eq_self.mpr fun name hname => decide_eq_true (hsorted.2.2 _ (getLast_mem hl) _ hname)
  rw [hfilter, h, filter_append, hleft, hright, nil_append]

/-! ## 頁の連なり -/

def ListParams.content (q : ListParams) (c : List Text) : List Text × Finset Text := (c.filter (q.group · = none), (c.filterMap q.group).toFinset)

theorem after_toBase64url {name : Text} (hname : name ≠ []) : q.after P (some (P.toBase64url name)) = name := by
  have htoken : P.toBase64url name ≠ [] := fun h => hname <| calc
    name = P.fromBase64url (P.toBase64url name) := (P.fromBase64url_toBase64url name).symm
    _ = P.fromBase64url (P.toBase64url []) := by rw [h, P.toBase64url_nil]
    _ = [] := P.fromBase64url_toBase64url []
  rw [ListParams.after, if_neg htoken, P.fromBase64url_toBase64url]

theorem ne_nil_of_mem_matching {name : Text} (h : name ∈ matching P b q after) : name ≠ [] := by
  rintro rfl
  exact absurd ((mem_matching _).mp h).2.2 (P.collate_nil_le after).not_gt

theorem clampKeys_nonneg (n : Number) : 0 ≤ clampKeys n := by
  cases n with
  | nan => decide
  | infinite negative => cases negative <;> decide
  | finite n => exact le_min (le_max_right _ _) (by decide)

theorem lt_limit {n : Number} (hden : (roundDouble (clampKeys n + 1)).den = 1) :
    ⌊clampKeys n⌋.toNat < (roundDouble (clampKeys n + 1)).num.toNat := by
  have hle := floor_le_roundDouble (clampKeys n + 1)
  rw [Int.floor_add_one, ← (Rat.den_eq_one_iff _).mp hden] at hle
  have := Int.floor_nonneg.mpr (clampKeys_nonneg n)
  have : ⌊clampKeys n⌋ + 1 ≤ (roundDouble (clampKeys n + 1)).num := by exact_mod_cast hle
  omega

section

variable (hden : (roundDouble (S3Handler.clampKeys (q.number P) + 1)).den = 1) (hk : ⌊S3Handler.clampKeys (q.number P)⌋.toNat = k)
  (hpre : storable (q.namePrefix.getD []) = true) {l : List Text} (hl : matching P b q (q.after P token) = l)

include hden hk hpre hl

theorem listObjects_eq (haf : storable (q.after P token) = true) :
    ∃ page, listObjects P b q token = some page ∧ page.listed = q.content (l.take k) ∧ page.nextToken =
      if k < l.length ∧ (l.take k).getLast?.getD [] ≠ [] then some (P.toBase64url ((l.take k).getLast?.getD [])) else none := by
  have hrows : ∀ n, selectNames P b (escapeLikePrefix (q.namePrefix.getD []) ++ ['%']) (q.after P token) n = l.take n := fun n => by
    simp [selectNames, ← hl, matching, like_escapeLikePrefix]
  have hlim := hk ▸ lt_limit hden
  have hlt : clampKeys (q.number P) < ((min (roundDouble (clampKeys (q.number P) + 1)).num.toNat l.length : ℕ) : ℚ) ↔ k < l.length := by
    have := Int.floor_nonneg.mpr (clampKeys_nonneg (q.number P))
    rw [← Int.cast_natCast, ← Int.floor_lt]
    omega
  simp only [listObjects, hden, hk, hpre, haf, hrows, take_take, length_take, hlt, Nat.min_eq_left hlim.le, and_self, if_true]
  exact ⟨_, rfl, rfl, rfl⟩

theorem follow_eq (haf : storable (q.after P token) = true) (hpos : 0 < k ∨ l = []) :
    ∃ pages, follow P b q token = some pages ∧ pages.map ListPage.listed = (cut k l).map q.content := by
  obtain ⟨page, hpage, hcontent, hnext⟩ := listObjects_eq hden hk hpre hl haf
  induction l using cut.induct k generalizing token page with
  | case1 l h ih =>
    have hne : l.take k ≠ [] := ne_nil_of_length_pos (by simp; omega)
    have hlast : (l.take k).getLast hne ≠ [] := ne_nil_of_mem_matching (by rw [hl]; exact mem_of_mem_take (getLast_mem hne))
    have hrest : matching P b q (q.after P (some (P.toBase64url ((l.take k).getLast hne)))) = l.drop k := by
      rw [after_toBase64url hlast]
      exact matching_getLast (hl.trans (take_append_drop k l).symm) hne
    simp only [getLast?_eq_getLast_of_ne_nil hne, Option.getD_some, h, hlast, ne_eq, not_false_iff, true_and, if_true] at hnext
    have haf' : storable (q.after P (some (P.toBase64url ((l.take k).getLast hne)))) = true := by
      rw [after_toBase64url hlast]
      have hmem : (l.take k).getLast hne ∈ matching P b q (q.after P token) := by
        rw [hl]
        exact mem_of_mem_take (getLast_mem hne)
      exact b.stored _ ((mem_matching _).mp hmem).1
    obtain ⟨page', hpage', hcontent', hnext'⟩ := listObjects_eq hden hk hpre hrest haf'
    obtain ⟨pages, hpages, hcontents⟩ := ih hrest haf' (.inl h.1) page' hpage' hcontent' hnext'
    refine ⟨page :: pages, ?_, ?_⟩
    · rw [follow]
      simp [hpage, hnext, hpages]
    · rw [cut, dif_pos h, map_cons, map_cons, hcontents, hcontent]
  | case2 l h =>
    have hle : l.length ≤ k := by
      rcases hpos with hpos | rfl
      · omega
      · exact Nat.zero_le k
    rw [if_neg (by omega)] at hnext
    refine ⟨[page], ?_, ?_⟩
    · rw [follow]
      simp [hpage, hnext]
    · rw [cut, dif_neg h, map_singleton, map_singleton, hcontent, take_of_length_le hle]

end

theorem sum_listings (q : ListParams) (name : Text) (cs : List (List Text)) :
    ((cs.map q.content).map (q.listings name)).sum =
      match q.group name with
      | none => cs.flatten.count name
      | some g => (cs.map (·.filterMap q.group)).countP (g ∈ ·) := by
  induction cs with
  | nil => cases q.group name <;> simp
  | cons c cs ih =>
    rw [map_cons, map_cons, sum_cons, ih]
    cases hg : q.group name with
    | none => simp [ListParams.listings, ListParams.content, hg, count_filter]
    | some g =>
      have : name ∉ c.filter (q.group · = none) := by simp [hg]
      simp [ListParams.listings, ListParams.content, hg, countP_cons, count_eq_zero_of_not_mem this, Nat.add_comm]

theorem sum_listings_eq_one_iff (cs : List (List Text)) (hcs : cs.flatten.Nodup) :
    (∀ name ∈ cs.flatten, ((cs.map q.content).map (q.listings name)).sum = 1) ↔ (cs.map (·.filterMap q.group)).Pairwise Disjoint := by
  rw [← countP_mem_eq_one_iff]
  simp only [sum_listings]
  constructor
  · intro h g hg
    obtain ⟨_, hc', hg⟩ := mem_flatten.mp hg
    obtain ⟨c, hc, rfl⟩ := mem_map.mp hc'
    obtain ⟨name, hname, hgroup⟩ := mem_filterMap.mp hg
    simpa [hgroup] using h name (mem_flatten.mpr ⟨c, hc, hname⟩)
  · intro h name hname
    cases hg : q.group name with
    | none => exact count_eq_one_of_mem hcs hname
    | some g =>
      obtain ⟨c, hc, hname⟩ := mem_flatten.mp hname
      simpa only [hg] using h g (mem_flatten.mpr ⟨_, mem_map_of_mem hc, mem_filterMap.mpr ⟨name, hname, hg⟩⟩)

/-! ## 一覧の約束 -/

theorem Honest.clampKeys {n : Number} {l : List Text} (h : Honest l n) :
    (roundDouble (clampKeys n + 1)).den = 1 ∧ (0 < ⌊clampKeys n⌋.toNat ∨ l = []) := by
  have hfull : (roundDouble (1000 + 1)).den = 1 ∧ 0 < ⌊(1000 : ℚ)⌋.toNat := by decide +kernel
  cases n with
  | nan => exact hfull.imp_right .inl
  | infinite negative =>
    cases h
    exact hfull.imp_right .inl
  | finite n =>
    obtain ⟨hden, -, hsmall⟩ := h
    refine ⟨hden, (lt_or_ge n 1).elim (fun hn => .inr (hsmall hn)) fun hn => .inl ?_⟩
    have hone : 1 ≤ S3Handler.clampKeys (.finite n) := by
      rw [S3Handler.clampKeys, if_neg (by linarith)]
      exact le_min (le_max_of_le_left hn) (by decide)
    have : 1 ≤ ⌊S3Handler.clampKeys (.finite n)⌋ := Int.le_floor.mpr (by exact_mod_cast hone)
    omega

theorem length_content (c : List Text) : (q.content c).1.length + (q.content c).2.card ≤ c.length := by
  have hcard : (q.content c).2.card ≤ (c.filterMap q.group).length := toFinset_card_le _
  have hlen : (q.content c).1.length + (c.filterMap q.group).length = c.length := by
    clear hcard
    induction c with
    | nil => rfl
    | cons name c ih =>
      cases hg : q.group name <;> simp [ListParams.content, hg] at * <;> omega
  omega

theorem Honest.bounds {n : Number} {l c : List Text} (h : Honest l n) (hc : c ∈ cut ⌊S3Handler.clampKeys n⌋.toNat l) :
    Bounds n ((q.content c).1.length + (q.content c).2.card) := by
  have hlen := length_content (q := q) c
  cases n with
  | nan => trivial
  | infinite negative => exact h
  | finite n =>
    have hn := h.2.1
    rcases h.clampKeys.2 with hpos | rfl
    · obtain ⟨hk, hl⟩ := mem_cut hpos hc
      rcases eq_or_lt_of_le hn with rfl | hn
      · rw [h.2.2 (by decide), length_nil] at hl
        have : (q.content c).1.length + (q.content c).2.card = 0 := by omega
        simp [Bounds, this]
      · have hle : S3Handler.clampKeys (.finite n) ≤ n := by simp [S3Handler.clampKeys, hn.ne', hn.le]
        refine le_trans ?_ ((Int.floor_le _).trans hle)
        have : 0 ≤ ⌊S3Handler.clampKeys (.finite n)⌋ := Int.floor_nonneg.mpr (clampKeys_nonneg _)
        have : (((q.content c).1.length + (q.content c).2.card : ℕ) : ℤ) ≤ ⌊S3Handler.clampKeys (.finite n)⌋ := by omega
        exact_mod_cast this
    · rw [show c = [] by simpa [cut] using hc]
      simpa [Bounds, ListParams.content] using hn

theorem Covers.honest (h : Covers P b q) : (storable (q.namePrefix.getD []) = true ∧ storable q.start = true) ∧
    Honest (matching P b q q.start) (q.number P) := by
  obtain ⟨pages, hpages, hbounds, hsum⟩ := h
  obtain ⟨⟨hden, hsto⟩, page, hpage⟩ : ((roundDouble (S3Handler.clampKeys (q.number P) + 1)).den = 1 ∧
      storable (q.namePrefix.getD []) = true ∧ storable q.start = true) ∧ ∃ page, page ∈ pages := by
    rw [follow] at hpages
    obtain ⟨page, hlist, hrest⟩ := Option.bind_eq_some_iff.mp hpages
    refine ⟨by_contra fun hno => ?_, page, ?_⟩
    · change ¬ (_ ∧ _ ∧ storable (q.after P none) = true) at hno
      rw [listObjects, if_neg hno] at hlist
      cases hlist
    · cases hnext : page.nextToken with
      | none =>
        rw [hnext] at hrest
        cases hrest
        exact .head _
      | some next =>
        rw [hnext] at hrest
        obtain ⟨rest, -, hrest⟩ := Option.bind_eq_some_iff.mp hrest
        cases hrest
        exact .head _
  refine ⟨hsto, ?_⟩
  generalize q.number P = n at *
  cases n with
  | nan => trivial
  | infinite negative => exact hbounds page hpage
  | finite n =>
    refine ⟨hden, (Nat.cast_nonneg _).trans (hbounds page hpage), fun hn => eq_nil_iff_forall_not_mem.mpr fun name hname => ?_⟩
    have hzero : ∀ page ∈ pages, q.listings name page.listed = 0 := fun page hpage => by
      have : page.keyCount = 0 := Nat.lt_one_iff.mp (by exact_mod_cast (show (page.keyCount : ℚ) ≤ n from hbounds page hpage).trans_lt hn)
      simp_all [ListPage.keyCount, ListParams.listings, ListPage.listed]
    obtain ⟨hmem, hpre, hafter⟩ := (mem_matching _).mp hname
    have := hsum name hmem hpre hafter
    rw [List.sum_eq_zero_iff_forall_eq_nat.mpr (by simpa using hzero)] at this
    cases this

end Supacloud.S3Handler
