import Supacloud.Webhooks.Deliveries

/-! # 頁の継ぎ目 -/

namespace Supacloud.Webhooks

open Library Delivery List Bool

variable {a b c : Delivery} {rows : List Delivery} {limit n : ℕ} {cursor : Cursor}

def Delivery.Before (a b : Delivery) : Prop := b.createdAt < a.createdAt ∨ b.createdAt = a.createdAt ∧ b.id < a.id

theorem first_trans (a b c : Delivery) (hab : a.first b) (hbc : b.first c) : a.first c := by
  simp only [first, or_eq_true, and_eq_true, decide_eq_true_eq] at *
  omega

theorem first_total (a b : Delivery) : (a.first b || b.first a) = true := by
  simp only [first, or_eq_true, and_eq_true, decide_eq_true_eq]
  omega

theorem above_iff : cursor.above a = true ↔ a.createdAt < cursor.createdAt ∨ a.createdAt = cursor.createdAt ∧ a.id < cursor.id := by
  simp [Cursor.above]

theorem Delivery.Before.above (h : a.Before b) (ha : cursor.above a) : cursor.above b := by
  simp only [above_iff, Before] at *
  omega

theorem above_encodeCursor (h : (encodeCursor a).above b) : a.Before b := by
  simp only [above_iff, encodeCursor, Before] at *
  omega

theorem Cursor.above_trans (ha : cursor.above a) (h : (encodeCursor a).above b) : cursor.above b :=
  (above_encodeCursor h).above ha

abbrev Ordered (rows : List Delivery) : Prop := rows.Pairwise Delivery.Before

theorem ordered_mergeSort (h : (rows.map (·.id)).Nodup) : Ordered (rows.mergeSort first) := by
  have hso := pairwise_mergeSort first_trans first_total rows
  have hids : ((rows.mergeSort first).map (·.id)).Nodup := ((mergeSort_perm rows _).map _).nodup_iff.mpr h
  have hdi : (rows.mergeSort first).Pairwise fun a b => a.id ≠ b.id := pairwise_map.mp hids
  refine (hso.and hdi).imp fun {a b} ⟨hfi, hne⟩ => ?_
  simp only [first, or_eq_true, and_eq_true, decide_eq_true_eq] at hfi
  unfold Before
  omega

theorem filter_mergeSort (h : (rows.map (·.id)).Nodup) (p) :
    (rows.filter p).mergeSort first = (rows.mergeSort first).filter p := by
  have hpe : ((rows.filter p).mergeSort first).Perm ((rows.mergeSort first).filter p) :=
    (mergeSort_perm _ _).trans ((mergeSort_perm _ _).symm.filter p)
  have hids : ((rows.filter p).map (·.id)).Nodup := h.sublist (filter_sublist.map _)
  refine @List.Perm.eq_of_pairwise _ Before _ _ (fun a b _ _ hab hba => ?_) (ordered_mergeSort hids) ((ordered_mergeSort h).filter p) hpe
  unfold Before at hab hba
  omega

/-! ## 残りの行をたどる -/

def walk (limit : ℕ) : (fuel : ℕ) → List Delivery → Option (List Delivery)
  | 0, _ => none
  | fuel + 1, rows =>
    match if limit < rows.length then (rows.take limit).getLast? else none with
    | none => some (rows.take limit)
    | some last => (walk limit fuel (rows.filter (encodeCursor last).above)).map (rows.take limit ++ ·)

theorem followPages_eq {table ref webhookId input} (h : (table.map (·.id)).Nodup)
    (fuel cursor) : followPages table ref webhookId input fuel cursor =
      walk (pageLimit input.limit) fuel (((table.mergeSort first).filter (input.selects ref webhookId)).filter
        fun row => cursor.all (·.above row)) := by
  induction fuel generalizing cursor with
  | zero => rfl
  | succ fuel ih =>
    generalize hro : (((table.mergeSort first).filter (input.selects ref webhookId)).filter
        fun row => cursor.all (·.above row)) = rows
    have hse : (table.filter fun row => input.selects ref webhookId row && cursor.all (·.above row)).mergeSort first = rows := by
      rw [filter_mergeSort h, ← hro, filter_filter]
      congr 1
      funext row
      exact and_comm ..
    have hln : pageLimit input.limit < min (pageLimit input.limit + 1) rows.length ↔ pageLimit input.limit < rows.length := by omega
    simp only [followPages, listDeliveries, hse, take_take, length_take, hln, walk, Nat.min_eq_left (Nat.le_succ _)]
    by_cases hmo : pageLimit input.limit < rows.length
    · simp only [hmo, if_true]
      cases hla : (rows.take (pageLimit input.limit)).getLast? with
      | none => rfl
      | some last =>
        have hmem : last ∈ rows := mem_of_mem_take (mem_of_getLast? hla)
        have hwi : cursor.all (·.above last) := by
          rw [← hro] at hmem
          exact (mem_filter.mp hmem).2
        have hna : ∀ base : List Delivery, base.filter (encodeCursor last).above =
            (base.filter fun row => cursor.all (·.above row)).filter (encodeCursor last).above := by
          intro base
          rw [filter_filter]
          refine filter_congr fun row _ => ?_
          cases cursor with
          | none => simp
          | some cursor =>
            have htrs : (encodeCursor last).above row = true → cursor.above row = true := Cursor.above_trans (by simpa using hwi)
            cases hrow : (encodeCursor last).above row <;> simp_all
        simp only [Option.map_some, ih, Option.all_some]
        rw [hna, hro]
    · simp [hmo]

theorem pageLimit_pos (n) : 0 < pageLimit n := by
  unfold pageLimit
  split
  · decide
  · decide
  · split <;> decide
  · split
    · decide
    · omega

def Seamless (limit : ℕ) (rows : List Delivery) : Prop :=
  ∀ k last next, rows[k * limit + limit - 1]? = some last → rows[k * limit + limit]? = some next → (encodeCursor last).above next

theorem getLast?_take (h : limit < rows.length) (hl : 0 < limit) : (rows.take limit).getLast? = rows[limit - 1]? := by
  rw [getLast?_eq_getElem?, length_take, Nat.min_eq_left h.le, getElem?_take_of_lt (by omega)]

theorem filter_above {last next} (h : Ordered rows) (hla : rows[limit - 1]? = some last) (hnx : rows[limit]? = some next)
    (hl : 0 < limit) : (rows.filter (encodeCursor last).above).Sublist (rows.drop limit) ∧
      ((encodeCursor last).above next → rows.filter (encodeCursor last).above = rows.drop limit) ∧
      (¬ (encodeCursor last).above next → next ∉ rows.filter (encodeCursor last).above) := by
  obtain ⟨hlt, heq⟩ := List.getElem?_eq_some_iff.mp hla
  obtain ⟨hlt', heq'⟩ := List.getElem?_eq_some_iff.mp hnx
  have hsp : rows.filter (encodeCursor last).above = (rows.drop limit).filter (encodeCursor last).above := by
    conv_lhs => rw [← take_append_drop limit rows, filter_append]
    have hno : (rows.take limit).filter (encodeCursor last).above = [] := by
      refine filter_eq_nil_iff.mpr fun row hrow habo => ?_
      obtain ⟨i, hi, rfl⟩ := mem_iff_getElem.mp hrow
      have hbe := above_encodeCursor habo
      rw [getElem_take] at hbe
      rw [length_take] at hi
      rcases Nat.lt_or_ge i (limit - 1) with hi' | hi'
      · have hot := pairwise_iff_getElem.mp h i (limit - 1) (by omega) hlt hi'
        rw [heq] at hot
        unfold Before at hbe hot
        omega
      · obtain rfl : i = limit - 1 := by omega
        rw [heq] at hbe
        unfold Before at hbe
        omega
    rw [hno, nil_append]
  refine ⟨hsp ▸ filter_sublist, fun habo => ?_, fun hnot hmem => hnot (mem_filter.mp hmem).2⟩
  rw [hsp, filter_eq_self]
  intro row hrow
  rw [drop_eq_getElem_cons hlt', heq'] at hrow
  rcases mem_cons.mp hrow with rfl | hrow
  · exact habo
  · have hta := h.drop (i := limit)
    rw [drop_eq_getElem_cons hlt', heq'] at hta
    exact ((pairwise_cons.mp hta).1 row hrow).above habo

theorem walk_exact (hl : 0 < limit) (h : Ordered rows) (hn : rows.length < n) :
    ∃ items, walk limit n rows = some items ∧ items.Sublist rows ∧ (items = rows ↔ Seamless limit rows) := by
  induction n generalizing rows with
  | zero => omega
  | succ n ih =>
    by_cases hmo : limit < rows.length
    · obtain ⟨last, hla⟩ : ∃ last, rows[limit - 1]? = some last := ⟨_, getElem?_eq_getElem (by omega)⟩
      obtain ⟨next, hnx⟩ : ∃ next, rows[limit]? = some next := ⟨_, getElem?_eq_getElem hmo⟩
      obtain ⟨hsub, hex, hmi⟩ := filter_above h hla hnx hl
      have hln : (rows.filter (encodeCursor last).above).length < n := by
        have hle := hsub.length_le
        rw [length_drop] at hle
        omega
      obtain ⟨items, hits, hsu, hiff⟩ := ih (h.sublist filter_sublist) hln
      refine ⟨rows.take limit ++ items, by simp [walk, hmo, getLast?_take hmo hl, hla, hits], ?_, ?_⟩
      · have hap := (List.Sublist.refl (rows.take limit)).append (hsu.trans hsub)
        rwa [take_append_drop] at hap
      · by_cases habo : (encodeCursor last).above next
        · rw [hex habo] at hiff
          have hdr : Seamless limit rows ↔ Seamless limit (rows.drop limit) := by
            constructor
            · intro hs k last next hl' hn'
              refine hs (k + 1) last next ?_ ?_
              · rw [getElem?_drop] at hl'
                rw [← hl']
                congr 1
                rw [Nat.succ_mul]
                omega
              · rw [getElem?_drop] at hn'
                rw [← hn']
                congr 1
                rw [Nat.succ_mul]
                omega
            · intro hs k last' next' hl' hn'
              cases k with
              | zero =>
                simp only [Nat.zero_mul, Nat.zero_add] at hl' hn'
                cases hla.symm.trans hl'
                cases hnx.symm.trans hn'
                exact habo
              | succ k =>
                refine hs k last' next' ?_ ?_
                · rw [getElem?_drop, ← hl', Nat.succ_mul]
                  congr 1
                  omega
                · rw [getElem?_drop, ← hn', Nat.succ_mul]
                  congr 1
                  omega
          rw [hdr, ← hiff]
          constructor
          · intro heq
            exact append_cancel_left (heq.trans (take_append_drop limit rows).symm)
          · rintro rfl
            exact take_append_drop limit rows
        · refine iff_of_false (fun heq => ?_) fun hs => habo (hs 0 last next (by simpa using hla) (by simpa using hnx))
          have hmem : next ∈ rows.drop limit := by
            rw [drop_eq_getElem?_toList_append, hnx]
            simp
          have hit' : items = rows.drop limit := append_cancel_left (heq.trans (take_append_drop limit rows).symm)
          exact hmi habo (hsu.subset (hit' ▸ hmem))
    · have htk : rows.take limit = rows := take_of_length_le (by omega)
      refine ⟨rows, by simp [walk, hmo, htk], List.Sublist.refl rows, iff_of_true rfl fun k last next _ hnx => ?_⟩
      have hlt := (List.getElem?_eq_some_iff.mp hnx).1
      have hle : limit ≤ k * limit + limit := Nat.le_add_left ..
      omega

end Supacloud.Webhooks
