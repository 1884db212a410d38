import Mathlib
import Supacloud.Usage.Meter

/-! 台帳の不変条件。 -/

namespace Supacloud.Usage

open Library UsageMeter StoredReceipt

def StoredReceipt.observation (r : StoredReceipt) : PreparedUsageObservation :=
  { r.toObserved with windowStart := r.windowStart }

def UsageMeter.stored (m : UsageMeter) : List StoredReceipt := m.receipts.entries.map (·.2)

def UsageMeter.observations (m : UsageMeter) : List PreparedUsageObservation := m.stored.map (·.observation)

def total (os : List PreparedUsageObservation) (k : Text) : ℤ := ((os.filter (·.account = k)).map (·.quantity)).sum

structure Counts (p : Platform) (os : List PreparedUsageObservation) (k : Text) (c : UsageCounter) : Prop where
  key : k = counterKey c.projectRef c.dimension c.windowStart
  projectRef : NUL ∉ c.projectRef
  unit : c.unit = usageUnits c.dimension
  windowEnd : usageWindowEnd p c.windowStart = .ok c.windowEnd
  quantity : c.quantity = total os k
  receiptCount : c.receiptCount = os.countP (·.account = k)
  quantity_le : c.quantity ≤ maxSafeInteger
  receiptCount_le : c.receiptCount ≤ maxSafeInteger
  opened : ∃ o ∈ os, o.account = k

structure Ledger (p : Platform) (m : UsageMeter) : Prop where
  parsed : ∀ k r, m.receipts.lookup k = some r → k = r.key ∧ (∃ value, parseUsageObservation p value = .ok r.observation) ∧
    usageReceipt p r.observation r.recordedAt = .ok r.toUsageReceipt
  counts : ∀ k c, m.counters.lookup k = some c → Counts p m.observations k c
  counted : ∀ o ∈ m.observations, ∃ c, m.counters.lookup o.account = some c

variable {p : Platform} {m m' whole : UsageMeter} {call : Call} {value : Option UsageObservation} {o : PreparedUsageObservation} {at' k : Text}
  {os os' : List PreparedUsageObservation} {receipt : UsageReceipt} {r : StoredReceipt} {c : UsageCounter}

/-! ## 鍵と検査 -/

theorem key_injective {α : Type} {s : α} {a b x y : List α} (ha : s ∉ a) (hb : s ∉ b) (h : a ++ s :: x = b ++ s :: y) : a = b ∧ x = y := by
  induction a generalizing b with
  | nil =>
    cases b with
    | nil => exact ⟨rfl, (List.cons.inj h).2⟩
    | cons v b => exact absurd ((List.cons.inj h).1 ▸ .head _) hb
  | cons u a ih =>
    cases b with
    | nil => exact absurd ((List.cons.inj h).1 ▸ .head _) ha
    | cons v b =>
      obtain ⟨rfl, hre⟩ := List.cons.inj h
      obtain ⟨rfl, hxy⟩ := ih (fun hs => ha (.tail _ hs)) (fun hs => hb (.tail _ hs)) hre
      exact ⟨rfl, hxy⟩

theorem counterKey_injective {a b w v : Text} {d e : UsageDimension} (ha : NUL ∉ a) (hb : NUL ∉ b)
    (h : counterKey a d w = counterKey b e v) : a = b ∧ d = e ∧ w = v := by
  have htext : ∀ d : UsageDimension, NUL ∉ d.text := fun d => by cases d <;> decide
  obtain ⟨hab, hre⟩ := key_injective ha hb h
  obtain ⟨hde, hwv⟩ := key_injective (htext d) (htext e) hre
  refine ⟨hab, ?_, hwv⟩
  cases d <;> cases e <;> first | rfl | cases hde

theorem positiveQuantity_bounds {value : Value} {q : ℤ} (h : positiveQuantity value = .ok q) : 0 < q ∧ q ≤ maxSafeInteger := by
  cases value with
  | number n =>
    obtain ⟨hn, hpos⟩ : n.safeInteger? = some q ∧ 0 < q := by simpa [positiveQuantity] using h
    refine ⟨hpos, ?_⟩
    unfold Number.safeInteger? at hn
    grind [safe]
  | _ => cases h

theorem projectRef_notMem {value : Value} {ref : Text} (h : parseUsageProjectRef value = .ok ref) : NUL ∉ ref := by
  cases value with
  | string s =>
    by_cases hs : isName "_-" 20 s
    · cases (if_pos hs).symm.trans h
      exact fun hmem => absurd (List.all_eq_true.mp (Bool.and_eq_true_iff.mp hs).2 NUL hmem) (by decide)
    · cases (if_neg hs).symm.trans h
  | _ => cases h

theorem parsed_observation (h : parseUsageObservation p value = .ok o) :
    NUL ∉ o.projectRef ∧ o.unit = usageUnits o.dimension ∧ 0 < o.quantity ∧ o.quantity ≤ maxSafeInteger ∧
      usageWindowStart p o.observedAt = .ok o.windowStart := by
  simp only [parseUsageObservation, bind_eq_ok, fetch_eq_ok] at h
  obtain ⟨input, -, ref, href, -, -, d, -, q, hq, id, -, t, -, at', -, subject, -, ws, hws, h⟩ := h
  cases h
  exact ⟨projectRef_notMem href, rfl, (positiveQuantity_bounds hq).1, (positiveQuantity_bounds hq).2, hws⟩

theorem isoString_printed (t : ℤ) : (isoString t).all isWhitespace = false :=
  List.all_eq_false.mpr ⟨'Z', by simp [isoString, isoRest], by decide⟩

theorem receipt_of (h : usageReceipt p o at' = .ok receipt) :
    receipt.toObserved = o.toObserved ∧ usageReceipt p o receipt.recordedAt = .ok receipt := by
  simp only [usageReceipt, bind_eq_ok] at h
  obtain ⟨t, ht, iso, hiso, h⟩ := h
  cases h
  unfold toISOString at hiso
  split at hiso <;> cases hiso
  simp [usageReceipt, parseUsageInstant, isoString_printed, p.newDate_isoString t ‹_›, fetch, toISOString, *]

/-! ## 計数 -/

theorem total_cons (os) (h : o.account = k) : total (o :: os) k = o.quantity + total os k := by simp [total, h]

theorem Ledger.current (h : Ledger p m) (k : Text) : (m.counters.lookup k).elim 0 (·.quantity) = total m.observations k ∧
    (m.counters.lookup k).elim 0 (·.receiptCount) = m.observations.countP (·.account = k) := by
  cases hc : m.counters.lookup k with
  | some c => exact ⟨(h.counts k c hc).quantity, (h.counts k c hc).receiptCount⟩
  | none =>
    have hnone : ∀ o ∈ m.observations, ¬ decide (o.account = k) = true := by
      intro o ho hk
      obtain ⟨c, hc'⟩ := h.counted o ho
      rw [of_decide_eq_true hk, hc] at hc'
      cases hc'
    simp only [total, List.filter_eq_nil_iff.mpr hnone, List.countP_eq_zero.mpr hnone]
    exact ⟨rfl, rfl⟩

theorem Ledger.count_ok (h : Ledger p m) (hp : parseUsageObservation p value = .ok o) (hc : m.count p o at' = .ok (receipt, c)) :
    usageReceipt p o at' = .ok receipt ∧ Counts p (o :: m.observations) o.account c := by
  obtain ⟨hn, hunit, hpos, hle, -⟩ := parsed_observation hp
  obtain ⟨hq, hn'⟩ := h.current o.account
  simp only [count, bind_eq_ok, require_eq_ok] at hc
  obtain ⟨-, hroom, r, hr, e, he, hc⟩ := hc
  generalize m.counters.lookup o.account = current at *
  have hroom' : current.elim 0 (·.quantity) ≤ maxSafeInteger - o.quantity ∧ current.elim 0 (·.receiptCount) < maxSafeInteger := by
    cases current with
    | none => exact ⟨by simpa using hle, by decide⟩
    | some c₀ => exact hroom c₀ rfl
  have hsum := total_cons m.observations (rfl : o.account = o.account)
  have hcount := List.countP_cons_of_pos (p := (·.account = o.account)) (l := m.observations) (decide_eq_true (rfl : o.account = o.account))
  cases hc
  exact ⟨hr, rfl, hn, hunit, he, by simp only; omega, by simp only; omega, by simp only; omega, by simp only; omega, o, .head _, rfl⟩

def UsageMeter.add (m : UsageMeter) (o : PreparedUsageObservation) (receipt : UsageReceipt) (c : UsageCounter) : UsageMeter where
  receipts := m.receipts.insert o.key { receipt with windowStart := o.windowStart }
  counters := m.counters.insert o.account c

theorem Ledger.add (h : Ledger p m) (hp : parseUsageObservation p value = .ok o) (hnew : m.receipts.lookup o.key = none)
    (hc : m.count p o at' = .ok (receipt, c)) :
    usageReceipt p o at' = .ok receipt ∧ (m.add o receipt c).observations = o :: m.observations ∧ Ledger p (m.add o receipt c) := by
  obtain ⟨hr, hcounts⟩ := h.count_ok hp hc
  obtain ⟨hobs, hreceipt⟩ := receipt_of hr
  have hadd : (m.add o receipt c).observations = o :: m.observations := by
    rw [UsageMeter.observations, UsageMeter.stored, UsageMeter.add, AList.entries_insert_of_notMem (AList.lookup_eq_none.mp hnew)]
    simp [observation, hobs, observations, stored]
  refine ⟨hr, hadd, fun k r hr => ?_, fun k c' hc' => ?_, fun o' ho' => ?_⟩
  · by_cases hk : k = o.key
    · subst hk
      cases (AList.lookup_insert _).symm.trans hr
      have hro : observation { receipt with windowStart := o.windowStart } = o := by simp [observation, hobs]
      exact ⟨by simp only [hobs], ⟨value, hro ▸ hp⟩, by rw [hro]; exact hreceipt⟩
    · exact h.parsed k r ((AList.lookup_insert_ne hk).symm.trans hr)
  · rw [hadd]
    by_cases hk : k = o.account
    · subst hk
      cases (AList.lookup_insert _).symm.trans hc'
      exact hcounts
    · have hcounts' := h.counts k c' ((AList.lookup_insert_ne hk).symm.trans hc')
      obtain ⟨o', ho', hk'⟩ := hcounts'.opened
      have hne : ¬ o.account = k := Ne.symm hk
      exact { hcounts' with
        quantity := by simp [total, hne, hcounts'.quantity]
        receiptCount := by simp [hne, hcounts'.receiptCount]
        opened := ⟨o', .tail _ ho', hk'⟩ }
  · by_cases hk : o'.account = o.account
    · exact ⟨c, by rw [hk]; exact AList.lookup_insert _⟩
    · rcases List.mem_cons.mp (hadd ▸ ho') with rfl | hmem
      · exact absurd rfl hk
      · obtain ⟨c', hc'⟩ := h.counted o' hmem
        exact ⟨c', (AList.lookup_insert_ne hk).trans hc'⟩

/-! ## 観測の集まり -/

theorem Ledger.lookup (h : Ledger p m) (ho : o ∈ m.observations) : ∃ r, m.receipts.lookup o.key = some r ∧ r.observation = o := by
  simp only [observations, stored, List.map_map, List.mem_map] at ho
  obtain ⟨⟨k, r⟩, hmem, rfl⟩ := ho
  have hr := AList.mem_lookup_iff.mpr hmem
  obtain ⟨hk, -, -⟩ := h.parsed k r hr
  exact ⟨r, hk ▸ hr, rfl⟩

theorem mem_observations (hr : m.receipts.lookup k = some r) : r.observation ∈ m.observations :=
  List.mem_map_of_mem (List.mem_map_of_mem (AList.mem_lookup_iff.mp hr))

theorem Ledger.bounds (h : Ledger p m) : ∀ o ∈ m.observations, 0 < o.quantity ∧ o.quantity ≤ maxSafeInteger := by
  intro o ho
  obtain ⟨r, hr, rfl⟩ := h.lookup ho
  obtain ⟨-, ⟨value, hp⟩, -⟩ := h.parsed _ r hr
  obtain ⟨-, -, hpos, hle, -⟩ := parsed_observation hp
  exact ⟨hpos, hle⟩

theorem Ledger.nodup (h : Ledger p m) : (m.observations.map fun o => (o.projectRef, o.observationId)).Nodup := by
  refine List.Nodup.of_map (fun k => observationKey k.1 k.2) ?_
  have hkeys : m.receipts.entries.map Sigma.fst = m.observations.map fun o => o.key := by
    simp only [observations, stored, List.map_map]
    exact List.map_congr_left fun e he => (h.parsed e.1 e.2 (AList.mem_lookup_iff.mpr he)).1
  rw [List.map_map]
  exact (congrArg List.Nodup hkeys).mp m.receipts.nodupKeys

def Records (p : Platform) (call : Call) (o : PreparedUsageObservation) : Prop :=
  parseUsageObservation p call.value = .ok o ∧ ∃ receipt, usageReceipt p o call.recordedAt = .ok receipt

theorem observation_eq (h : Ledger p m) (hp : parseUsageObservation p value = .ok o) (hr : m.receipts.lookup k = some r) (hsame : r.toObserved = o.toObserved) : r.observation = o := by
  obtain ⟨-, ⟨value', hp'⟩, -⟩ := h.parsed k r hr
  obtain ⟨-, -, -, -, hw⟩ := parsed_observation hp
  obtain ⟨-, -, -, -, hw'⟩ := parsed_observation hp'
  have hat : r.observation.observedAt = o.observedAt := by rw [← hsame]; rfl
  rw [hat, hw] at hw'
  cases o
  cases hw'
  simp [observation, hsame]

theorem Ledger.record_existing (h : Ledger p m) (hp : parseUsageObservation p call.value = .ok o)
    (hr : m.receipts.lookup o.key = some r) : m.record p call =
      (if r.toObserved = o.toObserved then .ok { receipt := r.toUsageReceipt, replayed := true } else .error .observationConflict, m) := by
  obtain ⟨-, -, hre⟩ := h.parsed _ r hr
  by_cases hsame : r.toObserved = o.toObserved
  · rw [observation_eq h hp hr hsame] at hre
    simp [record, hp, hr, sameObservation, hsame, hre, Except.map]
  · simp [record, hp, hr, sameObservation, hsame]

theorem Ledger.step (h : Ledger p m) (call : Call) : (∃ e, m.record p call = (.error e, m)) ∨ ∃ o x m', m.record p call = (.ok x, m') ∧
    Ledger p m' ∧ parseUsageObservation p call.value = .ok o ∧ (o ∈ m.observations ∨ Records p call o) ∧
    ∀ o', o' ∈ m'.observations ↔ o' = o ∨ o' ∈ m.observations := by
  cases hp : parseUsageObservation p call.value with
  | error e => exact .inl ⟨e, by simp [UsageMeter.record, hp]⟩
  | ok o =>
    cases hlook : m.receipts.lookup o.key with
    | some r =>
      have hre := h.record_existing hp hlook
      by_cases hsame : r.toObserved = o.toObserved
      · have hmem : o ∈ m.observations := observation_eq h hp hlook hsame ▸ mem_observations hlook
        exact .inr ⟨o, _, m, by rw [hre, if_pos hsame], h, rfl, .inl hmem, by grind⟩
      · exact .inl ⟨_, by rw [hre, if_neg hsame]⟩
    | none =>
      cases hc : m.count p o call.recordedAt with
      | error e => exact .inl ⟨e, by simp [UsageMeter.record, hp, hlook, hc]⟩
      | ok x =>
        obtain ⟨hr, hadd, hledger⟩ := h.add hp hlook hc
        have hre : m.record p call = (.ok { receipt := x.1, replayed := false }, m.add o x.1 x.2) := by
          simp [UsageMeter.record, hp, hlook, hc, UsageMeter.add]
        exact .inr ⟨o, _, _, hre, hledger, rfl, .inr ⟨hp, _, hr⟩, by simp [hadd]⟩

theorem ledger_run (calls : List Call) : Ledger p (run p {} calls) :=
  run_invariant (fun _ call h => by
      rcases h.step call with ⟨e, he⟩ | ⟨o, x, m', hre, hm', -⟩
      · rwa [he]
      · rwa [hre])
    ⟨fun k r hr => by simp at hr, fun k c hc => by simp at hc, fun o ho => by simp [observations, stored] at ho⟩

theorem Ledger.run_cases (h : Ledger p m) (calls : List Call) : m.observations ⊆ (m.run p calls).observations ∧
    (∀ call ∈ m.succeeded p calls, ∃ o ∈ (m.run p calls).observations, parseUsageObservation p call.value = .ok o) ∧
    ∀ o ∈ (m.run p calls).observations, o ∈ m.observations ∨ ∃ call ∈ m.succeeded p calls, Records p call o := by
  induction calls generalizing m with
  | nil => simp [UsageMeter.run, UsageMeter.succeeded]
  | cons call calls ih =>
    rcases h.step call with ⟨e, he⟩ | ⟨o, x, m', hre, hm', hp, hold, hmem⟩
    · obtain ⟨hsub, hsuc, hobs⟩ := ih h
      simpa [UsageMeter.run, UsageMeter.succeeded, he] using ⟨hsub, hsuc, hobs⟩
    · obtain ⟨hsub, hsuc, hobs⟩ := ih hm'
      simp only [UsageMeter.run, UsageMeter.succeeded, run_cons, hre, List.forall_mem_cons, List.exists_mem_cons_iff] at *
      exact ⟨by grind, by grind, by grind⟩

theorem total_le (hn : os.Nodup) (hsub : os ⊆ os') (hpos : ∀ o ∈ os', 0 < o.quantity) : total os k ≤ total os' k := by
  obtain ⟨l, hperm, hl⟩ := List.subperm_of_subset hn hsub
  calc total os k = total l k := ((hperm.filter _).map _).sum_eq.symm
    _ ≤ total os' k := ((hl.filter _).map _).sum_le_sum (by
        simp only [List.forall_mem_map]
        exact fun o ho => (hpos o (List.mem_of_mem_filter ho)).le)

theorem Ledger.accepts (h : Ledger p m) (hw : Ledger p whole) (hsub : m.observations ⊆ whole.observations)
    (ho : o ∈ whole.observations) (hrec : Records p call o) : o ∈ (m.record p call).2.observations := by
  obtain ⟨hp, receipt, hr⟩ := hrec
  rcases h.step call with ⟨e, he⟩ | ⟨o', x, m', hre, -, hp', -, hmem⟩
  · -- 断られるのは、同じ鍵の別の観測があるか、数が溢れるときだけである。
    cases hlook : m.receipts.lookup o.key with
    | some r =>
      obtain ⟨R, hR, hRo⟩ := hw.lookup ho
      obtain ⟨R', hR', hr'⟩ := hw.lookup (hsub (mem_observations hlook))
      have hRR : R = R' := Option.some.inj (hR.symm.trans ((congrArg whole.receipts.lookup (h.parsed _ _ hlook).1).trans hR'))
      have hsame : r.observation.toObserved = o.toObserved := by rw [← hr', ← hRR, hRo]
      simp [h.record_existing hp hlook, show r.toObserved = o.toObserved from hsame] at he
    | none =>
      obtain ⟨C, hC⟩ := hw.counted o ho
      have hcounts := hw.counts _ _ hC
      obtain ⟨-, -, hws⟩ := counterKey_injective (parsed_observation hp).1 hcounts.projectRef hcounts.key
      have hnew : o ∉ m.observations := by
        intro hmem
        obtain ⟨r, hr, -⟩ := h.lookup hmem
        cases hlook.symm.trans hr
      have hnodup : (o :: m.observations).Nodup := List.nodup_cons.mpr ⟨hnew, h.nodup.of_map _⟩
      have hsub' : o :: m.observations ⊆ whole.observations := List.cons_subset.mpr ⟨ho, hsub⟩
      have hroom : ∀ c ∈ m.counters.lookup o.account, c.quantity ≤ maxSafeInteger - o.quantity ∧ c.receiptCount < maxSafeInteger := by
        intro c hc
        have htotal := total_le (k := o.account) hnodup hsub' fun o ho => (hw.bounds o ho).1
        have hcount := (List.subperm_of_subset hnodup hsub').countP_le (·.account = o.account)
        rw [total_cons _ rfl] at htotal
        rw [List.countP_cons_of_pos (by simp)] at hcount
        have := (h.counts _ _ hc).quantity
        have := (h.counts _ _ hc).receiptCount
        have := hcounts.quantity ▸ hcounts.quantity_le
        have := hcounts.receiptCount ▸ hcounts.receiptCount_le
        omega
      obtain ⟨x, hx⟩ : ∃ x, m.count p o call.recordedAt = .ok x := by
        simp [count, hr, hws, hcounts.windowEnd]
        exact hroom
      simp [record, hp, hlook, hx] at he
  · cases hp.symm.trans hp'
    rw [hre]
    exact (hmem o).mpr (.inl rfl)

theorem Ledger.run_mem (h : Ledger p m) (hw : Ledger p whole) (hsub : m.observations ⊆ whole.observations)
    {calls : List Call} (hcalls : ∀ call ∈ calls, ∃ o ∈ whole.observations, parseUsageObservation p call.value = .ok o) :
    (m.run p calls).observations ⊆ whole.observations ∧
      ∀ call ∈ calls, ∀ o ∈ whole.observations, Records p call o → o ∈ (m.run p calls).observations := by
  induction calls generalizing m with
  | nil => simpa [UsageMeter.run] using hsub
  | cons call calls ih =>
    obtain ⟨⟨o₀, ho₀, hp₀⟩, hcalls⟩ := List.forall_mem_cons.mp hcalls
    have hacc : ∀ o ∈ whole.observations, Records p call o → _ := fun _ ho hrec => h.accepts hw hsub ho hrec
    obtain ⟨hm', hsub'⟩ : Ledger p (m.record p call).2 ∧ (m.record p call).2.observations ⊆ whole.observations := by
      rcases h.step call with ⟨e, he⟩ | ⟨o, x, m', hre, hm', hp, -, hmem⟩
      · rw [he]
        exact ⟨h, hsub⟩
      · cases hp.symm.trans hp₀
        rw [hre]
        exact ⟨hm', by grind⟩
    obtain ⟨hsu, hall⟩ := ih hm' hsub' hcalls
    refine ⟨hsu, List.forall_mem_cons.mpr ⟨fun o ho hrec => ?_, hall⟩⟩
    exact (hm'.run_cases calls).1 (hacc o ho hrec)

theorem Ledger.lookup_counter (h : Ledger p m) (h' : Ledger p m') (hperm : m.observations.Perm m'.observations)
    (hc : m.counters.lookup k = some c) : m'.counters.lookup k = some c := by
  have hcounts := h.counts k c hc
  obtain ⟨o, ho, rfl⟩ := hcounts.opened
  obtain ⟨c', hc'⟩ := h'.counted o (hperm.subset ho)
  have hcounts' := h'.counts _ c' hc'
  obtain ⟨href, hd, hws⟩ := counterKey_injective hcounts.projectRef hcounts'.projectRef (hcounts.key.symm.trans hcounts'.key)
  have hq : c.quantity = c'.quantity := by
    rw [hcounts.quantity, hcounts'.quantity]
    exact ((hperm.filter _).map _).sum_eq
  have hn : c.receiptCount = c'.receiptCount := by rw [hcounts.receiptCount, hcounts'.receiptCount, hperm.countP_eq]
  have he : c.windowEnd = c'.windowEnd := Except.ok.inj (hcounts.windowEnd.symm.trans ((congrArg _ hws).trans hcounts'.windowEnd))
  have hu : c.unit = c'.unit := by rw [hcounts.unit, hcounts'.unit, hd]
  rw [hc']
  cases c
  cases c'
  simp_all

end Supacloud.Usage
