import Supacloud.Usage.Lemmas

/-! 台帳の勘定。 -/

namespace Supacloud.Usage

open Library UsageMeter List

def UsageCounter.covers (c : UsageCounter) (o : PreparedUsageObservation) : Bool :=
  o.projectRef = c.projectRef ∧ o.dimension = c.dimension ∧ o.windowStart = c.windowStart

theorem Ledger.covers_iff {p : Platform} {m : UsageMeter} {k : Text} {c : UsageCounter} {o : PreparedUsageObservation} (h : Ledger p m)
    (hc : m.counters.lookup k = some c) (ho : o ∈ m.observations) : decide (o.account = k) = c.covers o := by
  have hcounts := h.counts k c hc
  obtain ⟨r, hr, rfl⟩ := h.lookup ho
  obtain ⟨-, ⟨value, hp⟩, -⟩ := h.parsed _ r hr
  refine decide_eq_decide.mpr ⟨fun hk => ?_, fun hcov => ?_⟩
  · exact counterKey_injective (parsed_observation hp).1 hcounts.projectRef (hk.trans hcounts.key)
  · rw [hcounts.key, PreparedUsageObservation.account, hcov.1, hcov.2.1, hcov.2.2]

/-- 計数は受領書の合計と個数であり、観測は一度だけ数えられ、呼び出しの順と繰り返しによらない。 -/
theorem usage_ledger (p : Platform) (calls : List Call) : let m := run p {} calls
    (∀ k c, m.counters.lookup k = some c → c.quantity = ((m.observations.filter c.covers).map (·.quantity)).sum ∧
      c.receiptCount = m.observations.countP c.covers ∧ 0 ≤ c.quantity ∧ c.quantity ≤ maxSafeInteger ∧ c.receiptCount ≤ maxSafeInteger) ∧
    (∀ o ∈ m.observations, 0 < o.quantity ∧ o.quantity ≤ maxSafeInteger ∧ ∃ k c, m.counters.lookup k = some c ∧ c.covers o) ∧
    (m.observations.map fun o => (o.projectRef, o.observationId)).Nodup ∧
    (∀ call o, parseUsageObservation p call.value = .ok o → ∀ r ∈ m.stored, r.projectRef = o.projectRef → r.observationId = o.observationId →
      m.record p call = (if r.toObserved = o.toObserved then .ok { receipt := r.toUsageReceipt, replayed := true } else .error .observationConflict, m)) ∧
    (∀ call e, (m.record p call).1 = .error e → (m.record p call).2 = m) ∧
    ∀ again, (∀ call, call ∈ again ↔ call ∈ succeeded p {} calls) → ∀ k, (run p {} again).counters.lookup k = m.counters.lookup k := by
  intro m
  have h : Ledger p m := ledger_run calls
  refine ⟨fun k c hc => ?_, fun o ho => ?_, h.nodup, fun call o hp r hr href hid => ?_, fun call e he => ?_, fun again hagain k => ?_⟩
  · have hcounts := h.counts k c hc
    have hcov : ∀ o ∈ m.observations, decide (o.account = k) = c.covers o := fun o ho => h.covers_iff hc ho
    have hpos : 0 ≤ total m.observations k := sum_nonneg (by
      simp only [forall_mem_map]
      exact fun o ho => (h.bounds o (mem_of_mem_filter ho)).1.le)
    refine ⟨?_, ?_, hcounts.quantity ▸ hpos, hcounts.quantity_le, hcounts.receiptCount_le⟩
    · rw [hcounts.quantity, total, filter_congr hcov]
    · rw [hcounts.receiptCount, countP_congr fun o ho => by rw [hcov o ho]]
  · obtain ⟨c, hc⟩ := h.counted o ho
    exact ⟨(h.bounds _ ho).1, (h.bounds _ ho).2, _, c, hc, h.covers_iff hc ho ▸ decide_eq_true rfl⟩
  · obtain ⟨⟨k, r⟩, hmem, rfl⟩ := mem_map.mp hr
    have hlook := AList.mem_lookup_iff.mpr hmem
    obtain ⟨hk, -⟩ := h.parsed k r hlook
    rw [Observed.key, href, hid] at hk
    exact h.record_existing hp (hk ▸ hlook)
  · rcases h.step call with ⟨e', he'⟩ | ⟨o, x, m', hre, -⟩
    · rw [he']
    · simp [hre] at he
  · obtain ⟨-, hsuc, hobs⟩ := (ledger_run (p := p) []).run_cases calls
    have hempty : (UsageMeter.run p {} []).observations = [] := by simp [UsageMeter.run, UsageMeter.observations, UsageMeter.stored]
    have hagain' : Ledger p (run p {} again) := ledger_run again
    obtain ⟨hsub, hall⟩ := (ledger_run (p := p) []).run_mem h (by simp [hempty]) fun call (hcall : call ∈ again) => hsuc call ((hagain call).mp hcall)
    have hback : m.observations ⊆ (run p {} again).observations := by
      intro o ho
      rcases hobs o ho with hnil | ⟨call, hcall, hrec⟩
      · simp [hempty] at hnil
      · exact hall call ((hagain call).mpr hcall) o ho hrec
    have hperm : (run p {} again).observations.Perm m.observations :=
      (perm_ext_iff_of_nodup (hagain'.nodup.of_map _) (h.nodup.of_map _)).mpr fun o => ⟨fun ho => hsub ho, fun ho => hback ho⟩
    exact Option.ext fun c => ⟨hagain'.lookup_counter h hperm, h.lookup_counter hagain' hperm.symm⟩

/-! ## 繰り返し、食い違い、失敗のある走行 -/

def readNat (s : Text) : ℕ := s.foldl (fun n c => 10 * n + (c.toNat - 48)) 0

theorem readNat_pad {w n : ℕ} (hn : n < 10 ^ w) : readNat (pad w n) = n := by
  have hdigit : ∀ x : Fin 10, (Char.ofNat (48 + x.1)).toNat = 48 + x.1 := by decide
  induction w generalizing n with
  | zero => exact (Nat.lt_one_iff.mp hn).symm
  | succ w ih =>
    have hlast : (digit n).toNat = 48 + n % 10 := hdigit ⟨n % 10, Nat.mod_lt _ (by decide)⟩
    have hini := ih (n := n / 10) (by omega)
    simp only [readNat] at hini ⊢
    rw [pad, foldl_append, hini]
    simp only [foldl_cons, foldl_nil, hlast]
    omega

def readYear (s : Text) : ℤ :=
  if s.length = 4 then readNat s
  else if s.head? = some '-' then -readNat s.tail
  else readNat s.tail

theorem readYear_isoYear {year : ℤ} (hy : year.natAbs < 1000000) : readYear (isoYear year) = year := by
  unfold readYear isoYear
  by_cases hfour : 0 ≤ year ∧ year ≤ 9999
  · simp only [hfour, and_self, if_true, length_pad]
    rw [readNat_pad (by omega)]
    omega
  · have hread := readNat_pad (w := 6) hy
    by_cases hneg : year < 0 <;> simp only [hfour, hneg, if_true, if_false, length_cons, length_pad, head?_cons, tail_cons, hread]
    · simp only [Nat.reduceEqDiff, if_false]
      omega
    · simp only [Nat.reduceEqDiff, if_false, show ¬ some '+' = some '-' by decide]
      omega

theorem dayNumber_civil (days : ℤ) : dayNumber (civil days).year (civil days).month (civil days).day = days := by
  obtain ⟨e, c, q, y, hc₀, hc₁, hq₀, hq₁, hy₀, hy₁, hyr, h₀, h₁, hsum⟩ := marchDay_spec days
  have hfour : (marchDay days).year / 4 = 100 * e + 25 * c + q := by omega
  have hhundred : (marchDay days).year / 100 = 4 * e + c := by omega
  have hera : (marchDay days).year / 400 = e := by omega
  have hcivil : ∃ mp : ℤ, mp = (5 * (marchDay days).day + 2) / 153 ∧ ((civil days).day : ℤ) = (marchDay days).day - (153 * mp + 2) / 5 + 1 ∧
      (((civil days).month : ℤ) = mp + 3 ∧ mp < 10 ∧ (civil days).year = (marchDay days).year ∨
        ((civil days).month : ℤ) = mp - 9 ∧ 10 ≤ mp ∧ (civil days).year = (marchDay days).year + 1) := by
    refine ⟨_, rfl, ?_, ?_⟩ <;> simp only [civil] <;> omega
  obtain ⟨mp, hmp, hday, ⟨hmonth, hten, hyear⟩ | ⟨hmonth, hten, hyear⟩⟩ := hcivil
  · have hback : (mp + 3 + 9) % 12 = mp := by omega
    rw [dayNumber, hmonth, hday, hyear, if_neg (by omega), hfour, hhundred, hera, hback]
    omega
  · have hback : (mp - 9 + 9) % 12 = mp := by omega
    rw [dayNumber, hmonth, hday, hyear, if_pos (by omega), add_sub_cancel_right, hfour, hhundred, hera, hback]
    omega

def readTime (s : Text) : ℤ :=
  let rest := s.drop (s.length - 20)
  let field (start width : ℕ) : ℕ := readNat ((rest.drop start).take width)
  dayNumber (readYear (s.take (s.length - 20))) (field 1 2) (field 4 2) * 86400000 +
    (field 7 2 * 3600000 + field 10 2 * 60000 + field 13 2 * 1000 + field 16 3 : ℕ)

theorem readTime_isoString {t : ℤ} (ht : InRange t) : readTime (isoString t) = t := by
  have hyear := readYear_isoYear (civil_year_bound ht)
  have hday := dayNumber_civil (t / 86400000)
  have hb := civil_bounds (t / 86400000)
  have htwo {n : ℕ} (hn : n < 100) : readNat [digit (n / 10), digit n] = n := by simpa [pad] using readNat_pad (w := 2) hn
  have hthree {n : ℕ} (hn : n < 1000) : readNat [digit (n / 10 / 10), digit (n / 10), digit n] = n := by
    simpa [pad] using readNat_pad (w := 3) hn
  simp only [readTime, isoString, length_append, length_isoRest, Nat.add_sub_cancel, take_left, drop_left, hyear]
  have hms : (t % 86400000).toNat < 86400000 := by omega
  simp only [isoRest, pad, nil_append, cons_append, drop_succ_cons, drop_zero, take_succ_cons, take_zero]
  rw [htwo hb.1, htwo hb.2, htwo (by omega), htwo (by omega), htwo (by omega), hthree (by omega), hday]
  omega

def samplePlatform : Platform where
  newDate s := some (readTime s) |>.filter fun t => InRange t ∧ isoString t = s
  receiptId projectRef observationId := observationKey projectRef observationId
  clipped s t ht := by
    simp only [Option.filter_some, decide_eq_true_eq, Option.mem_def, Option.ite_none_right_eq_some, Option.some.injEq] at ht
    exact ht.2 ▸ ht.1.1
  newDate_isoString t ht := by simp [readTime_isoString ht, ht]

def sampleCall (observationId : String) (quantity : ℚ) : Call where
  value := some
    { projectRef := .string "demo".toList, dimension := .string "cpu".toList, quantity := .number (.finite quantity)
      observationId := .string observationId.toList, observedAt := .string "2026-02-28T23:59:59.000Z".toList, subject := .undefined }
  recordedAt := "2026-03-01T00:00:00.000Z".toList

def sampleCalls : List Call := [sampleCall "a" 5, sampleCall "b" 2, sampleCall "a" 5, sampleCall "a" 6, sampleCall "c" 0]

theorem usage_ledger_sample : let m := run samplePlatform {} sampleCalls
    let again := (succeeded samplePlatform {} sampleCalls).reverse ++ succeeded samplePlatform {} sampleCalls
    m.observations.map (·.quantity) = [2, 5] ∧ m.counters.entries.map (fun c => (c.2.quantity, c.2.receiptCount)) = [(7, 2)] ∧
      again.length = 6 ∧ (m.record samplePlatform (sampleCall "a" 6)).2 = m ∧
      ∀ k, (run samplePlatform {} again).counters.lookup k = m.counters.lookup k := by
  obtain ⟨-, -, -, -, hfail, hagain⟩ := usage_ledger samplePlatform sampleCalls
  have hconflict : ((run samplePlatform {} sampleCalls).record samplePlatform (sampleCall "a" 6)).1.toBool = false := by decide +kernel
  refine ⟨by decide +kernel, by decide +kernel, by decide +kernel, ?_, hagain _ (by simp)⟩
  cases he : ((run samplePlatform {} sampleCalls).record samplePlatform (sampleCall "a" 6)).1 with
  | error e => exact hfail _ e he
  | ok result =>
    rw [he] at hconflict
    cases hconflict

end Supacloud.Usage
