import Mathlib.Algebra.Ring.Divisibility.Basic
import Mathlib.Algebra.Ring.Int.Defs
import Mathlib.Data.Int.ModEq
import Supacloud.Worker.Schedule

/-! 窓の中の時刻と、鍵の一意性。 -/

namespace Supacloud.Worker

open Library BackfillWindow List

variable {scheduleId : Text} {step last current t : ℤ} {ts : List ℤ}

/-! ## 鍵 -/

theorem validateJobKey_ok {value key} (h : validateJobKey value = .ok key) : key = value := by
  unfold validateJobKey at h
  split at h
  · exact (Except.ok.inj h).symm
  · cases h

theorem stableJobKey_ok {jobKey key} (h : stableJobKey scheduleQueue jobKey = .ok key) : key = scheduleQueue ++ ':' :: jobKey := by
  have hqu : validateQueueName scheduleQueue = .ok scheduleQueue := by decide
  unfold stableJobKey at h
  rw [hqu] at h
  cases hjob : validateJobKey jobKey with
  | error e => simp [hjob, bind, Except.bind] at h
  | ok k =>
    obtain rfl := validateJobKey_ok hjob
    rw [hjob] at h
    exact validateJobKey_ok h

theorem scheduledJobKey_ok {occurrence key} (h : scheduledJobKey scheduleId occurrence = .ok key) :
    ∃ t, occurrence.time = some t ∧ key = scheduleQueue ++ ':' :: (scheduleId ++ ':' :: isoString t) := by
  unfold scheduledJobKey timestamp at h
  cases hid : validateJobKey scheduleId with
  | error e => simp [hid, bind, Except.bind, Except.mapError] at h
  | ok id =>
    obtain rfl := validateJobKey_ok hid
    cases ht : occurrence.time with
    | none => simp [ht, hid, bind, Except.bind, Except.mapError] at h
    | some t =>
      cases hkey : stableJobKey scheduleQueue (id ++ ':' :: isoString t) with
      | error e => simp [ht, hid, hkey, bind, Except.bind, Except.mapError] at h
      | ok k =>
        obtain rfl : k = key := by simpa [ht, hid, hkey, bind, Except.bind, Except.mapError] using h
        exact ⟨t, rfl, stableJobKey_ok hkey⟩

theorem tail_injective {id id' : Text} {t t' : ℤ} (h : id ++ ':' :: isoString t = id' ++ ':' :: isoString t') :
    id = id' ∧ isoString t = isoString t' := by
  -- 年の桁数が違えば、同じ位置に数字と区切りが来る。
  have hlo : ∀ {id id' : Text} {y y' : ℤ} {m d s m' d' s' : ℕ}, (isoYear y).length = 7 → (isoYear y').length = 4 →
      id ++ ':' :: (isoYear y ++ isoRest m d s) ≠ id' ++ ':' :: (isoYear y' ++ isoRest m' d' s') := by
    intro id id' y y' m d s m' d' s' hlo hsh heq
    have hne : ¬ (0 ≤ y ∧ y ≤ 9999) := by
      intro hs
      simp [isoYear, hs] at hlo
    rw [isoYear, if_neg hne] at heq
    simp only [pad, nil_append, cons_append] at heq
    have hsp := @append_inj' _ (id ++ [':', _, _]) (_ :: _) id' _ (by simpa using heq)
      (by simp [hsh])
    have hdi := (cons_eq_cons.mp hsp.2).1
    have := digit_isDigit (y.natAbs / 10 / 10 / 10 / 10)
    rw [hdi] at this
    exact absurd this (by decide)
  have hln (y : ℤ) : (isoYear y).length = 4 ∨ (isoYear y).length = 7 := by
    unfold isoYear
    split <;> simp
  unfold isoString at h ⊢
  rcases hln (civil (t / 86400000)).year with hy | hy <;> rcases hln (civil (t' / 86400000)).year with hy' | hy'
  · have := append_inj' h (by simp [hy, hy'])
    exact ⟨this.1, (cons_eq_cons.mp this.2).2⟩
  · exact absurd h.symm (hlo hy' hy)
  · exact absurd h (hlo hy hy')
  · have := append_inj' h (by simp [hy, hy'])
    exact ⟨this.1, (cons_eq_cons.mp this.2).2⟩

theorem scheduledJobKey_injective {id id' key d d'} (h : scheduledJobKey id d = .ok key)
    (h' : scheduledJobKey id' d' = .ok key) : id = id' ∧ d.time = d'.time := by
  obtain ⟨t, ht, rfl⟩ := scheduledJobKey_ok h
  obtain ⟨t', ht', heq⟩ := scheduledJobKey_ok h'
  obtain ⟨rfl, hiso⟩ := tail_injective (cons_eq_cons.mp (append_cancel_left heq)).2
  have := isoString_injective (d.clipped t ht) (d'.clipped t' ht') hiso
  exact ⟨rfl, by rw [ht, ht', this]⟩

/-! ## 時刻の列 -/

structure Lists (P : ℤ → Prop) (ts : List ℤ) : Prop where
  sorted : ts.Pairwise (· < ·)
  exact : ∀ t, t ∈ ts ↔ P t

theorem Lists.unique {P ts ts'} (h : Lists P ts) (h' : Lists P ts') : ts = ts' := by
  apply @List.Perm.eq_of_pairwise _ (· < ·)
  · intro a b _ _ hab hba
    omega
  · exact h.sorted
  · exact h'.sorted
  · exact (perm_ext_iff_of_nodup (h.sorted.imp (by omega)) (h'.sorted.imp (by omega))).mpr fun t => by rw [h.exact, h'.exact]

theorem Lists.append {P Q R ts ts'} (h : Lists P ts) (h' : Lists Q ts') (hPQ : ∀ a b, P a → Q b → a < b)
    (hR : ∀ t, R t ↔ P t ∨ Q t) : Lists R (ts ++ ts') where
  sorted := pairwise_append.mpr ⟨h.sorted, h'.sorted, fun a ha b hb => hPQ a b ((h.exact a).mp ha) ((h'.exact b).mp hb)⟩
  exact t := by rw [mem_append, h.exact, h'.exact, hR]

theorem occurrencesFrom_spec {hst} (hke : ∀ t, current ≤ t → t ≤ last → ∃ key, scheduledJobKey scheduleId (newDate t) = .ok key) :
    ∃ ts, occurrencesFrom scheduleId step last hst current = .ok (ts.map newDate) ∧
      Lists (fun t => current ≤ t ∧ t ≤ last ∧ t ≡ current [ZMOD step]) ts ∧
      (ts.length : ℤ) = if last < current then 0 else (last - current) / step + 1 := by
  fun_induction occurrencesFrom scheduleId step last hst current with
  | case1 current hle occurrence ih =>
    obtain ⟨key, hkey⟩ := hke current (by omega) hle
    obtain ⟨ts, hok, hlis, hln⟩ := ih fun t h₀ h₁ => hke t (by omega) h₁
    refine ⟨current :: ts, ?_, ⟨?_, ?_⟩, ?_⟩
    · simp [occurrence, hkey, hok, bind, Except.bind, pure, Except.pure]
    · exact pairwise_cons.mpr ⟨fun t ht => by have := (hlis.exact t).mp ht; omega, hlis.sorted⟩
    · intro t
      rw [mem_cons, hlis.exact, Int.modEq_iff_dvd, Int.modEq_iff_dvd, show current + step - t = current - t + step by omega,
        dvd_add_self_right]
      constructor
      · rintro (rfl | ⟨h₀, h₁, h₂⟩)
        · simpa using hle
        · exact ⟨by omega, h₁, h₂⟩
      · rintro ⟨h₀, h₁, h₂⟩
        by_cases heq : t = current
        · exact .inl heq
        · have := Int.le_of_dvd (by omega) ((Int.dvd_neg.mpr h₂))
          exact .inr ⟨by omega, h₁, h₂⟩
    · have hdiv : (last - (current + step)) / step = (last - current) / step - 1 := by
        rw [show last - (current + step) = last - current + (-1) * step by omega, Int.add_mul_ediv_right _ _ (by omega)]
        omega
      rw [length_cons, Nat.cast_succ, hln, if_neg (show ¬ last < current by omega)]
      split
      · rw [Int.ediv_eq_zero_of_lt (by omega) (by omega)]
      · omega
  | case2 current hlt =>
    refine ⟨[], rfl, ⟨List.Pairwise.nil, fun t => ?_⟩, ?_⟩
    · simp only [not_mem_nil, false_iff]
      omega
    · simp
      omega

/-! ## 窓 -/

variable {window : BackfillWindow} {r : Window}

def Window.Occurs (r : Window) (t : ℤ) : Prop := r.first ≤ t ∧ t ≤ r.last ∧ t ≡ r.anchor [ZMOD r.interval]

structure BackfillWindow.Valid (window : BackfillWindow) (r : Window) : Prop where
  check : window.check = .ok r
  keys : ∀ t, r.first ≤ t → t ≤ r.last → ∃ key, scheduledJobKey window.scheduleId (newDate t) = .ok key

def BackfillWindow.between (window : BackfillWindow) (first last : ℤ) : BackfillWindow :=
  { window with fromDate := newDate first, toDate := newDate last }

def Window.narrow (r : Window) (first last : ℤ) (h : first ≤ last) : Window := { r with first, last, ordered := h }

theorem remainder_eq (r : Window) : r.remainder = (r.first - r.anchor) % r.interval := by
  have hpos := r.positive
  have hlow := Int.lt_tmod_of_pos (r.first - r.anchor) hpos
  rw [Window.remainder, Int.tmod_eq_emod_of_nonneg (by omega), Int.add_emod_right]
  exact Int.ModEq.symm (Int.modEq_iff_dvd.mpr ⟨-(r.first - r.anchor).tdiv r.interval, by
    rw [Int.tmod_def, Int.mul_neg]; omega⟩)

theorem start_spec (r : Window) : r.first ≤ r.start ∧ r.start < r.first + r.interval ∧ r.start ≡ r.anchor [ZMOD r.interval] := by
  have hpos := r.positive
  have hlow := Int.emod_nonneg (r.first - r.anchor) (show r.interval ≠ 0 by omega)
  have hhi := Int.emod_lt_of_pos (r.first - r.anchor) hpos
  have hdvd : r.interval ∣ r.first - r.anchor - r.remainder := by
    rw [remainder_eq]
    exact Int.dvd_self_sub_emod
  rw [← remainder_eq] at hlow hhi
  unfold Window.start
  refine ⟨by split <;> omega, by split <;> omega, (Int.modEq_iff_dvd.mpr ?_).symm⟩
  split
  · simpa [*] using hdvd
  · rw [show r.first + (r.interval - r.remainder) - r.anchor = r.first - r.anchor - r.remainder + r.interval by omega]
    exact dvd_add_self_right.mpr hdvd

theorem occurs_iff : r.Occurs t ↔ r.start ≤ t ∧ t ≤ r.last ∧ t ≡ r.start [ZMOD r.interval] := by
  obtain ⟨hlow, hhi, hph⟩ := start_spec r
  constructor
  · rintro ⟨h₀, h₁, h₂⟩
    have hmod := h₂.trans hph.symm
    refine ⟨?_, h₁, hmod⟩
    by_contra hlt
    have := Int.le_of_dvd (by omega) (Int.modEq_iff_dvd.mp hmod)
    omega
  · rintro ⟨h₀, h₁, h₂⟩
    exact ⟨by omega, h₁, h₂.trans hph⟩

theorem backfill_eq (h : window.Valid r) : ∃ ts, Lists r.Occurs ts ∧
    backfillOccurrences window = if r.limit < ts.length then .error .backfillLimit else .ok (ts.map newDate) := by
  obtain ⟨hlow, -, -⟩ := start_spec r
  obtain ⟨ts, hok, hlis, hln⟩ := @occurrencesFrom_spec window.scheduleId _ r.last r.start r.positive fun t h₀ h₁ => h.keys t (by omega) h₁
  refine ⟨ts, ⟨hlis.sorted, fun t => by rw [hlis.exact, occurs_iff]⟩, ?_⟩
  have hco : r.count = ts.length := by
    rw [hln, Window.count]
    split
    · rfl
    · rw [Int.tdiv_eq_ediv_of_nonneg (by omega)]
  by_cases hli : r.limit < r.count
  · rw [hco] at hli
    simp [backfillOccurrences, h.check, hco, hli, bind, Except.bind, throw, throwThe, MonadExceptOf.throw]
  · rw [hco] at hli
    simp [backfillOccurrences, h.check, hco, hli, hok, bind, Except.bind]

theorem timestamp_ok {date} (h : timestamp date = .ok t) : date.time = some t := by
  unfold timestamp at h
  split at h
  · cases h
  · simp_all

theorem timestamp_newDate (h : -maxTime ≤ t ∧ t ≤ maxTime) : timestamp (newDate t) = .ok t := by
  simp [timestamp, newDate, h]

theorem bound_ok {first last anchor} (h : window.bound first last anchor = .ok r) : r.first = first ∧ r.last = last ∧ r.anchor = anchor ∧
    ∀ a b (hab), (window.between a b).bound a b anchor = .ok (r.narrow a b hab) := by
  unfold bound at h ⊢
  simp only [between]
  cases hs : window.intervalSeconds.safeInteger? with
  | none => simp [hs] at h
  | some seconds =>
    cases hl : (window.limit.getD (.finite 1000)).safeInteger? with
    | none => simp [hl] at h
    | some limit =>
      simp only [hs, hl] at h
      split at h
      · rename_i hc
        cases h
        refine ⟨rfl, rfl, rfl, fun a b hab => ?_⟩
        simp [hc.1, hc.2.1, hc.2.2.2, hab, Window.narrow]
      · cases h

theorem BackfillWindow.Valid.between (h : window.Valid r) {a b} (ha : r.first ≤ a) (hab) (hb : b ≤ r.last) :
    (window.between a b).Valid (r.narrow a b hab) := by
  refine ⟨?_, fun t h₀ h₁ => h.keys t (ha.trans h₀) (h₁.trans hb)⟩
  have hch := h.check
  unfold BackfillWindow.check at hch ⊢
  cases hfr : timestamp window.fromDate with
  | error e => simp [hfr, bind, Except.bind] at hch
  | ok first =>
    cases hto : timestamp window.toDate with
    | error e => simp [hfr, hto, bind, Except.bind] at hch
    | ok last =>
      cases han : window.anchorTime with
      | error e => simp [hfr, hto, han, bind, Except.bind] at hch
      | ok anchor =>
        cases hkey : scheduledJobKey window.scheduleId (newDate first) with
        | error e => simp [hfr, hto, han, hkey, bind, Except.bind] at hch
        | ok key =>
          simp only [hfr, hto, han, hkey, bind, Except.bind] at hch
          obtain ⟨rfl, rfl, rfl, hbo⟩ := bound_ok hch
          have hcl := window.fromDate.clipped _ (timestamp_ok hfr)
          have hcl' := window.toDate.clipped _ (timestamp_ok hto)
          obtain ⟨key', hke'⟩ := h.keys a ha (hab.trans hb)
          have han' : (window.between a b).anchorTime = .ok r.anchor := han
          simp only [han']
          simp only [BackfillWindow.between, timestamp_newDate (show -maxTime ≤ a ∧ a ≤ maxTime by omega),
            timestamp_newDate (show -maxTime ≤ b ∧ b ≤ maxTime by omega), hke', bind, Except.bind]
          exact hbo a b hab

end Supacloud.Worker
