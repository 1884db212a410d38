import Mathlib.Data.List.Count
import Supacloud.RateLimit.Limiter

/-!
# 制限の保たれること

箱が、窓の終わらない時刻をちょうど持ち続けることから、窓の中の数が決まる。
-/

namespace Supacloud.RateLimit

open Library RateLimiter List

variable {w : World} {action key : Text} {now : Int} {rule : RateLimitRule} {call : Call}

def World.Owns (w : World) (action key : Text) : Prop :=
  ∀ hit ∈ w.allowed, bucketKey hit.action hit.key = bucketKey action key → hit.action = action ∧ hit.key = key

structure World.Kept (w : World) : Prop where
  past : ∀ hit ∈ w.allowed, hit.time ≤ w.clock
  live : ∀ action key rule, w.limiter.rules action = some rule → w.Owns action key → ∀ cutoff, w.clock - rule.windowMs ≤ cutoff →
    since (w.limiter.bucket (bucketKey action key)) cutoff = since (w.times action key) cutoff
  bounded : w.Bounded

theorem RateLimiter.bucket_store {times} {limiter : RateLimiter} {name n : Text} :
    (limiter.store name times).bucket n = if n = name then times else limiter.bucket n := by
  simp only [bucket, store]
  split <;> rfl

theorem RateLimiter.bucket_sweep {limiter : RateLimiter} {name : Text} :
    (limiter.sweep now).bucket name = if stale now (limiter.bucket name) then [] else limiter.bucket name := by
  cases hhi : limiter.hits name with
  | none => simp [bucket, sweep, hhi]
  | some times =>
    cases hst : stale now times <;> simp [bucket, sweep, hhi, Option.filter, hst]

namespace World

theorem kept_start {rules : Text → Option RateLimitRule} {clock : Int} : (World.start rules clock).Kept where
  past _ hh := (not_mem_nil hh).elim
  live _ _ _ _ _ _ _ := rfl
  bounded _ _ _ _ _ := Nat.zero_le _

theorem times_append {hit : Hit} {limiter : RateLimiter} {clock : Int} :
    ({ limiter, allowed := w.allowed ++ [hit], clock } : World).times action key =
      w.times action key ++ if action = hit.action ∧ key = hit.key then [hit.time] else [] := by
  rw [times, filter_append, map_append, times]
  by_cases hsa : action = hit.action ∧ key = hit.key
  · simp [hsa]
  · rw [if_neg hsa, filter_cons_of_neg (by grind)]
    rfl

theorem mem_times {t : Int} : t ∈ w.times action key ↔ ∃ hit ∈ w.allowed, hit.action = action ∧ hit.key = key ∧ hit.time = t := by
  simp [times, and_assoc]

theorem Kept.le_clock (h : w.Kept) {t : Int} (ht : t ∈ w.times action key) : t ≤ w.clock := by
  obtain ⟨hit, hh, -, -, rfl⟩ := mem_times.mp ht
  exact h.past hit hh

theorem Kept.sweep (h : w.Kept) (hor : w.clock ≤ now) (hsp : w.Spared (.sweep now)) : (w.step (.sweep now)).Kept where
  past hit hh := Int.le_trans (h.past hit hh) hor
  live action key rule hru how cutoff hcu := by
    have hlive := h.live action key rule hru how cutoff (by simp only [step] at hcu; omega)
    refine .trans ?_ hlive
    simp only [step, bucket_sweep]
    split
    · rename_i hst
      rw [hlive, eq_comm, since, since, filter_nil, filter_eq_nil_iff]
      -- 捨てる箱の時刻は、どれも窓が終わっている。
      intro t ht
      obtain ⟨hit, hh, rfl, rfl, rfl⟩ := mem_times.mp ht
      have hend := hsp hit hh rule hru hst
      simp only [step, decide_eq_true_eq] at hcu ⊢
      omega
    · rfl
  bounded := h.bounded

theorem Kept.later (h : w.Kept) (hor : w.clock ≤ now) : ({ w with clock := now } : World).Kept where
  past hit hh := Int.le_trans (h.past hit hh) hor
  live action key rule hru how cutoff hcu := h.live action key rule hru how cutoff (by simp only at hcu; omega)
  bounded := h.bounded

section

variable (h : w.Kept) (hor : w.clock ≤ now) (hru : w.limiter.rules action = some rule) (how : w.Owns action key)

include h hor hru how

theorem recent_eq : since (w.limiter.bucket (bucketKey action key)) (now - rule.windowMs) =
    since (w.times action key) (now - rule.windowMs) :=
  h.live action key rule hru how _ (by omega)

theorem step_refused (hle : rule.limit ≤ (since (w.times action key) (now - rule.windowMs)).length) :
    w.step (.check action key now) = { w with clock := now } := by
  simp [step, check, hru, recent_eq h hor hru how, hle]

theorem step_allowed (hlt : (since (w.times action key) (now - rule.windowMs)).length < rule.limit) : w.step (.check action key now) =
      { limiter := w.limiter.store (bucketKey action key) (since (w.times action key) (now - rule.windowMs) ++ [now])
        allowed := w.allowed ++ [⟨action, key, now⟩]
        clock := now } := by
  simp [step, check, hru, recent_eq h hor hru how, Nat.not_le.mpr hlt]

theorem kept_allowed (hlt : (since (w.times action key) (now - rule.windowMs)).length < rule.limit) :
    (w.step (.check action key now)).Kept := by
  rw [step_allowed h hor hru how hlt]
  refine ⟨?_, ?_, ?_⟩
  · intro hit hh
    rcases mem_append.mp hh with hh | hh
    · exact Int.le_trans (h.past hit hh) hor
    · cases mem_singleton.mp hh
      exact Int.le_refl now
  · intro action' key' rule' hru' how' cutoff hcu
    have hold := h.live action' key' rule' hru' (fun hit hh => how' hit (mem_append_left _ hh)) cutoff (by simp only at hcu; omega)
    rw [bucket_store, times_append]
    by_cases hna : bucketKey action' key' = bucketKey action key
    · obtain ⟨rfl, rfl⟩ := how' ⟨action, key, now⟩ (by simp) hna.symm
      cases hru.symm.trans hru'
      have hcu' : now - rule.windowMs ≤ cutoff := hcu
      simp only [↓reduceIte, and_self, since, filter_append, filter_filter]
      congr 1
      refine filter_congr fun t _ => ?_
      grind
    · rw [if_neg hna, if_neg (by grind), append_nil]
      exact hold
  · intro action' key' rule' start hru'
    rw [times_append]
    split
    · rename_i hsa
      obtain ⟨rfl, rfl⟩ := hsa
      cases hru.symm.trans hru'
      by_cases hin : start ≤ now ∧ now < start + rule.windowMs
      · have hle : ((w.times action' key').countP fun t => start ≤ t && t < start + rule.windowMs) ≤
            (w.times action' key').countP fun t => t > now - rule.windowMs := by
          refine countP_mono_left fun t _ => ?_
          simp only [Bool.and_eq_true, decide_eq_true_eq]
          omega
        rw [since, ← countP_eq_length_filter] at hlt
        simp only [countP_append, countP_singleton, hin]
        simp
        omega
      · simpa [hin] using h.bounded action' key' rule start hru
    · simpa using h.bounded action' key' rule' start hru'

end

theorem Kept.step (h : w.Kept) (hor : w.InOrder call) (hsp : w.Spared call) : (w.step call).Kept := by
  cases call with
  | sweep now => exact h.sweep hor hsp
  | check action key now =>
    have hor : w.clock ≤ now := hor
    cases hru : w.limiter.rules action with
    | none => simpa [World.step, check, hru] using h.later hor
    | some rule =>
      obtain ⟨-, how⟩ := hsp rule hru
      by_cases hle : rule.limit ≤ (since (w.times action key) (now - rule.windowMs)).length
      · rw [step_refused h hor hru how hle]
        exact h.later hor
      · exact kept_allowed h hor hru how (Nat.not_le.mp hle)

/-! ## 断られたあと -/

theorem check_allowed {limiter : RateLimiter} (hru : limiter.rules action = some rule)
    (hlt : (since (limiter.bucket (bucketKey action key)) (now - rule.windowMs)).length < rule.limit) :
    (limiter.check action key now).1 = none := by
  simp [check, hru, Nat.not_le.mpr hlt]

theorem bucket_sweeps (limiter : RateLimiter) (sweeps : List Int) (name : Text) :
    (sweeps.foldl sweep limiter).rules = limiter.rules ∧
      ((sweeps.foldl sweep limiter).bucket name).Sublist (limiter.bucket name) := by
  induction sweeps generalizing limiter with
  | nil => exact ⟨rfl, .refl _⟩
  | cons now sweeps ih =>
    obtain ⟨hru, hsu⟩ := ih (limiter.sweep now)
    refine ⟨hru, hsu.trans ?_⟩
    rw [bucket_sweep]
    split
    · exact nil_sublist _
    · exact .refl _

theorem Kept.refuses (h : w.Kept) (hor : w.InOrder call) (hsp : w.Spared call) : w.Refuses call := by
  cases call with
  | sweep now => trivial
  | check action key now =>
    intro rule s hru hs
    have hor : w.clock ≤ now := hor
    obtain ⟨hli, how⟩ := hsp rule hru
    have hre := recent_eq h hor hru how
    have hbo := h.bounded action key rule (now - rule.windowMs + 1) hru
    have hco : (since (w.times action key) (now - rule.windowMs)).length =
        (w.times action key).countP fun t => now - rule.windowMs < t ∧ t ≤ now := by
      rw [since, ← countP_eq_length_filter]
      refine countP_congr fun t ht => ?_
      have hpa := h.le_clock ht
      simp only [decide_eq_true_eq]
      omega
    have hsame : (w.limiter.check action key now).2 = w.limiter := by
      unfold check at hs ⊢
      grind
    simp only [check, hru] at hs
    rw [hre] at hs
    split at hs
    · rename_i hle
      refine ⟨hco ▸ hle, fun sweeps => ?_⟩
      obtain ⟨hrs, hsu⟩ := bucket_sweeps w.limiter sweeps (bucketKey action key)
      rw [hsame]
      refine check_allowed (hrs ▸ hru) (Nat.lt_of_le_of_lt (hsu.filter _).length_le ?_)
      have hff : (w.limiter.bucket (bucketKey action key)).filter (fun t => t > now + 1000 * s - rule.windowMs) =
          (since (w.times action key) (now - rule.windowMs)).filter fun t => t > now + 1000 * s - rule.windowMs := by
        rw [← hre, since, filter_filter]
        refine filter_congr fun t _ => ?_
        grind
      rw [hff]
      cases hrc : since (w.times action key) (now - rule.windowMs) with
      | nil =>
        rw [hrc] at hle
        exact absurd (Nat.le_trans hli hle) (by simp)
      | cons first rest =>
        -- 一番古い時刻は、秒数の後には窓から出ている。
        rw [hrc] at hs hco
        have hou : ¬ first > now + 1000 * s - rule.windowMs := by
          simp only [head?_cons, Option.getD_some, Option.some.injEq] at hs
          omega
        rw [filter_cons_of_neg (by simpa using hou)]
        refine Nat.lt_of_lt_of_le (Nat.lt_succ_of_le (length_filter_le ..)) ?_
        change (first :: rest).length ≤ rule.limit
        rw [hco]
        refine Nat.le_trans (countP_mono_left fun t _ => ?_) hbo
        simp only [decide_eq_true_eq]
        omega
    · cases hs

theorem Kept.along {calls : List Call} (h : w.Kept) (hal : Along World.step (fun w call => w.InOrder call ∧ w.Spared call) w calls) :
    (run World.step w calls).Bounded ∧ Along World.step World.Refuses w calls := by
  induction calls generalizing w with
  | nil => exact ⟨h.bounded, trivial⟩
  | cons call calls ih =>
    obtain ⟨⟨hor, hsp⟩, hal⟩ := hal
    obtain ⟨hbo, hre⟩ := ih (h.step hor hsp) hal
    exact ⟨hbo, h.refuses hor hsp, hre⟩

end World

end Supacloud.RateLimit
