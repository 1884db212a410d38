import Supacloud.MemoryPressure.Lemmas

/-! 受け入れと圧迫の知らせの正しさ。 -/

namespace Supacloud.MemoryPressure

open Library Monitor Call World List

variable {x : Option MemoryPressureSnapshot} {w : World} {e : Event} {f g : Callback}

namespace World.Inv

variable (hi : w.Inv)
include hi

theorem counts {p stopped} (blocked recovering)
    (h : { w.monitor.updated x with stopped, previous := x }.Counts x (w.monitor.newHighEvents x) p) :
    (∀ cgroup, p.1.pressureCgroup = some cgroup →
      PressureStreak cgroup p.1.pressureSamples ({ blocked, recovering, snapshot := x } :: w.samples)) ∧
    ∀ b, p.2 = some b → p.1.stopped ∧ PressureStreak b.cgroup 3 ({ blocked, recovering, snapshot := x } :: w.samples) := by
  obtain ⟨_, _, _, hfr⟩ := @updateAdmissionState_frame w.monitor x (w.monitor.newHighEvents x)
  cases h with
  | clear => exact ⟨by simp, by simp⟩
  | press b hx hnr hps n hn stopped' signal hsi =>
    subst hx
    have hst : PressureStreak b.cgroup n ({ blocked, recovering, snapshot := some b } :: w.samples) := by
      have hpr := hi.pressing hnr hps
      simp only [Monitor.updated, hfr] at hn
      split at hn
      · subst hn
        exact ⟨⟨b, rfl, rfl, hpr⟩, hi.pressure b.cgroup ‹_›⟩
      · subst hn
        exact ⟨⟨b, rfl, rfl, hpr⟩, trivial⟩
    constructor
    · intro cgroup hcg
      cases hcg
      exact hst
    · intro b' hb'
      rcases hsi with ⟨rfl, -⟩ | ⟨rfl, hsto, hth⟩
      · cases hb'
      · cases hb'
        exact ⟨hsto, hst.mono hth⟩

theorem signals {r} (blocked recovering) (h : w.monitor.Handles x r) : (∀ cgroup, r.1.pressureCgroup = some cgroup →
      PressureStreak cgroup r.1.pressureSamples ({ blocked, recovering, snapshot := x } :: w.samples)) ∧
    (∀ b, .onPressure b ∈ r.2 → PressureStreak b.cgroup 3 ({ blocked, recovering, snapshot := x } :: w.samples)) ∧
    (r.2.countP isPressure = 0 ∨ r.1.stopped ∧ r.2.countP isPressure = 1) := by
  have hqu : ∀ calls, w.monitor.Told x calls → calls.countP isPressure = 0 ∧ ∀ b, .onPressure b ∉ calls := by
    rintro calls (rfl | rfl) <;> simp [isPressure]
  cases h with
  | threw calls hcas stopped hsto =>
    have hno := hqu calls hcas
    exact ⟨by simp [caught], by simp [hno.2], .inl (by simp [hno.1, isPressure])⟩
  | quiet calls hcas stopped hsto counted hcns =>
    have hno := hqu calls hcas
    exact ⟨(hi.counts _ _ hcns).1, by simp [hno.2], .inl hno.1⟩
  | signal calls hcas stopped counted b hcns next last hne =>
    have hno := hqu calls hcas
    obtain ⟨hst, hsi⟩ := hi.counts blocked recovering hcns
    obtain ⟨hsto, hth⟩ := hsi b rfl
    rcases hne with ⟨rfl, rfl⟩ | ⟨rfl, rfl⟩
    · refine ⟨by simp [caught], fun b' hb' => ?_, .inr ⟨hsto, by simp [hno.1, countP_cons, isPressure]⟩⟩
      simp only [mem_append, hno.2, mem_cons, not_mem_nil, onPressure.injEq, reduceCtorEq, false_or, or_false] at hb'
      exact hb' ▸ hth
    · refine ⟨hst, fun b' hb' => ?_, .inr ⟨hsto, by simp [hno.1, isPressure]⟩⟩
      simp only [mem_append, hno.2, mem_singleton, onPressure.injEq, false_or] at hb'
      exact hb' ▸ hth

theorem record {r} (hli : w.monitor.stopped = false) (h : w.monitor.Handles x r) : (w.record x r).Inv := by
  obtain ⟨hbl, hre, hsta⟩ := h.admission
  obtain ⟨hex, hidl, hst⟩ := hi.updated x
  obtain ⟨hpre, -, hco⟩ := hi.signals w.monitor.admissionBlocked w.monitor.admissionRecovering h
  have hno := hi.fresh hli
  constructor
  · intro a ha
    rcases hsta with ⟨-, hprs⟩ | ⟨-, hprs⟩
    · exact ⟨_, _, rfl, hprs.symm.trans ha⟩
    · simp [World.record, hprs] at ha
  · simpa [World.record, hbl, hre] using hex
  · intro hb hr
    rcases hsta with ⟨hn, -⟩ | ⟨hn, -⟩
    · simp only [World.record, hbl, hre] at hb hr
      simpa [World.record, hn] using hidl hb hr
    · exact hn
  · rcases hsta with ⟨hn, -⟩ | ⟨hn, -⟩
    · simpa [World.record, hbl, hre, hn] using hst
    · simp [World.record, hn, Streak]
  · exact hpre
  · intro blocked recovering y hmem
    simp only [World.record, mem_append, mem_reverse] at hmem
    rcases hmem with hmem | hmem
    · obtain ⟨rfl, rfl⟩ := h.told hmem
      exact hex
    · exact hi.told blocked recovering y hmem
  · intro hfre
    rcases hco with hco | ⟨hsto, -⟩
    · simp [World.record, hco, hno]
    · simp [World.record, hsto] at hfre
  · simp only [World.record, countP_append, countP_reverse, hno]
    omega

theorem flags {inFlight stopped} (h : stopped = false → w.monitor.stopped = false) :
    { w with monitor := { w.monitor with inFlight, stopped } }.Inv :=
  ⟨hi.previous, hi.exclusive, hi.idle, hi.streak, hi.pressure, hi.told, fun hs => hi.fresh (h hs), hi.once⟩

theorem step : (w.step e).Inv := by
  cases e with
  | stop => exact hi.flags nofun
  | poll =>
    simp only [step]
    split
    · exact hi
    · exact hi.flags id
  | settle outcome f g =>
    simp only [step]
    split
    · exact hi
    cases outcome with
    | failed =>
      constructor
      · simp [World.record, Monitor.caught]
      · exact hi.exclusive
      · exact fun _ _ => rfl
      · simp [World.record, Monitor.caught, Streak]
      · simp [World.record, Monitor.caught]
      · simpa [World.record] using hi.told
      · simpa [World.record, Monitor.caught, Call.isPressure] using hi.fresh
      · simpa [World.record, Call.isPressure] using hi.once
    | sampled x =>
      simp only
      split
      · exact hi.flags id
      · exact hi.record (by simpa using ‹¬ w.monitor.stopped = true›) sampled_handles

end World.Inv

structure World.Admits (w : World) (e : Event) : Prop where
  exclusive : ¬ ((w.step e).monitor.admissionBlocked ∧ (w.step e).monitor.admissionRecovering)
  told : ∀ blocked recovering x, .onAdmissionStateChange blocked recovering x ∈ (w.step e).calls → ¬ (blocked = true ∧ recovering = true)
  leavesBlocked : w.monitor.admissionBlocked → ¬ (w.step e).monitor.admissionBlocked →
    ∃ sample b, (w.step e).samples = sample :: w.samples ∧ sample.snapshot = some b ∧ b.ratio < 1 ∧
      (admissionBlockRatio ≤ b.ratio → (w.step e).monitor.admissionRecovering ∧ Streak true false 3 (w.step e).samples)
  leavesRecovering : w.monitor.admissionRecovering → ¬ (w.step e).monitor.admissionRecovering → ¬ (w.step e).monitor.admissionBlocked →
    ∃ sample b, (w.step e).samples = sample :: w.samples ∧ sample.snapshot = some b ∧
      (admissionBlockRatio ≤ b.ratio → Streak false true 3 (w.step e).samples)
  high : ∀ b f g, e = .settle (.sampled (some b)) f g → w.monitor.inFlight → ¬ w.monitor.stopped → 1 ≤ b.ratio →
    (w.step e).monitor.admissionBlocked
  once : (w.step e).calls.countP Call.isPressure ≤ 1
  pressure : ∃ calls, (w.step e).calls = calls ++ w.calls ∧ ∀ b, .onPressure b ∈ calls → PressureStreak b.cgroup 3 (w.step e).samples

namespace World.Inv

variable (hi : w.Inv)
include hi

theorem leaves {r} (h : w.monitor.Handles x r) :
    (w.monitor.admissionBlocked → ¬ r.1.admissionBlocked → ∃ b, x = some b ∧ b.ratio < 1 ∧ (admissionBlockRatio ≤ b.ratio →
      r.1.admissionRecovering ∧ Streak true false 3 (w.record x r).samples)) ∧
    (w.monitor.admissionRecovering → ¬ r.1.admissionRecovering → ¬ r.1.admissionBlocked → ∃ b, x = some b ∧ (admissionBlockRatio ≤ b.ratio →
      Streak false true 3 (w.record x r).samples)) := by
  obtain ⟨hbl, hre, -⟩ := h.admission
  rw [hbl, hre]
  cases x with
  | none =>
    simp only [Monitor.updated, Monitor.updateAdmissionState]
    exact ⟨fun hb hnot => absurd hb hnot, fun hr hnot => absurd hr hnot⟩
  | some b =>
    have hups := updateAdmissionState_updates (s := w.monitor) (b := b)
    generalize hu : w.monitor.updateAdmissionState (some b) (w.monitor.newHighEvents (some b)) = u at hups
    simp only [Monitor.updated, hu]
    have hex := hi.exclusive
    cases hups with
    | block => simp
    | resume hlow =>
      have hone : b.ratio < 1 := hlow.trans (by norm_num [admissionBlockRatio])
      exact ⟨fun _ _ => ⟨b, rfl, hone, fun h => absurd hlow (not_lt.mpr h)⟩, fun _ _ _ => ⟨b, rfl, fun h => absurd hlow (not_lt.mpr h)⟩⟩
    | advance hcos hn =>
      have hst := (hi.extend hcos).mono hn
      simp only [admissionStableSamples] at hst
      refine ⟨fun hb _ => ⟨b, rfl, hcos.2.2, fun _ => ⟨hb, ?_⟩⟩, fun hr _ _ => ⟨b, rfl, fun _ => ?_⟩⟩
      · have hr : w.monitor.admissionRecovering = false := by simpa [hb] using hex
        simpa [World.record, hb, hr] using hst
      · have hb : w.monitor.admissionBlocked = false := by simpa [hr] using hex
        simpa [World.record, hb, hr] using hst
    | count hcos hmo | reset hone | stay hone hb hr => exact ⟨fun hb hnot => absurd hb hnot, fun hr hnot => absurd hr hnot⟩

theorem admits : w.Admits e := by
  have hne : (w.step e).Inv := hi.step
  have hex : ¬ ((w.step e).monitor.admissionBlocked ∧ (w.step e).monitor.admissionRecovering) := by
    rcases hne.exclusive with h | h <;> simp [h]
  have hto : ∀ blocked recovering x, .onAdmissionStateChange blocked recovering x ∈ (w.step e).calls → ¬ (blocked = true ∧ recovering = true) := by
    intro blocked recovering x hmem
    rcases hne.told blocked recovering x hmem with rfl | rfl <;> simp
  -- 標本を扱わない一歩では、受け入れは変わらない。
  have hke : ∀ w', w.step e = w' → w'.monitor.admissionBlocked = w.monitor.admissionBlocked →
      w'.monitor.admissionRecovering = w.monitor.admissionRecovering →
      (∃ calls, w'.calls = calls ++ w.calls ∧ ∀ b, .onPressure b ∉ calls) →
      (∀ b f g, e = .settle (.sampled (some b)) f g → w.monitor.inFlight → w.monitor.stopped) → w.Admits e := by
    rintro w' rfl hb hr ⟨calls, hcas, hno⟩ hidl
    exact { exclusive := hex
            told := hto
            leavesBlocked := fun h hnot => absurd (hb ▸ h) hnot
            leavesRecovering := fun h hnot => absurd (hr ▸ h) hnot
            high := fun b f g he hf hs => absurd (hidl b f g he hf) hs
            once := hne.once
            pressure := ⟨calls, hcas, fun b h => absurd h (hno b)⟩ }
  cases e with
  | stop => exact hke _ rfl rfl rfl ⟨[], rfl, by simp⟩ (by simp)
  | poll =>
    have h : (w.step .poll).monitor.admissionBlocked = w.monitor.admissionBlocked ∧
        (w.step .poll).monitor.admissionRecovering = w.monitor.admissionRecovering ∧ (w.step .poll).calls = w.calls := by
      simp only [World.step]
      split <;> exact ⟨rfl, rfl, rfl⟩
    exact hke _ rfl h.1 h.2.1 ⟨[], h.2.2, by simp⟩ (by simp)
  | settle outcome f g =>
    by_cases hfl : w.monitor.inFlight
    · cases outcome with
      | failed =>
        have h : w.step (.settle .failed f g) = w.record none (w.monitor.caught, [.onError]) := by simp [World.step, hfl]
        exact hke _ h rfl rfl ⟨[.onError], rfl, by simp⟩ (by simp)
      | sampled x =>
        cases hsto : w.monitor.stopped with
        | true =>
          have h : w.step (.settle (.sampled x) f g) = { w with monitor := { w.monitor with inFlight := false } } := by
            simp [World.step, hfl, hsto]
          exact hke _ h rfl rfl ⟨[], rfl, by simp⟩ (fun _ _ _ _ _ => hsto)
        | false =>
          have hste : w.step (.settle (.sampled x) f g) = w.record x (w.monitor.sampled x f g) := by simp [World.step, hfl, hsto]
          have hhas := Monitor.sampled_handles (s := w.monitor) (x := x) (f := f) (g := g)
          obtain ⟨hleB, hleR⟩ := hi.leaves hhas
          constructor
          · exact hex
          · exact hto
          · rw [hste]
            intro hb hnot
            obtain ⟨b, rfl, hone, h⟩ := hleB hb hnot
            exact ⟨_, b, rfl, rfl, hone, h⟩
          · rw [hste]
            intro hr hnot hnb
            obtain ⟨b, rfl, h⟩ := hleR hr hnot hnb
            exact ⟨_, b, rfl, rfl, h⟩
          · intro b f' g' he _ _ hra
            cases he
            rw [hste]
            exact hhas.admission.1.trans (Monitor.updateAdmissionState_high hra)
          · exact hne.once
          · rw [hste]
            exact ⟨_, rfl, fun b hb => (hi.signals _ _ hhas).2.1 b (mem_reverse.mp hb)⟩
    · have h : w.step (.settle outcome f g) = w := by simp [World.step, hfl]
      exact hke _ h rfl rfl ⟨[], rfl, by simp⟩ (fun _ _ _ _ hf => absurd hf hfl)

end World.Inv

theorem World.initial_inv : ({} : World).Inv where
  previous := by simp
  exclusive := .inl rfl
  idle := fun _ _ => rfl
  streak := trivial
  pressure := by simp
  told := by simp
  fresh := by simp
  once := by simp

/-- 標本、失敗、停止がどの順に来ても、どの一歩も、受け入れと知らせの決まりを守る。 -/
theorem monitor_admits (es : List Event) (e : Event) : (run World.step {} es).Admits e :=
  World.Inv.admits (run_invariant (I := Inv) (fun _ _ h => h.step) initial_inv)

end Supacloud.MemoryPressure
