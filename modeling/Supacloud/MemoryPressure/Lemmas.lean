import Supacloud.MemoryPressure.Monitor

/-! 標本ごとの変化と、標本の並びについての不変条件。 -/

namespace Supacloud.MemoryPressure

variable {s : Monitor} {x : Option MemoryPressureSnapshot} {b : MemoryPressureSnapshot} {f g : Callback} {w : World} {older : List Sample}
  {blocked recovering : Bool} {cgroup : String} {throttling : Bool}

/-! ## 標本の並び -/

def MemoryPressureSnapshot.Band (snapshot : MemoryPressureSnapshot) : Prop := admissionBlockRatio ≤ snapshot.ratio ∧ snapshot.ratio < 1

def Streak (blocked recovering : Bool) : ℕ → List Sample → Prop
  | 0, _ => True
  | n + 1, sample :: before :: older =>
    sample.blocked = blocked ∧ sample.recovering = recovering ∧
      (∃ a b, before.snapshot = some a ∧ sample.snapshot = some b ∧ a.stable b ∧ b.Band) ∧ Streak blocked recovering n (before :: older)
  | _ + 1, _ => False

def Pressing (older : List Sample) (b : MemoryPressureSnapshot) : Prop :=
  b.highBytes * (9 / 10) ≤ b.currentBytes ∧
    (b.highBytes ≤ b.currentBytes ∨ ∃ before rest a, older = before :: rest ∧ before.snapshot = some a ∧ a.throttled b)

def PressureStreak (cgroup : String) : ℕ → List Sample → Prop
  | 0, _ => True
  | n + 1, sample :: older => (∃ b, sample.snapshot = some b ∧ b.cgroup = cgroup ∧ Pressing older b) ∧ PressureStreak cgroup n older
  | _ + 1, [] => False

theorem Streak.mono {samples m n} (h : Streak blocked recovering n samples) (hm : m ≤ n) : Streak blocked recovering m samples := by
  induction n generalizing m samples with
  | zero =>
    obtain rfl : m = 0 := by omega
    exact h
  | succ n ih =>
    cases m with
    | zero => trivial
    | succ m =>
      match samples, h with
      | sample :: before :: older, ⟨hb, hr, hs, hre⟩ => exact ⟨hb, hr, hs, ih hre (by omega)⟩

theorem PressureStreak.mono {samples m n} (h : PressureStreak cgroup n samples) (hm : m ≤ n) : PressureStreak cgroup m samples := by
  induction n generalizing m samples with
  | zero =>
    obtain rfl : m = 0 := by omega
    exact h
  | succ n ih =>
    cases m with
    | zero => trivial
    | succ m =>
      match samples, h with
      | sample :: older, ⟨hb, hre⟩ => exact ⟨hb, ih hre (by omega)⟩

/-! ## 受け入れの変化 -/

namespace Monitor

def Continues (s : Monitor) (b : MemoryPressureSnapshot) : Prop := (∃ a, s.previous = some a ∧ a.stable b) ∧ b.Band

inductive Updates (s : Monitor) (b : MemoryPressureSnapshot) : Monitor → Prop
  | block : Updates s b { s with admissionBlocked := true, admissionRecovering := false, stableSamples := 0 }
  | resume (h : b.ratio < admissionBlockRatio) :
    Updates s b { s with admissionBlocked := false, admissionRecovering := false, stableSamples := 0 }
  | advance (h : s.Continues b) (hn : admissionStableSamples ≤ s.stableSamples + 1) :
    Updates s b { s with admissionRecovering := s.admissionBlocked, admissionBlocked := false, stableSamples := 0 }
  | count (h : s.Continues b) (hmode : s.admissionBlocked ∨ s.admissionRecovering) : Updates s b { s with stableSamples := s.stableSamples + 1 }
  | reset (h : b.ratio < 1) : Updates s b { s with stableSamples := 0 }
  | stay (h : b.ratio < 1) (hb : s.admissionBlocked = false) (hr : s.admissionRecovering = false) : Updates s b s

theorem updateAdmissionState_updates : s.Updates b (s.updateAdmissionState (some b) (s.newHighEvents (some b))) := by
  unfold updateAdmissionState
  simp only
  split
  · exact .block
  rename_i hlow
  push Not at hlow
  have hone : b.ratio < 1 := hlow.1
  split
  · rename_i hop
    exact .resume (by
      rcases hop.2 with h | h
      · exact h.trans_lt (by norm_num [admissionResumeRatio, admissionBlockRatio])
      · exact h.1)
  rename_i hba
  split
  · rename_i hmode
    cases hst : (!s.newHighEvents (some b) && s.previous.any (·.stable b)) with
    | false => exact .reset hone
    | true =>
      simp only [Bool.and_eq_true, Bool.not_eq_true', Option.any_eq_true] at hst
      obtain ⟨hth, a, ha, hst⟩ := hst
      have hlow : admissionBlockRatio ≤ b.ratio := not_lt.mp fun h => hba ⟨hmode, .inr ⟨h, by simp [hth]⟩⟩
      have hcos : s.Continues b := ⟨⟨a, ha, hst⟩, hlow, hone⟩
      simp only [if_true]
      split
      · exact .advance hcos ‹_›
      · exact .count hcos hmode
  · rename_i hmode
    push Not at hmode
    exact .stay hone (by simpa using hmode.1) (by simpa using hmode.2)

theorem updateAdmissionState_high (h : 1 ≤ b.ratio) : (s.updateAdmissionState (some b) throttling).admissionBlocked = true := by
  simp [updateAdmissionState, h]

theorem updateAdmissionState_frame : ∃ blocked recovering n, s.updateAdmissionState x throttling =
    { s with admissionBlocked := blocked, admissionRecovering := recovering, stableSamples := n } := by
  unfold updateAdmissionState
  cases x with
  | none => exact ⟨s.admissionBlocked, s.admissionRecovering, 0, rfl⟩
  | some b =>
    simp only
    split
    · exact ⟨_, _, _, rfl⟩
    split
    · exact ⟨_, _, _, rfl⟩
    split
    · generalize (if (!throttling && s.previous.any (·.stable b)) = true then s.stableSamples + 1 else 0) = n
      split
      · exact ⟨_, _, _, rfl⟩
      · exact ⟨s.admissionBlocked, s.admissionRecovering, n, rfl⟩
    · exact ⟨s.admissionBlocked, s.admissionRecovering, s.stableSamples, rfl⟩

/-! ## 標本を扱った後 -/

abbrev updated (s : Monitor) (x : Option MemoryPressureSnapshot) : Monitor := s.updateAdmissionState x (s.newHighEvents x)

inductive Counts (s : Monitor) (x : Option MemoryPressureSnapshot) (throttling : Bool) : Monitor × Option MemoryPressureSnapshot → Prop
  | clear : Counts s x throttling ({ s with pressureSamples := 0, pressureCgroup := none }, none)
  | press (b : MemoryPressureSnapshot) (hx : x = some b) (hnear : b.highBytes * (9 / 10) ≤ b.currentBytes)
    (hpress : b.highBytes ≤ b.currentBytes ∨ throttling) (n : ℕ)
    (hn : n = if s.pressureCgroup = some b.cgroup then s.pressureSamples + 1 else 1) (stopped : Bool) (signal : Option MemoryPressureSnapshot)
    (hsignal : signal = none ∧ stopped = s.stopped ∨ signal = some b ∧ stopped = true ∧ 3 ≤ n) :
    Counts s x throttling ({ s with pressureSamples := n, pressureCgroup := some b.cgroup, stopped }, signal)

theorem countPressure_counts : s.Counts x throttling (s.countPressure x throttling) := by
  unfold countPressure
  cases x with
  | none => exact .clear
  | some b =>
    simp only
    split
    · exact .clear
    rename_i hpress
    simp only [not_or, not_and, not_lt, Bool.not_eq_true, Bool.not_eq_false'] at hpress
    have hor : b.highBytes ≤ b.currentBytes ∨ throttling = true := (le_or_gt b.highBytes b.currentBytes).imp_right hpress.2
    obtain ⟨n, hn⟩ : ∃ n, n = if s.pressureCgroup = some b.cgroup then s.pressureSamples + 1 else 1 := ⟨_, rfl⟩
    rw [← hn]
    split
    · exact .press b rfl hpress.1 hor n hn s.stopped none (.inl ⟨rfl, rfl⟩)
    · exact .press b rfl hpress.1 hor n hn true (some b) (.inr ⟨rfl, rfl, by omega⟩)

def Told (s : Monitor) (x : Option MemoryPressureSnapshot) (calls : List Call) : Prop :=
  calls = [] ∨ calls = [.onAdmissionStateChange (s.updated x).admissionBlocked (s.updated x).admissionRecovering x]

inductive Handles (s : Monitor) (x : Option MemoryPressureSnapshot) : Monitor × List Call → Prop
  | threw (calls : List Call) (hcalls : s.Told x calls) (stopped : Bool) (hstopped : s.stopped → stopped) :
    Handles s x ({ s.updated x with stopped }.caught, calls ++ [.onError])
  | quiet (calls : List Call) (hcalls : s.Told x calls) (stopped : Bool) (hstopped : s.stopped → stopped) (counted : Monitor)
    (hcounts : { s.updated x with stopped, previous := x }.Counts x (s.newHighEvents x) (counted, none)) :
    Handles s x ({ counted with inFlight := false }, calls)
  | signal (calls : List Call) (hcalls : s.Told x calls) (stopped : Bool) (counted : Monitor) (b : MemoryPressureSnapshot)
    (hcounts : { s.updated x with stopped, previous := x }.Counts x (s.newHighEvents x) (counted, some b)) (next : Monitor) (last : List Call)
    (hnext : next = counted.caught ∧ last = [.onPressure b, .onError] ∨ next = { counted with inFlight := false } ∧ last = [.onPressure b]) :
    Handles s x (next, calls ++ last)

theorem sampled_handles : s.Handles x (s.sampled x f g) := by
  unfold sampled
  simp only
  obtain ⟨calls, stopped, hto, hstopped, hcalls, hmo⟩ : ∃ (calls : List Call) (stopped : Bool), s.Told x calls ∧ (s.stopped → stopped) ∧
      calls = (if ((s.updated x).admissionBlocked ≠ s.admissionBlocked || (s.updated x).admissionRecovering ≠ s.admissionRecovering) = true then
        [.onAdmissionStateChange (s.updated x).admissionBlocked (s.updated x).admissionRecovering x] else []) ∧
      { s.updated x with stopped } = (if ((s.updated x).admissionBlocked ≠ s.admissionBlocked ||
        (s.updated x).admissionRecovering ≠ s.admissionRecovering) = true then (s.updated x).called f else s.updated x) := by
    obtain ⟨blocked, recovering, n, hfr⟩ := @updateAdmissionState_frame s x (s.newHighEvents x)
    have hstopped : (s.updated x).stopped = s.stopped := by simp [hfr]
    split
    · exact ⟨_, s.stopped || f.stops, .inr rfl, fun h => by simp [h], rfl, by simp [called, hstopped]⟩
    · exact ⟨_, s.stopped, .inl rfl, id, rfl, by rw [← hstopped]⟩
  rw [← hcalls, ← hmo]
  split
  · exact .threw calls hto stopped hstopped
  · have hcounts := @countPressure_counts { s.updated x with stopped, previous := x } x (s.newHighEvents x)
    split
    · rename_i counted hco
      exact .quiet calls hto stopped hstopped counted (hco ▸ hcounts)
    · rename_i counted b hco
      split
      · exact .signal calls hto stopped counted b (hco ▸ hcounts) _ _ (.inl ⟨rfl, rfl⟩)
      · exact .signal calls hto stopped counted b (hco ▸ hcounts) _ _ (.inr ⟨rfl, rfl⟩)

theorem Handles.admission {r} (h : s.Handles x r) : r.1.admissionBlocked = (s.updated x).admissionBlocked ∧
    r.1.admissionRecovering = (s.updated x).admissionRecovering ∧
    (r.1.stableSamples = (s.updated x).stableSamples ∧ r.1.previous = x ∨ r.1.stableSamples = 0 ∧ r.1.previous = none) := by
  cases h with
  | threw calls hcalls stopped hstopped => exact ⟨rfl, rfl, .inr ⟨rfl, rfl⟩⟩
  | quiet calls hcalls stopped hstopped counted hcounts =>
    cases hcounts with
    | clear | press => exact ⟨rfl, rfl, .inl ⟨rfl, rfl⟩⟩
  | signal calls hcalls stopped counted b hcounts next last hnext =>
    cases hcounts with
    | press =>
      rcases hnext with ⟨rfl, rfl⟩ | ⟨rfl, rfl⟩
      · exact ⟨rfl, rfl, .inr ⟨rfl, rfl⟩⟩
      · exact ⟨rfl, rfl, .inl ⟨rfl, rfl⟩⟩

theorem Handles.told {r} (h : s.Handles x r) {blocked recovering y} (hca : .onAdmissionStateChange blocked recovering y ∈ r.2) :
    blocked = (s.updated x).admissionBlocked ∧ recovering = (s.updated x).admissionRecovering := by
  obtain ⟨calls, hcalls, hmem⟩ : ∃ calls, s.Told x calls ∧ .onAdmissionStateChange blocked recovering y ∈ calls := by
    cases h with
    | threw calls hcalls => exact ⟨calls, hcalls, by simpa using hca⟩
    | quiet calls hcalls => exact ⟨calls, hcalls, hca⟩
    | signal calls hcalls stopped counted b hcounts next last hnext =>
      refine ⟨calls, hcalls, ?_⟩
      rcases hnext with ⟨-, rfl⟩ | ⟨-, rfl⟩ <;> simpa using hca
  rcases hcalls with rfl | rfl
  · simp at hmem
  · simp only [List.mem_singleton, Call.onAdmissionStateChange.injEq] at hmem
    exact ⟨hmem.1, hmem.2.1⟩

end Monitor

/-! ## 不変条件 -/

def Call.isPressure : Call → Bool
  | .onPressure _ => true
  | _ => false

structure World.Inv (w : World) : Prop where
  previous : ∀ a, w.monitor.previous = some a → ∃ sample older, w.samples = sample :: older ∧ sample.snapshot = some a
  exclusive : w.monitor.admissionBlocked = false ∨ w.monitor.admissionRecovering = false
  idle : w.monitor.admissionBlocked = false → w.monitor.admissionRecovering = false → w.monitor.stableSamples = 0
  streak : Streak w.monitor.admissionBlocked w.monitor.admissionRecovering w.monitor.stableSamples w.samples
  pressure : ∀ cgroup, w.monitor.pressureCgroup = some cgroup → PressureStreak cgroup w.monitor.pressureSamples w.samples
  told : ∀ blocked recovering x, .onAdmissionStateChange blocked recovering x ∈ w.calls → blocked = false ∨ recovering = false
  fresh : w.monitor.stopped = false → w.calls.countP Call.isPressure = 0
  once : w.calls.countP Call.isPressure ≤ 1

namespace World.Inv

variable (hi : w.Inv)
include hi

theorem extend (h : w.monitor.Continues b) : Streak w.monitor.admissionBlocked w.monitor.admissionRecovering (w.monitor.stableSamples + 1)
      ({ blocked := w.monitor.admissionBlocked, recovering := w.monitor.admissionRecovering, snapshot := some b } :: w.samples) := by
  obtain ⟨⟨a, ha, hst⟩, hba⟩ := h
  obtain ⟨before, older, hsas, hbe⟩ := hi.previous a ha
  have hstr := hi.streak
  rw [hsas] at hstr ⊢
  exact ⟨rfl, rfl, ⟨a, b, hbe, rfl, hst, hba⟩, hstr⟩

theorem pressing (hnear : b.highBytes * (9 / 10) ≤ b.currentBytes)
    (h : b.highBytes ≤ b.currentBytes ∨ w.monitor.newHighEvents (some b)) : Pressing w.samples b := by
  refine ⟨hnear, h.imp_right fun h => ?_⟩
  simp only [Monitor.newHighEvents, Option.any_some, Option.any_eq_true] at h
  obtain ⟨a, ha, hthr⟩ := h
  obtain ⟨before, older, hsas, hbe⟩ := hi.previous a ha
  exact ⟨before, older, a, hsas, hbe, hthr⟩

theorem updated (x) : ((w.monitor.updated x).admissionBlocked = false ∨ (w.monitor.updated x).admissionRecovering = false) ∧
    ((w.monitor.updated x).admissionBlocked = false → (w.monitor.updated x).admissionRecovering = false →
      (w.monitor.updated x).stableSamples = 0) ∧
    Streak (w.monitor.updated x).admissionBlocked (w.monitor.updated x).admissionRecovering (w.monitor.updated x).stableSamples
      ({ blocked := w.monitor.admissionBlocked, recovering := w.monitor.admissionRecovering, snapshot := x } :: w.samples) := by
  cases x with
  | none => exact ⟨hi.exclusive, fun _ _ => rfl, trivial⟩
  | some b =>
    have hups := Monitor.updateAdmissionState_updates (s := w.monitor) (b := b)
    generalize hu : w.monitor.updateAdmissionState (some b) (w.monitor.newHighEvents (some b)) = u at hups
    simp only [Monitor.updated, hu]
    cases hups with
    | block => exact ⟨.inr rfl, fun _ _ => rfl, trivial⟩
    | resume h | advance h hn => exact ⟨.inl rfl, fun _ _ => rfl, trivial⟩
    | count h hmode =>
      refine ⟨hi.exclusive, fun hb hr => ?_, hi.extend h⟩
      rcases hmode with hmode | hmode
      · simp [hmode] at hb
      · simp [hmode] at hr
    | reset h => exact ⟨hi.exclusive, fun _ _ => rfl, trivial⟩
    | stay h hb hr => exact ⟨hi.exclusive, hi.idle, by rw [hi.idle hb hr]; trivial⟩

end World.Inv

end Supacloud.MemoryPressure
