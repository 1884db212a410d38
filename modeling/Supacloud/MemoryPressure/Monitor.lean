import Mathlib
import Supacloud.Library.Runs

/-!
# 記憶の監視（edge-runtime/memory-pressure.ts）

量は有理数で、比も丸めずに比べる。`poll` は、標本を頼む所と受け取る所に分かれ、その間に `stop` が入りうる。
-/

namespace Supacloud.MemoryPressure

inductive Source where
  | max
  | rss

structure MemoryPressureSnapshot where
  cgroup : String
  source : Option Source := none
  currentBytes : ℚ
  highBytes : ℚ
  highEvents : ℚ

namespace MemoryPressureSnapshot

variable (previous snapshot : MemoryPressureSnapshot)

def ratio : ℚ := snapshot.currentBytes / max 1 snapshot.highBytes

def comparable : Bool := previous.cgroup = snapshot.cgroup && previous.highBytes = snapshot.highBytes

def throttled : Bool := previous.comparable snapshot && previous.highEvents < snapshot.highEvents

def stable : Bool :=
  previous.comparable snapshot && snapshot.highEvents = previous.highEvents && snapshot.currentBytes ≤ previous.currentBytes

end MemoryPressureSnapshot

def admissionBlockRatio : ℚ := 85 / 100

def admissionResumeRatio : ℚ := 75 / 100

def admissionStableSamples : ℕ := 3

structure Callback where
  stops : Bool
  throws : Bool

inductive Call where
  | onAdmissionStateChange (blocked recovering : Bool) (snapshot : Option MemoryPressureSnapshot)
  | onPressure (snapshot : MemoryPressureSnapshot)
  | onError

structure Monitor where
  inFlight : Bool := false
  stopped : Bool := false
  admissionBlocked : Bool := false
  admissionRecovering : Bool := false
  stableSamples : ℕ := 0
  pressureSamples : ℕ := 0
  pressureCgroup : Option String := none
  previous : Option MemoryPressureSnapshot := none

namespace Monitor

variable (s : Monitor)

def newHighEvents (snapshot : Option MemoryPressureSnapshot) : Bool :=
  snapshot.any fun snapshot => s.previous.any (·.throttled snapshot)

def updateAdmissionState (snapshot : Option MemoryPressureSnapshot) (throttling : Bool) : Monitor :=
  match snapshot with
  | none => { s with stableSamples := 0 }
  | some snapshot =>
    let comparable := s.previous.any (·.comparable snapshot)
    let stable := !throttling && s.previous.any (·.stable snapshot)
    if 1 ≤ snapshot.ratio ∨ snapshot.source.isSome ∧ admissionBlockRatio ≤ snapshot.ratio ∨
        admissionBlockRatio ≤ snapshot.ratio ∧ (throttling ∨ s.admissionRecovering ∧ comparable ∧ !stable) then
      { s with admissionBlocked := true, admissionRecovering := false, stableSamples := 0 }
    else if (s.admissionBlocked ∨ s.admissionRecovering) ∧
        (snapshot.ratio ≤ admissionResumeRatio ∨ snapshot.ratio < admissionBlockRatio ∧ !throttling) then
      { s with admissionBlocked := false, admissionRecovering := false, stableSamples := 0 }
    else if s.admissionBlocked ∨ s.admissionRecovering then
      let stableSamples := if stable then s.stableSamples + 1 else 0
      if admissionStableSamples ≤ stableSamples then
        { s with admissionRecovering := s.admissionBlocked, admissionBlocked := false, stableSamples := 0 }
      else { s with stableSamples }
    else s

def caught : Monitor :=
  { s with previous := none, stableSamples := 0, pressureSamples := 0, pressureCgroup := none, inFlight := false }

def called (callback : Callback) : Monitor := { s with stopped := s.stopped || callback.stops }

/-- 圧迫を数える。三つ目で止まり、`onPressure` に渡す標本を返す。 -/
def countPressure (snapshot : Option MemoryPressureSnapshot) (newHighEvents : Bool) : Monitor × Option MemoryPressureSnapshot :=
  match snapshot with
  | none => ({ s with pressureSamples := 0, pressureCgroup := none }, none)
  | some snapshot =>
    if snapshot.currentBytes < snapshot.highBytes * (9 / 10) ∨ snapshot.currentBytes < snapshot.highBytes ∧ !newHighEvents then
      ({ s with pressureSamples := 0, pressureCgroup := none }, none)
    else
      let pressureSamples := if s.pressureCgroup = some snapshot.cgroup then s.pressureSamples + 1 else 1
      let s := { s with pressureSamples, pressureCgroup := some snapshot.cgroup }
      if pressureSamples < 3 then (s, none) else ({ s with stopped := true }, some snapshot)

def sampled (snapshot : Option MemoryPressureSnapshot) (onAdmissionStateChange onPressure : Callback) : Monitor × List Call :=
  let newHighEvents := s.newHighEvents snapshot
  let updated := s.updateAdmissionState snapshot newHighEvents
  let changed := updated.admissionBlocked ≠ s.admissionBlocked || updated.admissionRecovering ≠ s.admissionRecovering
  let calls := if changed then [Call.onAdmissionStateChange updated.admissionBlocked updated.admissionRecovering snapshot] else []
  let told := if changed then updated.called onAdmissionStateChange else updated
  if changed && onAdmissionStateChange.throws then (told.caught, calls ++ [.onError])
  else
    match { told with previous := snapshot }.countPressure snapshot newHighEvents with
    | (counted, none) => ({ counted with inFlight := false }, calls)
    | (counted, some snapshot) =>
      if onPressure.throws then (counted.caught, calls ++ [.onPressure snapshot, .onError])
      else ({ counted with inFlight := false }, calls ++ [.onPressure snapshot])

end Monitor

inductive Outcome where
  | sampled (snapshot : Option MemoryPressureSnapshot)
  | failed

inductive Event where
  | stop
  | poll
  | settle (outcome : Outcome) (onAdmissionStateChange onPressure : Callback)

structure Sample where
  blocked : Bool
  recovering : Bool
  snapshot : Option MemoryPressureSnapshot

structure World where
  monitor : Monitor := {}
  samples : List Sample := []
  calls : List Call := []

namespace World

variable (w : World)

def record (snapshot : Option MemoryPressureSnapshot) (next : Monitor × List Call) : World where
  monitor := next.1
  samples := { blocked := w.monitor.admissionBlocked, recovering := w.monitor.admissionRecovering, snapshot } :: w.samples
  calls := next.2.reverse ++ w.calls

def step : Event → World
  | .stop => { w with monitor := { w.monitor with stopped := true } }
  | .poll => if w.monitor.inFlight || w.monitor.stopped then w else { w with monitor := { w.monitor with inFlight := true } }
  | .settle outcome onAdmissionStateChange onPressure =>
    if !w.monitor.inFlight then w
    else
      match outcome with
      | .failed => w.record none (w.monitor.caught, [.onError])
      | .sampled snapshot =>
        if w.monitor.stopped then { w with monitor := { w.monitor with inFlight := false } }
        else w.record snapshot (w.monitor.sampled snapshot onAdmissionStateChange onPressure)

end World

end Supacloud.MemoryPressure
