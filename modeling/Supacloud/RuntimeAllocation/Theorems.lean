import Supacloud.RuntimeAllocation.Lemmas.Soundness

/-! # ポートの所有 -/

namespace Supacloud.RuntimeAllocation

open Library

open Contracts (JsString)

open Vectors (js)

structure World.PortsOwned (configuration : PortConfiguration) (w : World) : Prop where
  distinct : (w.ports.map PortRow.port).Nodup
  owner : ∀ port ∈ w.ports, ∃ row ∈ w.allocations, row.key = port.key ∧ row.retiredAt = none
  ranged : ∀ port ∈ w.ports, configuration.range.start ≤ port.port ∧ port.port ≤ configuration.range.stop
  recorded : ∀ row ∈ w.allocations, row.retiredAt = none → (w.ownedPorts row.key).Perm row.runtime.ports
  retired : ∀ row ∈ w.allocations, row.retiredAt ≠ none → w.ownedPorts row.key = []

def World.QueuesOwned (w : World) : Prop :=
  ∀ a ∈ w.allocations, ∀ b ∈ w.allocations, a.retiredAt = none → b.retiredAt = none → a.projectRef = b.projectRef → SameOwner a b

structure World.Allocates (platform : Platform) (configuration : PortConfiguration) (w : World)
    (candidate input : ApplicationRuntimeAllocationInput) : Prop where
  retired : ∀ row ∈ w.allocations, row.key = input.key → row.retiredAt ≠ none → ∀ env now,
    allocate platform configuration w candidate env now = .error .allocationRetired
  same : ∀ row ∈ w.allocations, row.key = input.key → row.retiredAt = none → row.request = input → ∀ env now,
    allocate platform configuration w candidate env now = .ok (w, row.record)
  different : ∀ row ∈ w.allocations, row.key = input.key → row.retiredAt = none → row.request ≠ input →
    (platform.stableSha256 row.request = platform.stableSha256 input → row.request = input) → ∀ env now,
    allocate platform configuration w candidate env now = .error .allocationConflict
  exhausted : (∀ row ∈ w.allocations, row.key ≠ input.key) → ∀ env now range, admission platform configuration w input env = .ok range →
    (allocate platform configuration w candidate env now = .error .portRangeExhausted ↔
      (∀ port ∈ range.portList, w.free env port = true → (env.isAvailable port).isSome = true) ∧
        (range.portList.filter (w.usablePort env)).length < input.runtime.release.httpTargets.length)
  enough : (∀ row ∈ w.allocations, row.key ≠ input.key) → ∀ env now range, admission platform configuration w input env = .ok range →
    (∀ port ∈ range.portList, w.free env port = true → (env.isAvailable port).isSome = true) →
      input.runtime.release.httpTargets.length ≤ (range.portList.filter (w.usablePort env)).length →
        ∃ w' result, allocate platform configuration w candidate env now = .ok (w', result)

variable {platform : Platform} {configuration : PortConfiguration} {w : World} {candidate input : ApplicationRuntimeAllocationInput}

theorem World.Sound.portsOwned (h : w.Sound platform configuration) : w.PortsOwned configuration :=
  ⟨h.distinct, h.owner, h.ranged, h.recorded, fun _ hrow hre => h.retired_owns_none hrow hre⟩

theorem World.Sound.allocates (h : w.Sound platform configuration) (hinput : normalizedInput platform candidate = .ok input) :
    w.Allocates platform configuration candidate input := by
  have hn := normal_of_ok hinput
  constructor
  case retired =>
    intro row hrow hkey hre env now
    rw [h.allocate_existing hinput hrow hkey, if_neg hre]
  case same =>
    intro row hrow hkey hac hsa env now
    rw [h.allocate_existing hinput hrow hkey, if_pos hac, if_pos ((h.requested row hrow).fingerprint.trans (by rw [hsa]))]
  case different =>
    intro row hrow hkey hac hdi hsha env now
    have hfi : row.requestFingerprint ≠ platform.stableSha256 input := by
      rw [(h.requested row hrow).fingerprint]
      exact fun heq => hdi (hsha heq)
    rw [h.allocate_existing hinput hrow hkey, if_pos hac, if_neg hfi]
  case exhausted =>
    intro hnew env now range hgr
    rw [World.allocate_new hinput hnew, h.allocateNew_eq hn hnew hgr, ← assignPorts_exhausted_iff]
    cases assignPorts platform w range input (platform.stableSha256 input) env with
    | error e | ok ports => simp [Except.map]
  case enough =>
    intro hnew env now range hgr hans hen
    rw [World.allocate_new hinput hnew, h.allocateNew_eq hn hnew hgr, assignPorts_eq]
    have hsc : Answers (probePort (w.unavailablePorts env) env.isAvailable)
        (scanOrder range (scanStart range (platform.stableSha256 input))) := answers_probePort.mpr hans
    have hco : (scanTargets platform input).length ≤ ((scanOrder range (scanStart range (platform.stableSha256 input))).filter
          (usable (probePort (w.unavailablePorts env) env.isAvailable))).length := by
      rw [count_usable, length_scanTargets]
      exact hen
    obtain ⟨ports, hpos⟩ := assign_enough hsc hco probePort_ne
    exact ⟨_, _, congrArg (Except.map _) hpos⟩

theorem ports_owned (platform : Platform) (configuration : PortConfiguration) (events : List Event) :
    (run (step platform configuration) .empty events).PortsOwned configuration ∧
      (run (step platform configuration) .empty events).QueuesOwned ∧
      (∀ row ∈ (run (step platform configuration) .empty events).allocations, Taken platform configuration events row) ∧
      (∀ row ∈ (run (step platform configuration) .empty events).allocations, row.retiredAt ≠ none → ∀ later,
        row ∈ (run (step platform configuration) .empty (events ++ later)).allocations) ∧
      ∀ candidate input, normalizedInput platform candidate = .ok input →
        (run (step platform configuration) .empty events).Allocates platform configuration candidate input := by
  have hso := World.sound_run platform configuration events
  refine ⟨hso.portsOwned, hso.owners, taken_run platform configuration events, fun row hrow hre later => ?_,
    fun candidate input hinput => hso.allocates hinput⟩
  rw [run_append]
  exact hso.keeps_retired_run hrow hre later

/-! ## 二つの割り当てと引退 -/

def sampleRelease : ApplicationReleaseRecord :=
  { projectRef := js "demo", applicationId := js "shop", releaseId := js "release", manifestSha256 := js "manifest"
    createdAt := js "2026-01-01T00:00:00.000Z"
    targets := [js "web", js "api"].map fun name => { name, objectId := js "object", kind := .http, execution := none, compute := none } }

def sampleInput (activationId configurationId : JsString) : ApplicationRuntimeAllocationInput :=
  { runtime := { release := sampleRelease, activationId, environmentId := js "production", bunVersion := some (js "1.4.4") }, configurationId }

def samplePlatform : Platform where
  checkWorkerExecutionGroup _ := true
  checkReleaseRecord _ := true
  applicationReleaseId _ _ _ := js "release"
  isCanonicalTimestamp _ := true
  isProjectRef _ := true
  isActivationId _ := true
  isEnvironmentId _ := true
  isBunVersion _ := true
  localeCompare a b := if a < b then -1 else if b < a then 1 else 0
  stableSha256 input := input.configurationId.length * 2 ^ 224
  retirementSha256 _ _ _ := 1

def sampleConfiguration : PortConfiguration := { range := { start := 20000, stop := 20003 }, excluded := [] }

def sampleEnvironment : AllocationEnvironment :=
  { policyBudget := none, workerBudget := none, tenantPolicy := none, reservedPorts := [20003], isAvailable := fun _ => some true }

/-- 一つ目は範囲の終わりから折り返して取る。二つ目は、ポートが足りずに断られ、一つ目が引退したあとで取る。 -/
def sampleEvents : List Event :=
  [.allocate (sampleInput (js "first") (js "ab")) sampleEnvironment 0 true, .allocate (sampleInput (js "second") (js "a")) sampleEnvironment 1 true,
    .beginRetire 0 (js "demo", js "first"), .retire 0 2 true, .allocate (sampleInput (js "second") (js "a")) sampleEnvironment 3 true]

def sampleRun : World := run (step samplePlatform sampleConfiguration) .empty sampleEvents

theorem sampleRun_allocations : sampleRun.allocations =
    [{ newRow samplePlatform (sampleInput (js "first") (js "ab")) [(js "api", 20002), (js "web", 20000)] 0 with
        retiredAt := some 2, retirementFingerprint := some 1 },
      newRow samplePlatform (sampleInput (js "second") (js "a")) [(js "api", 20001), (js "web", 20002)] 3] := by decide

theorem ports_owned_sample : sampleRun.ports.map PortRow.port = [20001, 20002] ∧ sampleRun.PortsOwned sampleConfiguration ∧
    allocate samplePlatform sampleConfiguration sampleRun (sampleInput (js "second") (js "abc")) sampleEnvironment 4 = .error .allocationConflict := by
  have ⟨hports, _, _, _, hallocates⟩ := ports_owned samplePlatform sampleConfiguration sampleEvents
  refine ⟨by decide, hports, ?_⟩
  have hmem : newRow samplePlatform (sampleInput (js "second") (js "a")) [(js "api", 20001), (js "web", 20002)] 3 ∈ sampleRun.allocations := by
    rw [sampleRun_allocations]
    exact List.mem_cons_of_mem _ (List.mem_singleton_self _)
  exact (hallocates _ _ (by rfl)).different _ hmem (by rfl) (by rfl) (by decide) (by decide) _ _

/-- 使えるポートが足りなくても、容量の検査が先に断る。 -/
theorem capacity_first :
    let env := { sampleEnvironment with
      policyBudget := some { cpu := 0, memoryMiB := 0, connections := 0, concurrency := 0, ports := 1 }, reservedPorts := [20000, 20001, 20002, 20003] }
    ¬ (allocate samplePlatform sampleConfiguration .empty (sampleInput (js "first") (js "ab")) env 0 = .error .portRangeExhausted ↔
      (sampleConfiguration.range.portList.filter (World.empty.usablePort env)).length < sampleRelease.httpTargets.length) := by
  intro env hiff
  have hdenied : allocate samplePlatform sampleConfiguration .empty (sampleInput (js "first") (js "ab")) env 0 = .error .capacityPolicyExceeded := by rfl
  rw [hdenied] at hiff
  exact absurd (hiff.mpr (by decide)) nofun

/-- 表に残るどの行も、持つポートとともに読み返せば、検査を通り、記録した割り当てになる。 -/
theorem rows_read_back (platform : Platform) (configuration : PortConfiguration) (events : List Event) :
    let w := run (step platform configuration) .empty events
    (w.allocations.map AllocationRow.key).Nodup ∧ ∀ row ∈ w.allocations, allocation platform row (w.ownedPorts row.key) = .ok row.record := by
  intro w
  have hso := World.sound_run platform configuration events
  exact ⟨hso.keys, fun _ hrow => hso.allocation hrow⟩

end Supacloud.RuntimeAllocation
