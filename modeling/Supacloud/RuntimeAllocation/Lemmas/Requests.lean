import Supacloud.Library.FirstFit
import Supacloud.RuntimeAllocation.Allocations

/-!
# ポートの走査

走査は、範囲のポートを一度ずつ、開始の位置から一回りの順に調べる。
-/

namespace Supacloud.RuntimeAllocation

open Library ApplicationPortRange ReleaseTarget List

open Contracts (JsString)

variable {platform : Platform} {w : World} {range : ApplicationPortRange} {start : Nat} {unavailable : List Nat}
  {isAvailable : Nat → Option Bool} {rest : List Nat} {ports : List (JsString × Nat)} {input : ApplicationRuntimeAllocationInput}
  {fingerprint : Nat} {env : AllocationEnvironment}

def ApplicationPortRange.size (range : ApplicationPortRange) : Nat := range.stop - range.start + 1

def ApplicationPortRange.portList (range : ApplicationPortRange) : List Nat := (List.range range.size).map fun i => range.start + i

def scanOrder (range : ApplicationPortRange) (start : Nat) : List Nat := (cycle start range.size).map fun i => range.start + i

def probePort (unavailable : List Nat) (isAvailable : Nat → Option Bool) (port : Nat) : Except AllocationError Bool :=
  if unavailable.contains port then .ok false
  else
    match isAvailable port with
    | none => .error .portProbeFailed
    | some available => .ok available

theorem scanOrder_perm (range start) : (scanOrder range start).Perm range.portList :=
  (cycle_perm start range.size).map _

theorem length_scanOrder (range start) : (scanOrder range start).length = range.size := by
  rw [scanOrder, length_map, length_cycle]

theorem mem_portList {port} (hva : range.start ≤ range.stop) : port ∈ range.portList ↔ range.start ≤ port ∧ port ≤ range.stop := by
  simp only [portList, size, mem_map, mem_range]
  constructor
  · rintro ⟨i, hi, rfl⟩
    omega
  · intro h
    exact ⟨port - range.start, by omega, by omega⟩

theorem portList_nodup : range.portList.Nodup := nodup_range.map fun _ _ h => Nat.add_left_cancel h

theorem scanOrder_nodup : (scanOrder range start).Nodup := (scanOrder_perm range start).nodup_iff.mpr portList_nodup

theorem probePort_ne (port) : probePort unavailable isAvailable port ≠ .error .portRangeExhausted := by
  rw [probePort]
  split
  · nofun
  · split <;> nofun

theorem scanned_port {port} (h : port :: rest <:+ scanOrder range start) :
    range.start + (start + (range.size - (rest.length + 1))) % range.size = port ∧ rest <:+ scanOrder range start := by
  obtain ⟨scanned, hsc⟩ := h
  have hle := congrArg length hsc
  rw [length_append, length_cons, length_scanOrder] at hle
  refine ⟨?_, ⟨scanned ++ [port], by rw [← hsc, append_assoc, singleton_append]⟩⟩
  have hind : range.size - (rest.length + 1) = scanned.length := by omega
  have hget : (scanOrder range start)[scanned.length]? = some port := by rw [← hsc, getElem?_append_right (Nat.le_refl _)]; simp
  rw [scanOrder, cycle, map_map, getElem?_map, getElem?_range (by omega)] at hget
  rw [hind]
  exact Option.some.inj hget

theorem selectPort_eq (h : rest <:+ scanOrder range start) : selectPort range start unavailable isAvailable rest.length =
      (firstFit (probePort unavailable isAvailable) rest).map (Option.map fun (port, rest) => (port, rest.length)) := by
  induction rest with
  | nil => rfl
  | cons port rest ih =>
    obtain ⟨hpo, hre⟩ := scanned_port h
    rw [size] at hpo
    rw [length_cons, selectPort, firstFit, probePort]
    dsimp only
    rw [hpo, ih hre]
    cases huna : unavailable.contains port with
    | true => rfl
    | false =>
      cases hpr : isAvailable port with
      | none => rfl
      | some available => cases available <;> rfl

theorem selectPorts_eq {targets} (h : rest <:+ scanOrder range start) :
    selectPorts range start unavailable isAvailable targets rest.length =
      assign (probePort unavailable isAvailable) .portRangeExhausted targets rest := by
  induction targets generalizing rest with
  | nil => rfl
  | cons target targets ih =>
    rw [selectPorts, selectPort_eq h, assign]
    cases hfit : firstFit (probePort unavailable isAvailable) rest with
    | error e => rfl
    | ok found =>
      cases found with
      | none => rfl
      | some found =>
        obtain ⟨port, remaining⟩ := found
        obtain ⟨skipped, hsp, -, -, -⟩ := firstFit_some hfit
        have hsu : remaining <:+ scanOrder range start :=
          List.IsSuffix.trans ⟨skipped ++ [port], by rw [hsp, append_assoc, singleton_append]⟩ h
        simp only [Except.map, Option.map_some, bind, Except.bind]
        rw [ih hsu]
        cases assign (probePort unavailable isAvailable) .portRangeExhausted targets remaining <;> rfl

def scanTargets (platform : Platform) (input : ApplicationRuntimeAllocationInput) : List JsString :=
  (input.runtime.release.httpTargets.map ReleaseTarget.name).insertionSort (byName platform)

def scanStart (range : ApplicationPortRange) (fingerprint : Nat) : Nat := fingerprint / 2 ^ 224 % range.size

def World.unavailablePorts (w : World) (env : AllocationEnvironment) : List Nat := w.ports.map PortRow.port ++ env.reservedPorts

theorem assignPorts_eq : assignPorts platform w range input fingerprint env =
    assign (probePort (w.unavailablePorts env) env.isAvailable) .portRangeExhausted (scanTargets platform input)
      (scanOrder range (scanStart range fingerprint)) := by
  rw [← selectPorts_eq (suffix_refl _), length_scanOrder]
  rfl

/-! ## 使えるポート -/

def World.free (w : World) (env : AllocationEnvironment) (port : Nat) : Bool := !(w.unavailablePorts env).contains port

def World.usablePort (w : World) (env : AllocationEnvironment) (port : Nat) : Bool := w.free env port && env.isAvailable port = some true

theorem usable_probePort (port) : usable (probePort (w.unavailablePorts env) env.isAvailable) port = w.usablePort env port := by
  rw [usable, probePort, World.usablePort, World.free]
  cases huna : (w.unavailablePorts env).contains port with
  | true => rfl
  | false =>
    cases hpr : env.isAvailable port with
    | none => rfl
    | some available => cases available <;> rfl

theorem answers_probePort : Answers (probePort (w.unavailablePorts env) env.isAvailable) (scanOrder range start) ↔
    ∀ port ∈ range.portList, w.free env port = true → (env.isAvailable port).isSome = true := by
  have hpo : ∀ port, (∃ b, probePort (w.unavailablePorts env) env.isAvailable port = .ok b) ↔
      (w.free env port = true → (env.isAvailable port).isSome = true) := by
    intro port
    rw [probePort, World.free]
    cases huna : (w.unavailablePorts env).contains port with
    | true => exact iff_of_true ⟨false, rfl⟩ nofun
    | false =>
      cases hpr : env.isAvailable port with
      | none | some available => simp
  rw [Answers]
  constructor
  · intro h port hmem
    exact (hpo port).mp (h port ((scanOrder_perm range start).mem_iff.mpr hmem))
  · intro h port hmem
    exact (hpo port).mpr (h port ((scanOrder_perm range start).mem_iff.mp hmem))

theorem count_usable : ((scanOrder range start).filter (usable (probePort (w.unavailablePorts env) env.isAvailable))).length =
    (range.portList.filter (w.usablePort env)).length := by
  have hfi : usable (probePort (w.unavailablePorts env) env.isAvailable) = w.usablePort env := funext usable_probePort
  rw [hfi]
  exact ((scanOrder_perm range start).filter _).length_eq

theorem length_scanTargets : (scanTargets platform input).length = input.runtime.release.httpTargets.length := by
  rw [scanTargets, length_insertionSort, length_map]

theorem assignPorts_exhausted_iff : assignPorts platform w range input fingerprint env = .error .portRangeExhausted ↔
    (∀ port ∈ range.portList, w.free env port = true → (env.isAvailable port).isSome = true) ∧
      (range.portList.filter (w.usablePort env)).length < input.runtime.release.httpTargets.length := by
  rw [assignPorts_eq, assign_exhausted_iff probePort_ne, answers_probePort, count_usable, length_scanTargets]

theorem assignPorts_ok (h : assignPorts platform w range input fingerprint env = .ok ports) :
    (ports.map Prod.fst).Perm (input.runtime.release.httpTargets.map name) ∧ (ports.map Prod.snd).Nodup ∧
      ∀ port ∈ ports.map Prod.snd, port ∈ range.portList ∧ w.usablePort env port = true := by
  rw [assignPorts_eq] at h
  obtain ⟨hke, hsub, hall⟩ := assign_ok h
  refine ⟨?_, hsub.nodup scanOrder_nodup, fun port hpo => ⟨?_, ?_⟩⟩
  · rw [hke]
    exact perm_insertionSort _ _
  · exact (scanOrder_perm _ _).mem_iff.mp (hsub.subset hpo)
  · rw [← usable_probePort, usable, hall port hpo]

/-! ## 要求の検査 -/

open Contracts (JsString)

open Vectors (js)

variable {platform : Platform} {configuration : PortConfiguration} {w : World} {range : ApplicationPortRange}
  {candidate input : ApplicationRuntimeAllocationInput} {release release' : ApplicationReleaseRecord} {units : List JsString}

theorem validateExecutionGroups_queues {groups seen} (h : validateExecutionGroups platform groups seen = .ok ()) :
    (groups.map WorkerExecutionGroup.queue).Nodup ∧ ∀ group ∈ groups, group.queue ∉ seen.queues := by
  induction groups generalizing seen with
  | nil => exact ⟨nodup_nil, nofun⟩
  | cons group groups ih =>
    simp only [validateExecutionGroups, bind_eq_ok, require_eq_ok] at h
    obtain ⟨parsed, hpar, physical, -, -, ⟨-, -, hqu, -, -⟩, hre⟩ := h
    have hsa : parsed = group := by grind [parseWorkerExecutionGroup, bind_eq_ok, require_eq_ok, pure_eq_ok]
    subst hsa
    obtain ⟨hnd, hfr⟩ := ih hre
    refine ⟨?_, forall_mem_cons.mpr ⟨hqu, fun other hot hse => ?_⟩⟩
    · grind
    · exact hfr other hot (by simp [hse])

theorem parse_ok (h : parseApplicationReleaseRecord platform release = .ok release') :
    release' = release ∧ (release.targets.map name).Nodup ∧ (release.groups.map WorkerExecutionGroup.queue).Nodup := by
  simp only [parseApplicationReleaseRecord, bind_eq_ok, require_eq_ok, pure_eq_ok] at h
  obtain ⟨-, ⟨-, -, -, hnas⟩, _, hva, -, -, -, -, rfl⟩ := h
  exact ⟨rfl, hnas, (validateExecutionGroups_queues hva).1⟩

theorem plan_ok_iff {runtime} : applicationRuntimePlan platform runtime = .ok units ↔
    parseApplicationReleaseRecord platform runtime.release = .ok runtime.release ∧
      (platform.isProjectRef runtime.release.projectRef = true ∧ platform.isActivationId runtime.activationId = true ∧
        platform.isEnvironmentId runtime.environmentId = true ∧ platform.isBunVersion (runtime.bunVersion.getD (js "1.4.4")) = true) ∧
      ((runtime.ports.map Prod.fst).Perm (runtime.release.httpTargets.map name) ∧
        (runtime.ports.map Prod.snd).dedup.length = runtime.release.httpTargets.length ∧
        ∀ port ∈ runtime.ports.map Prod.snd, 1024 ≤ port ∧ port ≤ 65535) ∧
      (runtime.release.targets.flatMap targetUnits).length ≤ 256 ∧ (runtime.release.targets.flatMap targetUnits).Nodup ∧
      runtime.release.targets.flatMap targetUnits = units := by
  simp only [applicationRuntimePlan, bind_eq_ok, require_eq_ok, pure_eq_ok]
  constructor
  · grind [parse_ok]
  · grind

theorem plan_ports {runtime ports} (h : applicationRuntimePlan platform runtime = .ok units)
    (hpos : (ports.map Prod.fst).Perm (runtime.release.httpTargets.map name)) (hnd : (ports.map Prod.snd).Nodup)
    (hra : ∀ port ∈ ports.map Prod.snd, 1024 ≤ port ∧ port ≤ 65535) :
    applicationRuntimePlan platform { runtime with ports } = .ok units := by
  obtain ⟨hpa, hide, -, huns⟩ := plan_ok_iff.mp h
  refine plan_ok_iff.mpr ⟨hpa, hide, ⟨hpos, ?_, hra⟩, huns⟩
  have hle := hpos.length_eq
  rw [length_map, length_map] at hle
  rw [dedup_eq_self.mpr hnd, length_map, hle]

/-! ## 要求 -/

def probePorts (release : ApplicationReleaseRecord) : List (JsString × Nat) :=
  release.httpTargets.zipIdx.map fun (target, index) => (target.name, 20000 + index)

structure Normal (platform : Platform) (input : ApplicationRuntimeAllocationInput) : Prop where
  release : parseApplicationReleaseRecord platform input.runtime.release = .ok input.runtime.release
  configurationId : platform.isActivationId input.configurationId = true
  bunVersion : input.runtime.bunVersion.isSome = true
  plan : ∃ units, applicationRuntimePlan platform { input.runtime with ports := probePorts input.runtime.release } = .ok units

theorem normal_of_ok (h : normalizedInput platform candidate = .ok input) : Normal platform input := by
  simp only [normalizedInput, bind_eq_ok, require_eq_ok, pure_eq_ok] at h
  obtain ⟨release, hpa, -, hid, units, hpl, rfl⟩ := h
  obtain ⟨rfl, -, -⟩ := parse_ok hpa
  exact ⟨hpa, hid, rfl, units, hpl⟩

theorem Normal.fixed (h : Normal platform input) : normalizedInput platform input = .ok input := by
  obtain ⟨units, hpl⟩ := h.plan
  have hve : some (input.runtime.bunVersion.getD (js "1.4.4")) = input.runtime.bunVersion := by
    obtain ⟨version, hve⟩ := Option.isSome_iff_exists.mp h.bunVersion
    rw [hve]
    rfl
  simp only [normalizedInput, bind_eq_ok, require_eq_ok, pure_eq_ok]
  refine ⟨input.runtime.release, h.release, (), h.configurationId, units, ?_, ?_⟩
  · rw [hve]
    exact hpl
  · rw [hve]

def ApplicationRuntimeAllocationInput.key (input : ApplicationRuntimeAllocationInput) : AllocationKey :=
  (input.runtime.release.projectRef, input.runtime.activationId)

theorem Normal.readRow (h : Normal platform input) :
    w.readRow platform input.key = .ok (w.allocations.find? fun row => row.key = input.key) := by
  obtain ⟨units, hpl⟩ := h.plan
  obtain ⟨-, ⟨hpro, hac, -⟩, -⟩ := plan_ok_iff.mp hpl
  simp only [World.readRow, bind_eq_ok, require_eq_ok, pure_eq_ok]
  exact ⟨(), ⟨hpro, hac⟩, trivial⟩

/-! ## 受け入れ -/

theorem foldlM_ok_forall {α β ε : Type} {f : β → α → Except ε β} {P : α → Prop} (hf : ∀ b a b', f b a = .ok b' → P a) {l : List α} {b b'}
    (h : l.foldlM f b = .ok b') : ∀ a ∈ l, P a := by
  induction l generalizing b with
  | nil => nofun
  | cons a l ih => grind [bind_eq_ok]

theorem reserveCompute_owners {env} (h : reserveCompute platform w input env = .ok ()) :
    ∀ row ∈ w.active, queueOwnerConflict input row.runtime = false := by
  simp only [reserveCompute, bind_eq_ok] at h
  obtain ⟨requested, -, total, hfo, -⟩ := h
  refine foldlM_ok_forall (P := fun row => queueOwnerConflict input row.runtime = false) (fun sum row sum' hrow => ?_) hfo
  simp only [bind_eq_ok, require_eq_ok] at hrow
  obtain ⟨release, hpa, -, how, -⟩ := hrow
  obtain ⟨rfl, -, -⟩ := parse_ok hpa
  exact how

structure Admitted (platform : Platform) (configuration : PortConfiguration) (w : World) (input : ApplicationRuntimeAllocationInput)
    (range : ApplicationPortRange) : Prop where
  configured : range = configuration.range
  low : 1024 ≤ range.start
  high : range.stop ≤ 65535
  ordered : range.start ≤ range.stop
  owners : ∀ row ∈ w.active, queueOwnerConflict input row.runtime = false

theorem admission_ok {env} (h : admission platform configuration w input env = .ok range) : Admitted platform configuration w input range := by
  simp only [admission, bind_eq_ok, pure_eq_ok] at h
  obtain ⟨admitted, hra, _, hco, -, -, -, -, rfl⟩ := h
  simp only [configuredApplicationPortRange, validRange, bind_eq_ok, require_eq_ok, pure_eq_ok] at hra
  obtain ⟨valid, ⟨-, ⟨hlow, hhi, hor⟩, rfl⟩, -, -, rfl⟩ := hra
  refine ⟨rfl, hlow, hhi, hor, ?_⟩
  cases hnes : needsCompute input.runtime.release with
  | true =>
    rw [hnes] at hco
    exact reserveCompute_owners hco
  | false =>
    -- 群がなければ、食い違う待ち行列もない
    intro row _
    have hgrs : input.runtime.release.groups = [] := by
      rw [needsCompute, Bool.or_eq_false_iff] at hnes
      simpa using hnes.1
    simp [queueOwnerConflict, hgrs]

end Supacloud.RuntimeAllocation
