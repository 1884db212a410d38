import Mathlib
import Supacloud.Library.Checked
import Supacloud.Vectors.Values
import Supacloud.Library.Runs
import Supacloud.Library.Table

/-!
# アプリケーションのリリース（packages/delivery、services/application-runtime.ts）

CPU は十分の一単位の数で表す。使用量は整数なので、予算の端数は切り捨てる。
-/

namespace Supacloud.RuntimeAllocation

open Library

open Contracts (JsString)

open Vectors (js)

local instance : LawfulBEq JsString := inferInstance

inductive TenantCapacityDimension where
  | cpu
  | memoryMiB
  | connections
  | queue
  | storageBytes
  | functionConcurrency
  deriving DecidableEq

inductive AllocationError where
  | workerShardInvalid
  | workerQueueInvalid
  | workerExecutionInvalid
  | workerExecutionConflict
  | invalidReleaseRecord
  | invalidReplicaCount
  | invalidExecutionBinding
  | invalidRuntimeIdentity
  | invalidRuntimePorts
  | runtimeTargetConflict
  | workerBudgetRequired
  | workerBudgetExceeded
  | workerQueueOwnerConflict
  | capacityPolicyExceeded
  | tenantPolicyInvalid
  | tenantCapacityExceeded (dimension : TenantCapacityDimension)
  | configurationInvalidId
  | identityInvalid
  | portRangeInvalid
  | portRangeOverlap
  | portRangeExhausted
  | portProbeFailed
  | allocationCorrupt
  | allocationRetired
  | allocationConflict
  | allocationMissing
  | allocationChanged
  | retirementUnconfirmed
  | constraintViolation

structure ComputeResources where
  cpuLimit : Nat
  memoryLimitMiB : Nat
  deriving DecidableEq

inductive WorkloadClass where
  | interactive
  | batch
  deriving DecidableEq

structure WorkerExecutionGroup where
  name : JsString
  target : JsString
  workloadClass : WorkloadClass
  queue : JsString
  taskKey : JsString
  definitionVersion : JsString
  replicas : Nat
  maxReplicas : Nat
  shardCount : Option Nat
  concurrencyPerReplica : Nat
  resources : ComputeResources
  engineConnectionsPerReplica : Nat
  handlerConnectionsPerReplica : Nat
  executionTimeoutSeconds : Nat
  visibilityTimeoutSeconds : Nat
  shutdownGraceSeconds : Nat
  maxAttempts : Nat
  maxOutstandingOperations : Nat
  deriving DecidableEq

inductive TargetKind where
  | http
  | worker
  deriving DecidableEq

structure ReleaseTarget where
  name : JsString
  objectId : JsString
  kind : TargetKind
  execution : Option WorkerExecutionGroup
  compute : Option ComputeResources
  deriving DecidableEq

structure ApplicationReleaseRecord where
  projectRef : JsString
  applicationId : JsString
  releaseId : JsString
  manifestSha256 : JsString
  createdAt : JsString
  targets : List ReleaseTarget
  deriving DecidableEq

structure ApplicationRuntimeRequest where
  release : ApplicationReleaseRecord
  activationId : JsString
  environmentId : JsString
  bunVersion : Option JsString
  deriving DecidableEq

structure ApplicationRuntimeInput extends ApplicationRuntimeRequest where
  ports : List (JsString × Nat)
  deriving DecidableEq

structure ApplicationRuntimeAllocationInput where
  runtime : ApplicationRuntimeRequest
  configurationId : JsString
  deriving DecidableEq

/-- 型の検査、正規表現、要約、文字列の比較。要約の 64 桁の十六進は、その数で表す。 -/
structure Platform where
  checkWorkerExecutionGroup : WorkerExecutionGroup → Bool
  checkReleaseRecord : ApplicationReleaseRecord → Bool
  applicationReleaseId : JsString → JsString → JsString → JsString
  isCanonicalTimestamp : JsString → Bool
  isProjectRef : JsString → Bool
  isActivationId : JsString → Bool
  isEnvironmentId : JsString → Bool
  isBunVersion : JsString → Bool
  localeCompare : JsString → JsString → Int
  stableSha256 : ApplicationRuntimeAllocationInput → Nat
  retirementSha256 : JsString → JsString → Nat → Nat

variable (platform : Platform)

/-! ## 実行の群（worker-execution.ts） -/

def workerShardCount (group : WorkerExecutionGroup) : Nat := group.shardCount.getD 1

def digit36 (n : Nat) : UInt16 := (if n < 10 then 48 + n else 87 + n).toUInt16

def shardSuffix (shard : Nat) : Except AllocationError JsString :=
  if 64 ≤ shard then .error .workerShardInvalid else .ok (js "s" ++ [digit36 (shard / 36), digit36 (shard % 36)])

/-- `^scw_[a-z0-9_]{1,40}$` -/
def isQueueName (s : JsString) : Bool :=
  let body := s.drop 4
  s.take 4 == js "scw_" && 1 ≤ body.length && body.length ≤ 40 &&
    body.all fun u => (97 ≤ u && u ≤ 122) || (48 ≤ u && u ≤ 57) || u == 95

def workerShardQueue (group : WorkerExecutionGroup) (shard : Nat) : Except AllocationError JsString := do
  let count := workerShardCount group
  require (shard < count) .workerShardInvalid
  if count = 1 then return group.queue
  else
    let suffix ← shardSuffix shard
    let queue := group.queue ++ js "_" ++ suffix
    require (isQueueName queue = true) .workerQueueInvalid
    return queue

def physicalQueues (group : WorkerExecutionGroup) : Except AllocationError (List JsString) :=
  (List.range (workerShardCount group)).mapM (workerShardQueue group)

def parseWorkerExecutionGroup (value : WorkerExecutionGroup) : Except AllocationError WorkerExecutionGroup := do
  require (platform.checkWorkerExecutionGroup value = true ∧ value.replicas ≤ value.maxReplicas ∧
    (js "_v" ++ value.definitionVersion).isSuffixOf value.queue = true ∧
    value.executionTimeoutSeconds + value.shutdownGraceSeconds + 30 ≤ value.visibilityTimeoutSeconds) .workerExecutionInvalid
  let _ ← physicalQueues value
  return value

structure ExecutionNames where
  names : List JsString
  targets : List JsString
  queues : List JsString
  routes : List JsString

def ExecutionNames.empty : ExecutionNames := { names := [], targets := [], queues := [], routes := [] }

def validateExecutionGroups : List WorkerExecutionGroup → ExecutionNames → Except AllocationError Unit
  | [], _ => .ok ()
  | candidate :: groups, seen => do
      let group ← parseWorkerExecutionGroup platform candidate
      let route := group.taskKey ++ js ":" ++ group.definitionVersion
      let physical ← physicalQueues group
      require (group.name ∉ seen.names ∧ group.target ∉ seen.targets ∧ group.queue ∉ seen.queues ∧
        (∀ queue ∈ physical, queue ∉ seen.queues) ∧ route ∉ seen.routes) .workerExecutionConflict
      validateExecutionGroups groups
        { names := group.name :: seen.names, targets := group.target :: seen.targets, queues := group.queue :: physical ++ seen.queues
          routes := route :: seen.routes }

def validateWorkerExecution (groups : List WorkerExecutionGroup) : Except AllocationError Unit :=
  validateExecutionGroups platform groups .empty

structure WorkerResourceUsage where
  cpu : Nat
  memoryMiB : Nat
  connections : Nat
  concurrency : Nat

def emptyUsage : WorkerResourceUsage := { cpu := 0, memoryMiB := 0, connections := 0, concurrency := 0 }

def addUsage (left right : WorkerResourceUsage) : WorkerResourceUsage :=
  { cpu := left.cpu + right.cpu, memoryMiB := left.memoryMiB + right.memoryMiB, connections := left.connections + right.connections
    concurrency := left.concurrency + right.concurrency }

def groupUsage (group : WorkerExecutionGroup) : WorkerResourceUsage :=
  let replicas := group.maxReplicas * workerShardCount group
  { cpu := replicas * group.resources.cpuLimit, memoryMiB := replicas * group.resources.memoryLimitMiB
    connections := replicas * (group.engineConnectionsPerReplica + group.handlerConnectionsPerReplica)
    concurrency := replicas * group.concurrencyPerReplica }

def workerResourceUsage (groups : List WorkerExecutionGroup) : Except AllocationError WorkerResourceUsage := do
  validateWorkerExecution platform groups
  return groups.foldl (fun total group => addUsage total (groupUsage group)) emptyUsage

structure WorkerBudget where
  cpu : Nat
  memoryMiB : Nat
  connections : Nat
  concurrency : Nat

def assertWorkerBudget (usage : WorkerResourceUsage) (budget : Option WorkerBudget) : Except AllocationError Unit :=
  match budget with
  | none => .error .workerBudgetRequired
  | some budget =>
    if usage.cpu > budget.cpu ∨ usage.memoryMiB > budget.memoryMiB ∨ usage.connections > budget.connections
        ∨ usage.concurrency > budget.concurrency then .error .workerBudgetExceeded
    else .ok ()

/-! ## リリースの記録（application-release.ts） -/

def ApplicationReleaseRecord.groups (release : ApplicationReleaseRecord) : List WorkerExecutionGroup :=
  release.targets.filterMap ReleaseTarget.execution

def ApplicationReleaseRecord.httpTargets (release : ApplicationReleaseRecord) : List ReleaseTarget :=
  release.targets.filter fun target => target.kind = .http

def parseApplicationReleaseRecord (candidate : ApplicationReleaseRecord) : Except AllocationError ApplicationReleaseRecord := do
  require (platform.checkReleaseRecord candidate = true ∧
    platform.applicationReleaseId candidate.projectRef candidate.applicationId candidate.manifestSha256 = candidate.releaseId ∧
    platform.isCanonicalTimestamp candidate.createdAt = true ∧ (candidate.targets.map ReleaseTarget.name).Nodup) .invalidReleaseRecord
  validateWorkerExecution platform candidate.groups
  let count := candidate.targets.foldl (fun count target =>
    count + target.execution.elim 1 fun group => group.replicas * workerShardCount group) 0
  require (count ≤ 256) .invalidReplicaCount
  require (∀ target ∈ candidate.targets, ∀ group ∈ target.execution,
    target.compute = none ∧ target.kind = .worker ∧ group.target = target.name) .invalidExecutionBinding
  return candidate

/-! ## 実行の計画（application-runtime.ts） -/

def targetUnits (target : ReleaseTarget) : List JsString :=
  match target.execution with
  | none => [target.name]
  | some group =>
    let shardCount := workerShardCount group
    (List.range (group.replicas * shardCount)).map fun ordinal =>
      let replica := target.name ++ js "-r" ++ js (toString (ordinal / shardCount + 1))
      if shardCount = 1 then replica
      else replica ++ js "-s" ++ [digit36 (ordinal % shardCount / 36), digit36 (ordinal % shardCount % 36)]

def applicationRuntimePlan (input : ApplicationRuntimeInput) : Except AllocationError (List JsString) := do
  let release ← parseApplicationReleaseRecord platform input.release
  require (platform.isProjectRef release.projectRef = true ∧ platform.isActivationId input.activationId = true ∧
    platform.isEnvironmentId input.environmentId = true ∧ platform.isBunVersion (input.bunVersion.getD (js "1.4.4")) = true)
    .invalidRuntimeIdentity
  let httpTargets := release.httpTargets
  require ((input.ports.map Prod.fst).Perm (httpTargets.map ReleaseTarget.name) ∧
    (input.ports.map Prod.snd).dedup.length = httpTargets.length ∧
    ∀ port ∈ input.ports.map Prod.snd, 1024 ≤ port ∧ port ≤ 65535) .invalidRuntimePorts
  let units := release.targets.flatMap targetUnits
  require (units.length ≤ 256 ∧ units.Nodup) .runtimeTargetConflict
  return units

def applicationResourceUsage (release : ApplicationReleaseRecord) : Except AllocationError WorkerResourceUsage := do
  let usage ← workerResourceUsage platform release.groups
  return release.targets.foldl (fun usage target => target.compute.elim usage fun compute =>
    { usage with cpu := usage.cpu + compute.cpuLimit, memoryMiB := usage.memoryMiB + compute.memoryLimitMiB }) usage

structure ApplicationCapacityBudget extends WorkerBudget where
  ports : Nat

def assertCapacityBudget (usage : WorkerResourceUsage) (ports : Nat) (budget : ApplicationCapacityBudget) : Except AllocationError Unit :=
  if usage.cpu > budget.cpu ∨ usage.memoryMiB > budget.memoryMiB ∨ usage.connections > budget.connections
      ∨ usage.concurrency > budget.concurrency ∨ ports > budget.ports then .error .capacityPolicyExceeded
  else .ok ()

/-! ## テナントの容量（tenant-capacity.ts） -/

abbrev TenantCapacityBudget := TenantCapacityDimension → Nat

def emptyTenantCapacity : TenantCapacityBudget := fun _ => 0

def addTenantCapacity (left right : TenantCapacityBudget) : TenantCapacityBudget := fun dimension => left dimension + right dimension

def tenantReservationFromRelease (release : ApplicationReleaseRecord) : Except AllocationError TenantCapacityBudget := do
  let parsed ← parseApplicationReleaseRecord platform release
  let usage ← applicationResourceUsage platform parsed
  return fun
    | .cpu => usage.cpu
    | .memoryMiB => usage.memoryMiB
    | .connections => usage.connections
    | .queue => (parsed.groups.map WorkerExecutionGroup.maxOutstandingOperations).sum
    | .storageBytes => 0
    | .functionConcurrency => usage.concurrency

def maxSafeInteger : Nat := 9007199254740991

def dimensionDenied (budget usage requested : TenantCapacityBudget) (dimension : TenantCapacityDimension) : Bool :=
  (dimension ≠ .cpu && (maxSafeInteger < usage dimension || maxSafeInteger < requested dimension)) ||
    budget dimension < usage dimension + requested dimension

def evaluateTenantReservation (budget : TenantCapacityBudget) (active : List ApplicationReleaseRecord) (requested : ApplicationReleaseRecord) :
    Except AllocationError (Option TenantCapacityDimension) := do
  let usage ← active.foldlM (fun sum release => do
    let reservation ← tenantReservationFromRelease platform release
    return addTenantCapacity sum reservation) emptyTenantCapacity
  let reservation ← tenantReservationFromRelease platform requested
  return [.cpu, .memoryMiB, .connections, .queue, .functionConcurrency].find? (dimensionDenied budget usage reservation)

/-!
## ポートの割り当て（services/application-runtime-allocation.ts）

取引は助言の鎖で一つずつ行われ、例外になれば破棄される。引退は、鎖の外で行を読んで確かめてから、取引に入る。
-/

abbrev Timestamp := Nat

structure AllocationRow where
  projectRef : JsString
  activationId : JsString
  configurationId : JsString
  requestFingerprint : Nat
  runtime : ApplicationRuntimeInput
  createdAt : Timestamp
  retiredAt : Option Timestamp
  retirementFingerprint : Option Nat
  deriving DecidableEq

structure PortRow where
  port : Nat
  projectRef : JsString
  activationId : JsString
  target : JsString

abbrev AllocationKey := JsString × JsString

def AllocationRow.key (row : AllocationRow) : AllocationKey := (row.projectRef, row.activationId)

def PortRow.key (row : PortRow) : AllocationKey := (row.projectRef, row.activationId)

structure ApplicationPortRange where
  start : Nat
  stop : Nat

structure PortConfiguration where
  range : ApplicationPortRange
  excluded : List ApplicationPortRange

def validRange (range : ApplicationPortRange) : Except AllocationError ApplicationPortRange := do
  require (1024 ≤ range.start ∧ range.stop ≤ 65535 ∧ range.start ≤ range.stop) .portRangeInvalid
  return range

def configuredApplicationPortRange (configuration : PortConfiguration) : Except AllocationError ApplicationPortRange := do
  let range ← validRange configuration.range
  require (∀ other ∈ configuration.excluded, ¬ (range.start ≤ other.stop ∧ other.start ≤ range.stop)) .portRangeOverlap
  return range

structure ApplicationRuntimeAllocation where
  runtime : ApplicationRuntimeInput
  configurationId : JsString
  createdAt : Timestamp
  retiredAt : Option Timestamp

variable (platform : Platform)

variable (configuration : PortConfiguration) (w : World) (input : ApplicationRuntimeAllocationInput)

def normalizedInput : Except AllocationError ApplicationRuntimeAllocationInput := do
  let release ← parseApplicationReleaseRecord platform input.runtime.release
  require (platform.isActivationId input.configurationId = true) .configurationInvalidId
  let runtime : ApplicationRuntimeRequest :=
    { release, activationId := input.runtime.activationId, environmentId := input.runtime.environmentId
      bunVersion := some (input.runtime.bunVersion.getD (js "1.4.4")) }
  let ports := release.httpTargets.zipIdx.map fun (target, index) => (target.name, 20000 + index)
  let _ ← applicationRuntimePlan platform { runtime with ports }
  return { runtime, configurationId := input.configurationId }

/-! ## 表 -/

structure World where
  allocations : List AllocationRow
  ports : List PortRow
  retiring : List (Nat × AllocationRow)

def World.empty : World := { allocations := [], ports := [], retiring := [] }

def World.ownedPorts (key : AllocationKey) : List (JsString × Nat) :=
  (w.ports.filter fun row => row.key = key).map fun row => (row.target, row.port)

/-- `activation_id` の型の検査は、要求の検査と同じである。 -/
def World.readRow (key : AllocationKey) : Except AllocationError (Option AllocationRow) := do
  require (platform.isProjectRef key.1 = true ∧ platform.isActivationId key.2 = true) .identityInvalid
  return w.allocations.find? fun row => row.key = key

/-- オブジェクトの比較は、項目の並びによらない。 -/
def allocation (row : AllocationRow) (ownedPorts : List (JsString × Nat)) : Except AllocationError ApplicationRuntimeAllocation := do
  let _ ← applicationRuntimePlan platform row.runtime
  let input ← normalizedInput platform { runtime := row.runtime.toApplicationRuntimeRequest, configurationId := row.configurationId }
  require (row.projectRef = input.runtime.release.projectRef ∧ row.activationId = input.runtime.activationId ∧
    platform.stableSha256 input = row.requestFingerprint ∧ (row.retiredAt = none → ownedPorts.Perm row.runtime.ports) ∧
    (row.retiredAt ≠ none → ownedPorts = [])) .allocationCorrupt
  return { runtime := row.runtime, configurationId := row.configurationId, createdAt := row.createdAt, retiredAt := row.retiredAt }

def World.active : List AllocationRow := w.allocations.filter fun row => row.retiredAt.isNone

def World.insertAllocation (row : AllocationRow) : Except AllocationError World := do
  require (∀ other ∈ w.allocations, other.key ≠ row.key) .constraintViolation
  return { w with allocations := w.allocations ++ [row] }

/-- 主鍵、一意の制約、値の範囲、外部鍵。 -/
def World.insertPort (row : PortRow) : Except AllocationError World := do
  require ((∀ other ∈ w.ports, other.port ≠ row.port) ∧ (∀ other ∈ w.ports, ¬ (other.key = row.key ∧ other.target = row.target)) ∧
    (1024 ≤ row.port ∧ row.port ≤ 65535) ∧ ∃ allocation ∈ w.allocations, allocation.key = row.key) .constraintViolation
  return { w with ports := w.ports ++ [row] }

/-! ## 割り当て -/

/-- 取引のあいだに読む、ほかの表と設定と、待ち受けの試み。`isAvailable` は、例外のとき `none` になる。予算は、型の検査に通った値
である。 -/
structure AllocationEnvironment where
  policyBudget : Option ApplicationCapacityBudget
  workerBudget : Option WorkerBudget
  tenantPolicy : Option (Option TenantCapacityBudget)
  reservedPorts : List Nat
  isAvailable : Nat → Option Bool

/-- 同じ計画の動いている割り当てと、待ち行列の持ち主が食い違う。 -/
def queueOwnerConflict (runtime : ApplicationRuntimeInput) : Bool :=
  runtime.release.projectRef = input.runtime.release.projectRef &&
    runtime.release.groups.any fun previous =>
      match input.runtime.release.groups.find? fun group => group.queue = previous.queue with
      | none => false
      | some next =>
        runtime.release.applicationId ≠ input.runtime.release.applicationId || runtime.environmentId ≠ input.runtime.environmentId
          || previous.taskKey ≠ next.taskKey || previous.definitionVersion ≠ next.definitionVersion || previous.name ≠ next.name

def reserveCompute (env : AllocationEnvironment) : Except AllocationError Unit := do
  let requested ← applicationResourceUsage platform input.runtime.release
  let total ← w.active.foldlM (fun sum row => do
    let release ← parseApplicationReleaseRecord platform row.runtime.release
    require (queueOwnerConflict input { row.runtime with release } = false) .workerQueueOwnerConflict
    let usage ← applicationResourceUsage platform release
    return addUsage sum usage) requested
  -- 方針の予算は `ports` の項目が余り、閉じた型の検査に通らない
  let budget := if env.policyBudget.isSome then none else env.workerBudget
  assertWorkerBudget total budget

def checkPolicy (budget : ApplicationCapacityBudget) : Except AllocationError Unit := do
  let total ← w.active.foldlM (fun sum row => do
    let release ← parseApplicationReleaseRecord platform row.runtime.release
    let usage ← applicationResourceUsage platform release
    return addUsage sum usage) emptyUsage
  let requested ← applicationResourceUsage platform input.runtime.release
  assertCapacityBudget (addUsage total requested) (w.ports.length + input.runtime.release.httpTargets.length) budget

def checkTenant (budget : Option TenantCapacityBudget) : Except AllocationError Unit := do
  let budget ← fetch budget .tenantPolicyInvalid
  let mine := w.active.filter fun row => row.projectRef = input.runtime.release.projectRef
  let active ← mine.mapM fun row => parseApplicationReleaseRecord platform row.runtime.release
  match ← evaluateTenantReservation platform budget active input.runtime.release with
  | some dimension => throw (.tenantCapacityExceeded dimension)
  | none => return ()

def needsCompute (release : ApplicationReleaseRecord) : Bool :=
  !release.groups.isEmpty || release.targets.any fun target => target.compute.isSome

def admission (env : AllocationEnvironment) :
    Except AllocationError ApplicationPortRange := do
  let range ← configuredApplicationPortRange configuration
  bif needsCompute input.runtime.release then reserveCompute platform w input env else pure ()
  env.policyBudget.elim (pure ()) (checkPolicy platform w input)
  env.tenantPolicy.elim (pure ()) (checkTenant platform w input)
  return range

/-- `while (scanned < size)` の繰り返し。`remaining` は `size - scanned` である。 -/
def selectPort (range : ApplicationPortRange) (start : Nat) (unavailable : List Nat) (isAvailable : Nat → Option Bool) :
    Nat → Except AllocationError (Option (Nat × Nat))
  | 0 => .ok none
  | remaining + 1 =>
    let size := range.stop - range.start + 1
    let scanned := size - (remaining + 1)
    let port := range.start + (start + scanned) % size
    if unavailable.contains port then selectPort range start unavailable isAvailable remaining
    else
      match isAvailable port with
      | none => .error .portProbeFailed
      | some true => .ok (some (port, remaining))
      | some false => selectPort range start unavailable isAvailable remaining

def selectPorts (range : ApplicationPortRange) (start : Nat) (unavailable : List Nat) (isAvailable : Nat → Option Bool) :
    List JsString → Nat → Except AllocationError (List (JsString × Nat))
  | [], _ => .ok []
  | target :: targets, remaining => do
      match ← selectPort range start unavailable isAvailable remaining with
      | none => throw .portRangeExhausted
      | some (port, rest) =>
        let ports ← selectPorts range start unavailable isAvailable targets rest
        return (target, port) :: ports

def byName (a b : JsString) : Prop := platform.localeCompare a b ≤ 0

instance : DecidableRel (byName platform) := fun a b => inferInstanceAs (Decidable (platform.localeCompare a b ≤ 0))

def assignPorts (range : ApplicationPortRange) (input : ApplicationRuntimeAllocationInput) (fingerprint : Nat)
    (env : AllocationEnvironment) : Except AllocationError (List (JsString × Nat)) :=
  let unavailable := w.ports.map PortRow.port ++ env.reservedPorts
  let size := range.stop - range.start + 1
  -- 先頭の 8 桁
  let start := fingerprint / 2 ^ 224 % size
  let targets := (input.runtime.release.httpTargets.map ReleaseTarget.name).insertionSort (byName platform)
  selectPorts range start unavailable env.isAvailable targets size

def insertPorts (w : World) (key : AllocationKey) : List (JsString × Nat) → Except AllocationError World
  | [] => .ok w
  | (target, port) :: ports => do
      let inserted ← w.insertPort { port, projectRef := key.1, activationId := key.2, target }
      insertPorts inserted key ports

def newRow (ports : List (JsString × Nat)) (now : Timestamp) : AllocationRow :=
  { projectRef := input.runtime.release.projectRef, activationId := input.runtime.activationId, configurationId := input.configurationId
    requestFingerprint := platform.stableSha256 input, runtime := { input.runtime with ports }, createdAt := now, retiredAt := none
    retirementFingerprint := none }

def allocateNew (env : AllocationEnvironment) (now : Timestamp) : Except AllocationError (World × ApplicationRuntimeAllocation) := do
  let range ← admission platform configuration w input env
  let ports ← assignPorts platform w range input (platform.stableSha256 input) env
  let row := newRow platform input ports now
  let recorded ← w.insertAllocation row
  let inserted ← insertPorts recorded row.key ports
  let stored ← fetch (← inserted.readRow platform row.key) .allocationMissing
  let result ← allocation platform stored (inserted.ownedPorts row.key)
  return (inserted, result)

def allocate (candidate : ApplicationRuntimeAllocationInput) (env : AllocationEnvironment) (now : Timestamp) : Except AllocationError (World × ApplicationRuntimeAllocation) := do
  let input ← normalizedInput platform candidate
  let key := (input.runtime.release.projectRef, input.runtime.activationId)
  match ← w.readRow platform key with
  | some existing =>
    require (existing.retiredAt = none) .allocationRetired
    require (existing.requestFingerprint = platform.stableSha256 input) .allocationConflict
    let result ← allocation platform existing (w.ownedPorts key)
    return (w, result)
  | none => allocateNew platform configuration w input env now

/-! ## 引退 -/

/-- 取引に入る前の読み取り。引退済みなら、確かめずに返す。 -/
def beginRetire (call : Nat) (key : AllocationKey) : Except AllocationError World := do
  let row ← fetch (← w.readRow platform key) .allocationMissing
  let _ ← allocation platform row (w.ownedPorts key)
  return if row.retiredAt.isSome then w else { w with retiring := (call, row) :: w.retiring }

def World.markRetired (key : AllocationKey) (now : Timestamp) (retirementFingerprint : Nat) : World :=
  { w with
    ports := w.ports.filter fun row => row.key ≠ key
    allocations := update (fun row => row.key = key)
      (fun row => { row with retiredAt := some now, retirementFingerprint := some retirementFingerprint }) w.allocations }

def retire (before : AllocationRow) (now : Timestamp) : Except AllocationError World := do
  let retirementFingerprint := platform.retirementSha256 before.projectRef before.activationId before.requestFingerprint
  let current ← fetch (← w.readRow platform before.key) .allocationMissing
  if current.retiredAt.isSome then
    let _ ← allocation platform current (w.ownedPorts before.key)
    return w
  else
    require (current.requestFingerprint = before.requestFingerprint ∧ current.runtime = before.runtime) .allocationChanged
    let written := w.markRetired before.key now retirementFingerprint
    let retired ← fetch (← written.readRow platform before.key) .retirementUnconfirmed
    require (retired.retiredAt ≠ none ∧ retired.retirementFingerprint = some retirementFingerprint) .retirementUnconfirmed
    let _ ← allocation platform retired (written.ownedPorts before.key)
    return written

inductive Event where
  | allocate (candidate : ApplicationRuntimeAllocationInput) (env : AllocationEnvironment) (now : Timestamp) (commit : Bool)
  | beginRetire (call : Nat) (key : AllocationKey)
  | retire (call : Nat) (now : Timestamp) (commit : Bool)
  /-- 止まったことを確かめられず、引退をやめる。 -/
  | abandonRetire (call : Nat)

def settle (commit : Bool) : Except AllocationError World → World
  | .ok w' => if commit then w' else w
  | .error _ => w

def step : Event → World
  | .allocate candidate env now commit => settle w commit ((allocate platform configuration w candidate env now).map Prod.fst)
  | .beginRetire call key => settle w true (beginRetire platform w call key)
  | .retire call now commit =>
    match w.retiring.find? fun pending => pending.1 = call with
    | none => w
    | some (_, before) =>
      let w := { w with retiring := w.retiring.filter fun pending => pending.1 ≠ call }
      settle w commit (retire platform w before now)
  | .abandonRetire call => { w with retiring := w.retiring.filter fun pending => pending.1 ≠ call }

end Supacloud.RuntimeAllocation
