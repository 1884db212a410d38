import Mathlib.Algebra.GroupWithZero.Nat
import Mathlib.Data.Rat.Defs
import Mathlib.Algebra.Order.Ring.Rat
import Mathlib.Logic.Function.Basic
import Supacloud.Library.MultiQueue

/-! # テナントの容量（delivery/src/tenant-capacity.ts） -/

namespace Supacloud.EdgeRuntime

abbrev ProjectRef := String

/-- 設定の関数が返す値。欠けた項目や余分な項目のある値は `malformed` にまとめる。 -/
inductive RawTenantCapacity where
  | malformed
  | fields (cpu memoryMiB connections queue storageBytes functionConcurrency : Rat)

structure TenantCapacityBudget where
  cpu : Rat
  memoryMiB : Nat
  connections : Nat
  queue : Nat
  storageBytes : Nat
  functionConcurrency : Nat

/-- `Type.Integer({ minimum: 0, maximum })`。 -/
def parseInteger (maximum : Nat) (v : Rat) : Option Nat :=
  if v.den = 1 ∧ 0 ≤ v.num ∧ v.num ≤ maximum then some v.num.toNat else none

def maxSafeInteger : Nat := 9007199254740991

def parseTenantCapacityBudget : RawTenantCapacity → Option TenantCapacityBudget
  | .malformed => none
  | .fields cpu memoryMiB connections queue storageBytes functionConcurrency =>
    if 0 ≤ cpu ∧ cpu ≤ 65536 then do
      return {
        cpu
        memoryMiB := ← parseInteger (2 ^ 40) memoryMiB
        connections := ← parseInteger 1000000 connections
        queue := ← parseInteger 1000000 queue
        storageBytes := ← parseInteger maxSafeInteger storageBytes
        functionConcurrency := ← parseInteger 1000000 functionConcurrency }
    else none

def withinCapacity (limit used requested : Nat) : Bool :=
  used ≤ maxSafeInteger && requested ≤ maxSafeInteger && used + requested ≤ limit

inductive AdmissionAction where
  | run
  | delay
  | reject

/-- `Math.ceil(heapBytes / (1024 * 1024))`。 -/
def heapMiB (heapBytes : Nat) : Nat := (heapBytes + 1048575) / 1048576

def edgeTenantAdmission (budget : TenantCapacityBudget) (inflight queued heapBytes : Nat) : AdmissionAction :=
  if inflight > maxSafeInteger || queued > maxSafeInteger || heapBytes > maxSafeInteger then .reject
  else if !withinCapacity budget.memoryMiB (heapMiB heapBytes) 0 then .reject
  else if inflight < budget.functionConcurrency then .run
  else if !withinCapacity budget.queue queued 1 then .reject
  else .delay

def edgeTenantQueueAdmission (budget : TenantCapacityBudget) (queued : Nat) : Bool :=
  withinCapacity budget.queue queued 1

theorem edgeTenantAdmission_run {b inflight queued heapBytes}
    (h : edgeTenantAdmission b inflight queued heapBytes = .run) : inflight < b.functionConcurrency := by
  unfold edgeTenantAdmission at h
  split at h
  · cases h
  · split at h
    · cases h
    · split at h
      · assumption
      · split at h <;> cases h

theorem edgeTenantAdmission_delay {b inflight queued heapBytes}
    (h : edgeTenantAdmission b inflight queued heapBytes = .delay) : queued + 1 ≤ b.queue := by
  unfold edgeTenantAdmission at h
  split at h
  · cases h
  · split at h
    · cases h
    · split at h
      · cases h
      · split at h
        · cases h
        · rename_i hq
          simp only [withinCapacity, Bool.not_eq_true', Bool.not_eq_false, Bool.and_eq_true, decide_eq_true_eq] at hq
          exact hq.2

theorem edgeTenantQueueAdmission_true {b queued} (h : edgeTenantQueueAdmission b queued = true) : queued + 1 ≤ b.queue := by
  simp only [edgeTenantQueueAdmission, withinCapacity, Bool.and_eq_true, decide_eq_true_eq] at h
  exact h.2

/-!
## 実行者の溜まりの状態（edge-runtime/worker-pool.ts）

実行者（Worker）は作られた順の番号、実行の鍵は受け付けた順の番号、集合（`Set`）は挿入の順の重複のない列である。
`workerMetadata` の `active` は `handlers` に、計時器と計数は `book` に置く。`log`
は観測のための記録である。
-/

open Library

abbrev Worker := Nat

structure Config where
  size : Nat
  maxConcurrentExecutions : Nat
  maxExtraProjectWorkers : Nat
  parkedWorkerIdleMs : Nat
  maxRetiredWorkers : Nat
  maxWorkerReplacementsBeforeRecycle : Nat
  maxQueueSize : Nat
  maxWorkerHeap : Nat
  maxModuleBytes : Nat
  maxModuleCount : Nat
  tenantCapacity : ProjectRef → Option RawTenantCapacity
  size_le : size ≤ maxConcurrentExecutions

def Config.maxWorkers (c : Config) : Nat := c.maxConcurrentExecutions + c.maxExtraProjectWorkers

/-! ## 応答と要求 -/

inductive Response where
  | worker (status : Nat)
  | cancelled
  | admissionBlocked
  | tooManyRequests
  | tenantCapacity
  | invalidatedBeforeExecution
  | serverShuttingDown
  | bodyTooLarge (limit : Nat)
  | failure (status : Nat) (message : String)
  | rejected

inductive StartFailure where
  | aborted
  | bufferBudget
  | bodyLimit (limit : Nat)

def StartFailure.response : StartFailure → Response
  | .aborted => .cancelled
  | .bufferBudget => .admissionBlocked
  | .bodyLimit limit => .bodyTooLarge limit

/-- `ScheduledDispatch`。`startFailure` は、始めるときに環境が起こす失敗である。 -/
structure Dispatch where
  key : Nat
  projectRef : ProjectRef
  cancelKey : Option String := none
  maxHeapBytes : Option Nat := none
  startFailure : Option StartFailure := none

/-- `execute` の閉包の変数。終わった実行（`finished`）は `inFlight` から除かれる。 -/
structure Execution where
  dispatch : Dispatch
  worker : Worker
  resolved : Bool := false
  started : Bool := false
  streamDone : Bool := true
  executionDone : Bool := false
  responseReceived : Bool := false
  pendingResponse : Option Nat := none
  failStream : Bool := false
  streaming : Bool := false
  cancellationRequested : Bool := false
  timeout : Bool := true
  waitTimers : Nat := 0
  cancelTimer : Option Response := none

def Execution.key (e : Execution) : Nat := e.dispatch.key

inductive Handler where
  | execution (key : Nat)
  | preheat (id : Nat)
  deriving DecidableEq

structure Metadata where
  generation : Nat
  projectRef : Option ProjectRef := none

structure Memory where
  heapSize : Nat
  extraMemorySize : Nat

/-! ## 予熱 -/

/-- 予熱の持ち主。`orphan` は、一括の予熱が例外で終わり、結果を待つ者がいなくなった予熱である。 -/
inductive PreheatOwner where
  | single
  | bulk
  | orphan
  deriving DecidableEq

inductive PreheatPhase where
  | preparing
  | waiting
  | done (success attested : Bool)
  deriving DecidableEq

structure PreheatJob where
  id : Nat
  worker : Worker
  projectRef : ProjectRef
  functionId : String
  maxHeapBytes : Option Nat
  owner : PreheatOwner
  phase : PreheatPhase

inductive BulkKind where
  | idle
  | versioned
  | release
  deriving DecidableEq

structure BulkRequest where
  kind : BulkKind
  projectRef : ProjectRef
  maxWorkers : Nat
  members : List String
  maxHeapBytes : Option Nat := none

inductive BulkPhase where
  | running
  | rejected
  | settled
  deriving DecidableEq

structure Bulk where
  request : BulkRequest
  remaining : List String
  workers : List Worker
  phase : BulkPhase

inductive AssignError where
  | missingMetadata
  | differentProject
  deriving DecidableEq

inductive LogEvent where
  | created (worker : Worker) (generation : Nat)
  | assigned (worker : Worker) (projectRef : ProjectRef)
  | admitted (key : Nat) (projectRef : ProjectRef)
  | refused (key : Nat) (response : Response)
  | started (key : Nat) (worker : Worker) (projectRef : ProjectRef)
  | settled (key : Nat) (response : Response)
  | preheatStarted (worker : Worker) (projectRef : ProjectRef)
  | preheatSucceeded (worker : Worker)
  | threw (worker : Worker) (error : AssignError)
  | rotated (generation : Nat)
  | invalidated (projectRef : ProjectRef)

/-! ## 状態 -/

structure Bookkeeping where
  workerMemory : List (Worker × Memory) := []
  lastDispatchedProjectRef : Option ProjectRef := none
  totalWorkerReplacements : Nat := 0
  totalWorkerSurplusRetirements : Nat := 0
  workerRecycleRequired : Bool := false
  retirementBudgetExceeded : Bool := false
  parkedTimer : Worker → Bool := fun _ => false
  surplusTimer : Worker → Bool := fun _ => false
  projectControls : List Worker := []
  moduleControls : List (List Worker) := []

structure Pool where
  idle : List Worker
  queue : MultiQueue ProjectRef Dispatch
  inFlight : List Execution
  activeWorkers : List Worker
  parkedWorkers : List Worker
  retiredWorkers : List Worker
  metadata : Worker → Option Metadata
  handlers : Worker → Option Handler
  tainted : Worker → Bool
  workerGeneration : Nat
  admissionBlocked : Bool
  admissionRecovering : Bool
  draining : Bool
  preheats : List PreheatJob
  bulk : Option Bulk
  bulkWaiting : List BulkRequest
  nextWorker : Nat
  nextKey : Nat
  nextPreheat : Nat
  book : Bookkeeping
  log : List LogEvent

def setAdd (l : List Worker) (w : Worker) : List Worker := if w ∈ l then l else l ++ [w]

def setDelete (l : List Worker) (w : Worker) : List Worker := l.filter fun x => x ≠ w

def findLast (l : List Worker) (p : Worker → Bool) : Option Worker := l.reverse.find? p

namespace Pool

variable (c : Config) (s : Pool)

def record (e : LogEvent) : Pool := { s with log := e :: s.log }

/-! ## 読み取り -/

inductive TenantBudget where
  | unlimited
  | invalid
  | limited (budget : TenantCapacityBudget)

variable (w : Worker) (p : ProjectRef)

def tenantBudget : TenantBudget :=
  match c.tenantCapacity p with
  | none => .unlimited
  | some raw =>
    match parseTenantCapacityBudget raw with
    | none => .invalid
    | some budget => .limited budget

def workerProjectRef : Option ProjectRef := (s.metadata w).bind (·.projectRef)

def executingCount (except : Option Worker) : Nat :=
  (s.activeWorkers.filter fun w => some w ≠ except ∧ w ∉ s.idle ∧ s.workerProjectRef w = some p).length

def projectHeapBytes : Nat :=
  ((s.book.workerMemory.filter fun x => s.workerProjectRef x.1 = some p).map
    fun x => x.2.heapSize + x.2.extraMemorySize).sum

def projectWithinFunctionCap (except : Option Worker) : Bool :=
  match tenantBudget c p with
  | .unlimited => true
  | .invalid => false
  | .limited budget => s.executingCount p except < budget.functionConcurrency

def rejectAdmission : Bool :=
  s.admissionBlocked || (s.admissionRecovering && (s.activeWorkers.length > s.idle.length || s.queue.count > 0))

def workerAcceptsProject : Bool :=
  match s.workerProjectRef w with
  | none => true
  | some q => q == p

def hasActiveWorkerForProject : Bool :=
  s.activeWorkers.any fun w => s.workerProjectRef w == some p && !s.tainted w

def heapBudget (maxHeapBytes : Option Nat) : Nat :=
  match maxHeapBytes with
  | some requested => if 0 < requested ∧ requested ≤ maxSafeInteger then requested else c.maxWorkerHeap
  | none => c.maxWorkerHeap

def createWorker : Pool × Worker :=
  (({ s with
      metadata := Function.update s.metadata s.nextWorker (some { generation := s.workerGeneration })
      nextWorker := s.nextWorker + 1 }).record (.created s.nextWorker s.workerGeneration), s.nextWorker)

def assignWorkerProject : Pool × Bool :=
  match s.metadata w with
  | none => (s.record (.threw w .missingMetadata), false)
  | some m =>
    if m.projectRef ≠ none ∧ m.projectRef ≠ some p then (s.record (.threw w .differentProject), false)
    else
      (({ s with metadata := Function.update s.metadata w (some { m with projectRef := some p }) }).record
        (.assigned w p), true)

def clearSurplusTimer : Pool :=
  { s with book := { s.book with surplusTimer := Function.update s.book.surplusTimer w false } }

/-- `idle` から、プロジェクト p の実行者を、なければ p を受け入れる実行者を、新しいものから選んで取る。 -/
def takeIdleWorker : Option (Worker × Pool) :=
  match (findLast s.idle fun w => s.workerProjectRef w == some p && !s.tainted w).or
      (findLast s.idle fun w => s.workerAcceptsProject w p && !s.tainted w) with
  | none => none
  | some w => some (w, clearSurplusTimer { s with idle := setDelete s.idle w } w)

def settle (k : Nat) (r : Response) : Pool := s.record (.settled k r)

def settleAll (ds : List Dispatch) (r : Response) : Pool :=
  ds.foldl (fun s d => s.settle d.key r) s

def clearQueue (r : Response) : Pool := { s.settleAll s.queue.all r with queue := .empty }

def stopDispatching : Pool := clearQueue { s with draining := true } .serverShuttingDown

def triggerRetirementFailSafe : Pool :=
  if s.book.retirementBudgetExceeded then s
  else stopDispatching { s with book := { s.book with retirementBudgetExceeded := true } }

/-! ## 引退 -/

def trackRetiredWorker : Pool :=
  let s := { s with retiredWorkers := setAdd s.retiredWorkers w }
  if s.retiredWorkers.length > c.maxRetiredWorkers then s.triggerRetirementFailSafe else s

def checkWorkerRecycleBudget : Pool :=
  if s.book.totalWorkerReplacements + s.book.totalWorkerSurplusRetirements ≥ c.maxWorkerReplacementsBeforeRecycle then
    { s with book := { s.book with workerRecycleRequired := true } }
  else s

def recordWorkerReplacement : Pool :=
  checkWorkerRecycleBudget c
    { s with book := { s.book with totalWorkerReplacements := s.book.totalWorkerReplacements + 1 } }

/-- `removeWorkerReferences`。`activeWorkers` のほかから実行者を除く。 -/
def removeWorkerReferences : Pool :=
  { s with
    metadata := Function.update s.metadata w none
    handlers := Function.update s.handlers w none
    tainted := Function.update s.tainted w false
    parkedWorkers := setDelete s.parkedWorkers w
    idle := setDelete s.idle w
    book := { s.book with
      workerMemory := s.book.workerMemory.filter fun x => x.1 ≠ w
      parkedTimer := Function.update s.book.parkedTimer w false
      surplusTimer := Function.update s.book.surplusTimer w false } }

def replaceWorker : Pool × Option Worker :=
  let (s, r) := (recordWorkerReplacement c s).createWorker
  ({ s with activeWorkers := setAdd s.activeWorkers r }, some r)

/-- `retireWorker`。返す実行者があれば、続けて `schedule` する。 -/
def retireWorker (replace : Bool) : Pool × Option Worker :=
  let ownedSlot := w ∈ s.activeWorkers
  let wasParked := w ∈ s.parkedWorkers
  if ¬ownedSlot ∧ ¬wasParked then
    ({ s with book := { s.book with workerMemory := s.book.workerMemory.filter fun x => x.1 ≠ w } }, none)
  else
    let s := trackRetiredWorker c
      (removeWorkerReferences { s with activeWorkers := setDelete s.activeWorkers w } w) w
    if !s.draining ∧ ownedSlot ∧ replace then replaceWorker c s else (s, none)

def retireSurplusWorker : Pool :=
  let s := { s with book := { s.book with
    totalWorkerSurplusRetirements := s.book.totalWorkerSurplusRetirements + 1 } }
  checkWorkerRecycleBudget c (retireWorker c s w false).1

/-! ## 停め置き -/

def evictParkedWorker : Pool :=
  if w ∈ s.parkedWorkers then (retireWorker c s w true).1 else s

def parkWorker : Pool :=
  let s := clearSurplusTimer s w
  let s := { s with
    activeWorkers := setDelete s.activeWorkers w
    idle := setDelete s.idle w
    parkedWorkers := setAdd s.parkedWorkers w }
  if (s.metadata w).isNone then s
  else if c.parkedWorkerIdleMs = 0 || s.admissionRecovering then evictParkedWorker c s w
  else { s with book := { s.book with parkedTimer := Function.update s.book.parkedTimer w true } }

def unparkWorker : Pool :=
  { s with
    parkedWorkers := setDelete s.parkedWorkers w
    book := { s.book with parkedTimer := Function.update s.book.parkedTimer w false } }

/-- 停め置きが上限を超える間、古いものから追い出す。引数は残りの回数で、停め置きの数から始める。 -/
def evictOverflow : Nat → Pool → Pool
  | 0, s => s
  | n + 1, s =>
    if s.parkedWorkers.length > c.maxWorkers - c.maxConcurrentExecutions then
      match s.parkedWorkers with
      | [] => s
      | oldest :: _ => evictOverflow n (evictParkedWorker c s oldest)
    else s

def cachedWorker : Option Worker :=
  s.parkedWorkers.find? fun w => s.workerProjectRef w == some p &&
    (s.metadata w).map (·.generation) == some s.workerGeneration && !s.tainted w

/-- 枠を p に渡す。元の実行者は停め置き、停めてあった p の実行者か、新しい実行者を枠に入れる。 -/
def switchProjectSlot : Pool × Option Worker :=
  let cached := s.cachedWorker p
  let s := match cached with
    | some r => s.unparkWorker r
    | none => s
  let s := parkWorker c s w
  let s := evictOverflow c s.parkedWorkers.length s
  let (s, r) := match cached with
    | some r => (s, r)
    | none => (recordWorkerReplacement c s).createWorker
  match s.assignWorkerProject r p with
  | (s, false) => (s, none)
  | (s, true) => ({ s with activeWorkers := setAdd s.activeWorkers r }, some r)

end Pool

/-!
## 待ち行列の三つの構造

三つが食い違うと、取り出しは例外を投げる。
-/

open Assoc

structure Queues where
  queuedDispatches : List (ProjectRef × List Dispatch)
  queuedProjects : List ProjectRef
  queuedCount : Int
  lastDispatchedProjectRef : Option ProjectRef

namespace Queues

def new : Queues where
  queuedDispatches := []
  queuedProjects := []
  queuedCount := 0
  lastDispatchedProjectRef := none

variable (q : Queues)

inductive QueueError where
  /-- Missing dispatch queue for project ${projectRef} -/
  | missing (projectRef : Option ProjectRef)
  /-- Empty dispatch queue for project ${projectRef} -/
  | empty (projectRef : ProjectRef)

def enqueueQueued (entry : Dispatch) : Queues :=
  let projectRef := entry.projectRef
  match get projectRef q.queuedDispatches with
  | some projectQueue =>
    { q with queuedDispatches := put projectRef (projectQueue ++ [entry]) q.queuedDispatches, queuedCount := q.queuedCount + 1 }
  | none =>
    { q with
      queuedDispatches := q.queuedDispatches ++ [(projectRef, [entry])]
      queuedProjects := q.queuedProjects ++ [projectRef]
      queuedCount := q.queuedCount + 1 }

def shifted (projectRef : ProjectRef) (rest : List Dispatch) (queuedProjects : List ProjectRef) : Queues where
  queuedDispatches := if rest = [] then erase projectRef q.queuedDispatches else put projectRef rest q.queuedDispatches
  queuedProjects := if rest = [] then queuedProjects else queuedProjects ++ [projectRef]
  queuedCount := q.queuedCount - 1
  lastDispatchedProjectRef := some projectRef

def dequeueQueued : Except QueueError (Option Dispatch × Queues) :=
  if q.queuedCount = 0 then .ok (none, q)
  else
    let preferredIndex := q.queuedProjects.findIdx? fun projectRef => some projectRef ≠ q.lastDispatchedProjectRef
    let projectIndex := preferredIndex.getD 0
    match q.queuedProjects[projectIndex]? with
    | none => .error (.missing none)
    | some projectRef =>
      match get projectRef q.queuedDispatches with
      | none => .error (.missing projectRef)
      | some [] => .error (.empty projectRef)
      | some (entry :: rest) => .ok (entry, q.shifted projectRef rest (q.queuedProjects.eraseIdx projectIndex))

def dequeueQueuedForWorker (workerProjectRef : Option ProjectRef) : Except QueueError (Option Dispatch × Queues) :=
  match workerProjectRef with
  | none => q.dequeueQueued
  | some projectRef =>
    match get projectRef q.queuedDispatches with
    | none => .ok (none, q)
    | some [] => .error (.empty projectRef)
    | some (entry :: rest) => .ok (entry, q.shifted projectRef rest (q.queuedProjects.erase projectRef))

def invalidateQueuedProject (projectRef : ProjectRef) : Queues :=
  match get projectRef q.queuedDispatches with
  | none => q
  | some projectQueue =>
    { q with
      queuedDispatches := erase projectRef q.queuedDispatches
      queuedProjects := q.queuedProjects.filter fun queuedProject => queuedProject ≠ projectRef
      queuedCount := q.queuedCount - projectQueue.length }

def cancelQueued (projectRef : ProjectRef) (queuedIndex : Nat) : Queues :=
  match get projectRef q.queuedDispatches with
  | none => q
  | some projectQueue =>
    if projectQueue.length ≤ queuedIndex then q
    else
      let rest := projectQueue.eraseIdx queuedIndex
      { q with
        queuedDispatches := if rest = [] then erase projectRef q.queuedDispatches else put projectRef rest q.queuedDispatches
        queuedProjects := if rest = [] then q.queuedProjects.filter fun queuedProject => queuedProject ≠ projectRef else q.queuedProjects
        queuedCount := q.queuedCount - 1 }

inductive Call where
  | enqueueQueued (entry : Dispatch)
  | dequeueQueued
  | dequeueQueuedForWorker (workerProjectRef : Option ProjectRef)
  | invalidateQueuedProject (projectRef : ProjectRef)
  | cancelQueued (projectRef : ProjectRef) (queuedIndex : Nat)
  /-- `stopDispatching` と `setAdmissionBlocked(true)` が待ち行列を空にする。 -/
  | clear
  /-- 空いた実行者への直接の割り当て。 -/
  | dispatched (projectRef : ProjectRef)

def step : Call → Except QueueError Queues
  | .enqueueQueued entry => .ok (q.enqueueQueued entry)
  | .dequeueQueued => q.dequeueQueued.map Prod.snd
  | .dequeueQueuedForWorker workerProjectRef => (q.dequeueQueuedForWorker workerProjectRef).map Prod.snd
  | .invalidateQueuedProject projectRef => .ok (q.invalidateQueuedProject projectRef)
  | .cancelQueued projectRef queuedIndex => .ok (q.cancelQueued projectRef queuedIndex)
  | .clear => .ok { q with queuedDispatches := [], queuedProjects := [], queuedCount := 0 }
  | .dispatched projectRef => .ok { q with lastDispatchedProjectRef := some projectRef }

structure Represented : Prop where
  count : q.queuedCount = (q.queuedDispatches.map fun e => e.2.length).sum
  projects : q.queuedProjects.Nodup ∧ ∀ projectRef, projectRef ∈ q.queuedProjects ↔ projectRef ∈ keys q.queuedDispatches
  nonempty : ∀ e ∈ q.queuedDispatches, e.2 ≠ []

end Queues

end Supacloud.EdgeRuntime
