import Supacloud.EdgeRuntime.Executions

/-!
# 出来事と走行（edge-runtime/worker-pool.ts）

溜まりに起こりうる出来事を尽くす。処理は途中で割り込まれない。
-/

namespace Supacloud.EdgeRuntime

namespace Pool

open Library

variable (c : Config) (s : Pool)

/-! ## 実行者の出来事 -/

def onWorkerMessage (w : Worker) (m : Message) : Pool :=
  match s.handlers w with
  | none => s
  | some (.execution k) =>
    match s.findExecution k with
    | some e => onMessage c s e m
    | none => s
  | some (.preheat id) =>
    match s.findPreheat id with
    | some j => onPreheatMessage c s j m
    | none => s

def onWorkerError (w : Worker) (message : String) : Pool :=
  match s.handlers w with
  | some (.execution k) =>
    match s.findExecution k with
    | some e => finishTurn c (retireWithFailure c s e (.failure 500 message))
    | none => s
  | some (.preheat id) =>
    match s.findPreheat id with
    | some j => failedPreheat c s j
    | none => s
  | none =>
    if !s.draining && (w ∈ s.activeWorkers || w ∈ s.parkedWorkers) then finishTurn c (retireWorker c s w true)
    else s

def notifyExit (w : Worker) : Pool :=
  match s.handlers w with
  | some (.execution k) =>
    match s.findExecution k with
    | some e => finishTurn c (retireWithFailure c s e (.failure 500 "Function worker exited"))
    | none => s
  | some (.preheat id) =>
    match s.findPreheat id with
    | some j => failedPreheat c s j
    | none => s
  | none => s

def onWorkerExit (w : Worker) : Pool :=
  let retired := w ∈ s.retiredWorkers
  let s := removeWorkerReferences { s with retiredWorkers := setDelete s.retiredWorkers w } w
  let s := if retired ∧ !s.draining then ensureCapacityForQueuedWork c s else s
  let owned := w ∈ s.activeWorkers
  let s := { s with activeWorkers := setDelete s.activeWorkers w }
  if !owned ∨ s.draining then s else finishTurn c (replaceWorker c s)

/-! ## 溜まりの出来事 -/

def evictAll : List Worker → Pool → Pool
  | [], s => s
  | w :: rest, s => evictAll rest (evictParkedWorker c s w)

def retireSurplus : List Worker → Pool → Pool
  | [], s => s
  | w :: rest, s => if s.activeWorkers.length ≤ c.size then s else retireSurplus rest (retireSurplusWorker c s w)

def setAdmissionBlocked (blocked recovering : Bool) : Pool :=
  if s.admissionBlocked = blocked ∧ s.admissionRecovering = recovering then s
  else
    let s := { s with admissionBlocked := blocked, admissionRecovering := recovering && !blocked }
    if !blocked then s
    else
      let s := s.clearQueue .admissionBlocked
      let s := evictAll c s.parkedWorkers s
      retireSurplus c s.idle s

def onSurplusTimeout (w : Worker) : Pool :=
  if !s.book.surplusTimer w then s
  else
    let s := s.clearSurplusTimer w
    if shouldRetireSurplusWorker c s && s.idle.contains w then retireSurplusWorker c s w else s

def onParkedTimeout (w : Worker) : Pool :=
  if !s.book.parkedTimer w then s
  else
    evictParkedWorker c { s with book := { s.book with parkedTimer := Function.update s.book.parkedTimer w false } } w

def onRetirementTimeout (w : Worker) : Pool := { s with retiredWorkers := setDelete s.retiredWorkers w }

def retireAll : List Worker → Pool → Pool
  | [], s => s
  | w :: rest, s => retireAll rest (finishTurn c (retireWorker c s w true))

/-- `shutdown` が待った後にすること。`drain` を済ませてから行う。 -/
def shutdown : Pool :=
  if s.draining then retireAll c (s.activeWorkers ++ s.parkedWorkers) s else s

end Pool

/-! ## 走行 -/

inductive Event where
  | dispatch (projectRef : ProjectRef) (cancelKey : Option String) (maxHeapBytes : Option Nat)
      (startFailure : Option StartFailure)
  | cancel (cancelKey : String) (posted : Bool)
  | abort (key : Nat) (posted : Bool)
  | execution (key : Nat) (event : Pool.ExecutionEvent)
  | message (worker : Worker) (message : Message)
  | error (worker : Worker) (message : String)
  | exit (worker : Worker)
  | preheat (projectRef : ProjectRef) (functionId : String) (maxHeapBytes : Option Nat)
  | preheating (id : Nat) (event : Pool.PreheatEvent)
  | bulkPreheat (request : BulkRequest)
  | bulkSettled
  | bulkNext
  | invalidateProject (projectRef : ProjectRef)
  | projectControl (worker : Worker)
  | invalidateModule
  | moduleControl (index : Nat) (acked : Worker → Bool)
  | setAdmissionBlocked (blocked recovering : Bool)
  | surplusTimeout (worker : Worker)
  | parkedTimeout (worker : Worker)
  | retirementTimeout (worker : Worker)
  | drain
  | shutdown

def step (c : Config) (s : Pool) : Event → Pool
  | .dispatch projectRef cancelKey maxHeapBytes startFailure =>
    s.dispatch c projectRef cancelKey maxHeapBytes startFailure
  | .cancel cancelKey posted => s.cancel c cancelKey posted
  | .abort key posted => s.cancelExecution c key posted
  | .execution key event =>
    match s.findExecution key with
    | some e => s.onExecutionEvent c e event
    | none => s
  | .message worker message => s.onWorkerMessage c worker message
  | .error worker message => s.onWorkerError c worker message
  | .exit worker => (s.notifyExit c worker).onWorkerExit c worker
  | .preheat projectRef functionId maxHeapBytes => s.preheat projectRef functionId maxHeapBytes
  | .preheating id event =>
    match s.findPreheat id with
    | some j => s.onPreheatEvent c j event
    | none => s
  | .bulkPreheat request => s.enqueueBulkPreheat c request
  | .bulkSettled =>
    match s.bulk with
    | some b => s.onBulkSettled c b
    | none => s
  | .bulkNext =>
    match s.bulk with
    | some b => s.onBulkNext c b
    | none => s
  | .invalidateProject projectRef => s.invalidateProject projectRef
  | .projectControl worker => s.onProjectControl c worker
  | .invalidateModule => s.invalidateModule
  | .moduleControl index acked => s.onModuleControl c index acked
  | .setAdmissionBlocked blocked recovering => s.setAdmissionBlocked c blocked recovering
  | .surplusTimeout worker => s.onSurplusTimeout c worker
  | .parkedTimeout worker => s.onParkedTimeout c worker
  | .retirementTimeout worker => s.onRetirementTimeout worker
  | .drain => s.stopDispatching
  | .shutdown => s.shutdown c

def Pool.blank : Pool where
  idle := []
  queue := .empty
  inFlight := []
  activeWorkers := []
  parkedWorkers := []
  retiredWorkers := []
  metadata := fun _ => none
  handlers := fun _ => none
  tainted := fun _ => false
  workerGeneration := 0
  admissionBlocked := false
  admissionRecovering := false
  draining := false
  preheats := []
  bulk := none
  bulkWaiting := []
  nextWorker := 0
  nextKey := 0
  nextPreheat := 0
  book := {}
  log := []

def Pool.addIdleWorker (s : Pool) : Pool :=
  let (s, w) := s.createWorker
  { s with idle := s.idle ++ [w], activeWorkers := setAdd s.activeWorkers w }

def Pool.initial (c : Config) : Pool := Nat.repeat Pool.addIdleWorker c.size .blank

def run (c : Config) (s : Pool) : List Event → Pool
  | [] => s
  | e :: rest => run c (step c s e) rest

/-! ## 走行に課す仮定 -/

/-- 実行者は、終わりを知らせる前に、応答の状態を知らせている。 -/
def reportsStatus (s : Pool) : Event → Bool
  | .message w (.executionComplete _) =>
    match s.handlers w with
    | some (.execution k) =>
      match s.findExecution k with
      | some e => e.responseReceived || e.cancellationRequested
      | none => true
    | _ => true
  | _ => true

def Pool.startsNext (s : Pool) (b : Bulk) : Bool :=
  b.phase = .running && b.request.kind = .release && !b.remaining.isEmpty &&
    s.preheats.all fun j => j.owner ≠ .bulk || j.phase = .done true true

/-- `release` の予熱が次の関数に進むとき、取った実行者はみな溜まりにある。 -/
def keepsReserved (s : Pool) : Event → Bool
  | .bulkSettled =>
    match s.bulk with
    | some b => !s.startsNext b || b.workers.all fun w => (s.metadata w).isSome
    | none => true
  | _ => true

/-- 疑わしいとする実行者は溜まりか引退の途中にあり、疑わしい実行者の引退の猶予は過ぎない。 -/
def findsSuspects (s : Pool) : Event → Bool
  | .moduleControl index acked =>
    match s.book.moduleControls[index]? with
    | some workers => workers.all fun w => acked w || (s.metadata w).isSome || w ∈ s.retiredWorkers
    | none => true
  | .retirementTimeout w => !s.tainted w
  | _ => true

def runAll (check : Pool → Event → Bool) (c : Config) (s : Pool) : List Event → Bool
  | [] => true
  | e :: rest => check s e && runAll check c (step c s e) rest

/-!
## 観測

走行の性質を述べるための、状態の量と記録の読み方。`log` は新しいものから並ぶ。
-/

def reserved : Option Bulk → List Worker
  | some b => if b.phase = .settled then [] else b.workers
  | none => []

def held (js : List PreheatJob) : List Worker := (js.filter fun j => j.owner = .single).map (·.worker)

/-- 待つ者を失った予熱も、終わるまで実行者を持つ。 -/
def Pool.ownersOf (s : Pool) (w : Worker) : Nat :=
  (s.inFlight.map (·.worker)).count w + ((s.preheats.filter fun j => j.owner ≠ .bulk).map (·.worker)).count w + (reserved s.bulk).count w

def LogEvent.admission : LogEvent → Option (Nat × ProjectRef)
  | .admitted k p => some (k, p)
  | _ => none

def LogEvent.settledKey : LogEvent → Option Nat
  | .settled k _ => some k
  | _ => none

variable (p : ProjectRef)

def LogEvent.admittedKey : LogEvent → Option Nat
  | .admitted k q => if q = p then some k else none
  | _ => none

def LogEvent.startedKey : LogEvent → Option Nat
  | .started k _ q => if q = p then some k else none
  | _ => none

variable (log : List LogEvent)

def admissions : List (Nat × ProjectRef) := log.filterMap LogEvent.admission

theorem mem_admissions {k p log} : (k, p) ∈ admissions log ↔ .admitted k p ∈ log := by
  rw [admissions, List.mem_filterMap]
  constructor
  · rintro ⟨e, he, hk⟩
    cases e <;> cases hk
    exact he
  · exact fun h => ⟨_, h, rfl⟩

def settledKeys : List Nat := log.filterMap LogEvent.settledKey

def admittedKeys : List Nat := log.filterMap (LogEvent.admittedKey p)

def startedKeys : List Nat := log.filterMap (LogEvent.startedKey p)

def LogEvent.assignment : LogEvent → Option (Worker × ProjectRef)
  | .assigned w p => some (w, p)
  | _ => none

def LogEvent.use : LogEvent → Option (Worker × ProjectRef)
  | .started _ w p => some (w, p)
  | .preheatStarted w p => some (w, p)
  | _ => none

def LogEvent.throw : LogEvent → Option (Worker × AssignError)
  | .threw w e => some (w, e)
  | _ => none

def assignments : List (Worker × ProjectRef) := log.filterMap LogEvent.assignment

theorem mem_assignments {w p log} : (w, p) ∈ assignments log ↔ .assigned w p ∈ log := by
  rw [assignments, List.mem_filterMap]
  constructor
  · rintro ⟨e, he, hk⟩
    cases e <;> cases hk
    exact he
  · exact fun h => ⟨_, h, rfl⟩

def uses : List (Worker × ProjectRef) := log.filterMap LogEvent.use

def throws : List (Worker × AssignError) := log.filterMap LogEvent.throw

/-! ## 要求の行方 -/

namespace Pool

variable (s : Pool)

def queuedKeys (p : ProjectRef) : List Nat := (s.queue.at p).map (·.key)

def Waiting (k : Nat) (p : ProjectRef) : Prop :=
  (s.queuedKeys p).count k = 1 ∧ (∀ q, q ≠ p → k ∉ s.queuedKeys q) ∧ k ∉ s.inFlight.map Execution.key ∧ k ∉ settledKeys s.log

/-- 要求 k は、プロジェクト p の一つの実行で、その実行者はほかの実行を持たない。応答は、済ませたと印のあるときちょうど一度、
ないときはまだしていない。 -/
def Executing (k : Nat) (p : ProjectRef) : Prop :=
  (∃ e, (s.inFlight.filter fun x => x.key = k) = [e] ∧ e.dispatch.projectRef = p ∧ (s.inFlight.map (·.worker)).count e.worker = 1 ∧
    (settledKeys s.log).count k = if e.resolved then 1 else 0) ∧ ∀ q, k ∉ s.queuedKeys q

def Answered (k : Nat) : Prop :=
  (∀ q, k ∉ s.queuedKeys q) ∧ k ∉ s.inFlight.map Execution.key ∧ (settledKeys s.log).count k = 1

def executionsOf (p : ProjectRef) : Nat := (s.inFlight.filter fun e => e.dispatch.projectRef = p).length

end Pool

end Supacloud.EdgeRuntime
