import Supacloud.EdgeRuntime.Pool

/-!
# 割り当て（edge-runtime/worker-pool.ts の `schedule`、`execute`、`recycle`）

`schedule`、`execute`、`recycle`、`retireWorker` は互いを最後に呼ぶので、一回分の仕事を
`scheduleStep` とする。`execute` は最初の `await` までを扱う。
-/

namespace Supacloud.EdgeRuntime.Pool

open Library

variable (c : Config) (s : Pool)

def cleanup (e : Execution) : Pool :=
  { s with
    inFlight := s.inFlight.filter fun x => x.key ≠ e.key
    handlers := if s.handlers e.worker = some (.execution e.key) then Function.update s.handlers e.worker none
      else s.handlers }

def resolveOnce (e : Execution) (r : Response) : Pool := if e.resolved then s else s.settle e.key r

variable (w : Worker)

def recycle : Pool × Option Worker :=
  if w ∉ s.activeWorkers then (s, none)
  else if s.tainted w then retireWorker c { s with tainted := Function.update s.tainted w false } w true
  else (s, some w)

variable (d : Dispatch)

def beginExecution : Pool :=
  let e : Execution := { dispatch := d, worker := w }
  ({ s with
    inFlight := s.inFlight ++ [e]
    handlers := Function.update s.handlers w (some (.execution d.key)) }).record (.started d.key w d.projectRef)

def execute : Pool × Option Worker :=
  match s.assignWorkerProject w d.projectRef with
  | (s, false) => (s.settle d.key .rejected, none)
  | (s, true) =>
    let s := s.beginExecution w d
    let e : Execution := { dispatch := d, worker := w }
    match d.startFailure with
    | none => (s, none)
    | some f => recycle c ((s.cleanup e).resolveOnce e f.response) w

/-! ## 割り当て -/

def pushIdle : Pool := { s with idle := s.idle ++ [w] }

def shouldRetireSurplusWorker : Bool :=
  !s.draining && c.maxConcurrentExecutions > c.size && s.activeWorkers.length > c.size && s.queue.count == 0

def deferSurplusRetirement : Pool :=
  { s with book := { s.book with surplusTimer := Function.update s.book.surplusTimer w true } }

def dequeueQueuedForWorker : Option (Dispatch × Pool) :=
  let popped := match s.workerProjectRef w with
    | none => s.queue.popNext s.book.lastDispatchedProjectRef
    | some p => s.queue.popFor p
  popped.map fun x =>
    (x.1, { s with queue := x.2, book := { s.book with lastDispatchedProjectRef := some x.1.projectRef } })

/-- 実行者 w に次に割り当てるプロジェクト。空の文字列は、割り当てがないのと同じに扱われる。 -/
def targetProject : Option ProjectRef :=
  let assigned := s.workerProjectRef w
  let withinCap := fun p => projectWithinFunctionCap c s p (some w)
  let uncovered := s.queue.order.find? fun p =>
    some p ≠ assigned && withinCap p && !s.hasActiveWorkerForProject p
  uncovered.or
    (match assigned with
      | some a => if a ≠ "" && s.queue.has a && withinCap a then some a else s.queue.order.find? withinCap
      | none => s.queue.order.find? withinCap)

def runNext : Pool × Option Worker :=
  match s.dequeueQueuedForWorker w with
  | none => (s.pushIdle w, none)
  | some (d, s) => execute c s w d

/-- `schedule` の一回分。返す実行者があれば、続けて割り当てる。 -/
def scheduleStep : Pool × Option Worker :=
  let s := s.clearSurplusTimer w
  if s.tainted w then retireWorker c s w true
  else if shouldRetireSurplusWorker c s then
    if s.admissionBlocked || s.admissionRecovering then (retireSurplusWorker c s w, none)
    else ((s.pushIdle w).deferSurplusRetirement w, none)
  else if s.draining || s.admissionBlocked then (s.pushIdle w, none)
  else
    match targetProject c s w with
    | none => (s.pushIdle w, none)
    | some p =>
      if !s.workerAcceptsProject w p then
        match switchProjectSlot c s w p with
        | (s, none) => (s, none)
        | (s, some r) => runNext c s r
      else
        match s.assignWorkerProject w p with
        | (s, false) => (s, none)
        | (s, true) => runNext c s w

/-- 次に割り当てる実行者がある間、繰り返す。引数は回数の上限である。 -/
def scheduleLoop : Nat → Pool × Option Worker → Pool
  | _, (s, none) => s
  | 0, (s, some _) => s
  | n + 1, (s, some w) => scheduleLoop n (scheduleStep c s w)

/-- 一回ごとに列の要求が減るか、疑わしい実行者が新しいものに替わるので、この回数で足りる。 -/
def finishTurn (t : Pool × Option Worker) : Pool := scheduleLoop c (2 * t.1.queue.count + 2) t

def schedule : Pool := finishTurn c (s, some w)

/-- `ensureWorkerForQueuedProject`。引数は、始めの `idle` の写しである。 -/
def ensureWorkerForQueuedProject : List Worker → Pool → Pool
  | [], s => s
  | w :: rest, s =>
    if s.queue.count = 0 then s
    else ensureWorkerForQueuedProject rest (schedule c { s with idle := setDelete s.idle w } w)

def ensureCapacityForQueuedWork : Pool :=
  let s := ensureWorkerForQueuedProject c s.idle s
  if s.queue.count = 0 then s
  else if s.draining || s.admissionBlocked || s.admissionRecovering then s
  else if s.activeWorkers.length ≥ c.maxConcurrentExecutions then s
  else if s.book.workerRecycleRequired then s
  else if s.activeWorkers.length + s.parkedWorkers.length + s.retiredWorkers.length ≥ c.maxWorkers then s
  else
    let (s, w) := s.createWorker
    schedule c { s with activeWorkers := setAdd s.activeWorkers w } w

/-! ## 受け付け -/

def enqueueQueued : Pool := { s with queue := s.queue.push d.projectRef d }

def delay : Pool :=
  ensureCapacityForQueuedWork c ((s.record (.admitted d.key d.projectRef)).enqueueQueued d)

def runNow : Pool :=
  let s := { s with book := { s.book with lastDispatchedProjectRef := some d.projectRef } }
  finishTurn c (execute c (s.record (.admitted d.key d.projectRef)) w d)

def refuse (r : Response) : Pool := s.record (.refused d.key r)

def enqueue : Pool :=
  if s.rejectAdmission then s.refuse d .admissionBlocked
  else if s.queue.count ≥ c.maxQueueSize then s.refuse d .tooManyRequests
  else
    let p := d.projectRef
    match tenantBudget c p with
    | .invalid => s.refuse d .tenantCapacity
    | .limited budget =>
      let queued := (s.queue.at p).length
      match edgeTenantAdmission budget (s.executingCount p none) queued (s.projectHeapBytes p) with
      | .reject => s.refuse d .tenantCapacity
      | .delay => delay c s d
      | .run =>
        match s.takeIdleWorker p with
        | some (w, s) => runNow c s w d
        | none => if edgeTenantQueueAdmission budget queued then delay c s d else s.refuse d .tenantCapacity
    | .unlimited =>
      match s.takeIdleWorker p with
      | some (w, s) => runNow c s w d
      | none => delay c s d

def dispatch (projectRef : ProjectRef) (cancelKey : Option String) (maxHeapBytes : Option Nat)
    (startFailure : Option StartFailure) : Pool :=
  let d : Dispatch := { key := s.nextKey, projectRef, cancelKey, maxHeapBytes, startFailure }
  let s := { s with nextKey := s.nextKey + 1 }
  if s.draining then s.refuse d .serverShuttingDown
  else if s.rejectAdmission then s.refuse d .admissionBlocked
  else enqueue c s d

end Supacloud.EdgeRuntime.Pool

/-! ## 実行の進行（edge-runtime/worker-pool.ts の `execute` の閉包） -/

namespace Supacloud.EdgeRuntime

structure MemoryReport where
  heapSize : Nat := 0
  extraMemorySize : Nat := 0
  importedModuleBytes : Nat := 0
  importedModuleCount : Nat := 0

inductive MessageBody where
  | port
  | buffer (present fits : Bool)

inductive Attestation where
  | mismatch
  | absent
  | accepted
  deriving DecidableEq

/-- 実行者からの通知。`posted` は、これに応じて送る通知が例外を投げないことを表す。 -/
inductive Message where
  | executionStarted
  | log
  | responseComplete (waitUntilPending : Bool)
  | executionComplete (memory : MemoryReport)
  | response (status : Nat) (body : MessageBody) (posted : Bool)
  | preheatDone (functionId : String) (attestation : Attestation) (memory : MemoryReport)
  | preheatError (functionId : String)
  | unrelated

namespace Pool

open Library

variable (c : Config) (s : Pool)

def findExecution (k : Nat) : Option Execution := s.inFlight.find? fun e => e.key = k

variable (e : Execution)

def updateExecution : Pool :=
  { s with inFlight := s.inFlight.map fun x => if x.key = e.key then e else x }

def recordWorkerMemory (w : Worker) (m : MemoryReport) (budget : Nat) : Pool :=
  let memory : Memory := { heapSize := m.heapSize, extraMemorySize := m.extraMemorySize }
  let s := { s with book := { s.book with
    workerMemory := s.book.workerMemory.filter (fun x => x.1 ≠ w) ++ [(w, memory)] } }
  if m.heapSize > budget || m.importedModuleBytes > c.maxModuleBytes || m.importedModuleCount ≥ c.maxModuleCount then
    { s with tainted := Function.update s.tainted w true }
  else s

def retireWithFailure (r : Response) : Pool × Option Worker :=
  retireWorker c ((s.cleanup e).resolveOnce e r) e.worker true

def complete : Pool × Option Worker :=
  if !e.executionDone || !e.streamDone then (s.updateExecution e, none)
  else recycle c (s.cleanup e) e.worker

def requestCancellation (r : Response) (posted : Bool) : Pool × Option Worker :=
  if e.cancellationRequested then (s, none)
  else if !e.started then recycle c ((s.cleanup e).resolveOnce e r) e.worker
  else
    let s := s.resolveOnce e r
    let e := { e with
      cancellationRequested := true
      timeout := false
      streamDone := e.streamDone || e.failStream
      failStream := false
      pendingResponse := none
      resolved := true }
    if e.executionDone then complete c s { e with streamDone := true }
    else if posted then (s.updateExecution { e with cancelTimer := some r }, none)
    else retireWithFailure c s e r

/-! ## 通知 -/

def onExecutionComplete (m : MemoryReport) : Pool :=
  let e := { e with
    executionDone := true
    streamDone := e.streamDone || e.cancellationRequested
    waitTimers := e.waitTimers - 1 }
  let s := finishTurn c (complete c (recordWorkerMemory c s e.worker m (heapBudget c e.dispatch.maxHeapBytes)) e)
  match e.pendingResponse with
  | none => s
  | some status =>
    (s.resolveOnce e (.worker status)).updateExecution { e with pendingResponse := none, resolved := true }

def onResponse (status : Nat) (body : MessageBody) (posted : Bool) : Pool :=
  if e.cancellationRequested || e.responseReceived then s
  else
    let e := { e with responseReceived := true }
    match body with
    | .port =>
      (s.resolveOnce e (.worker status)).updateExecution
        { e with streamDone := false, streaming := true, failStream := true, resolved := true }
    | .buffer _ false =>
      finishTurn c (requestCancellation c (s.updateExecution e) e (.failure 503 "buffer budget exceeded") posted)
    | .buffer present true => s.updateExecution { e with pendingResponse := some status, failStream := present }

def onResponseComplete (waitUntilPending : Bool) : Pool :=
  let e' := { e with timeout := false, waitTimers := e.waitTimers + 1 }
  match e.pendingResponse, waitUntilPending with
  | some status, true =>
    (s.resolveOnce e (.worker status)).updateExecution { e' with pendingResponse := none, resolved := true }
  | _, _ => s.updateExecution e'

def onMessage : Message → Pool
  | .responseComplete waitUntilPending => s.onResponseComplete e waitUntilPending
  | .executionComplete m => onExecutionComplete c s e m
  | .response status body posted => onResponse c s e status body posted
  | _ => s

inductive Preparation where
  | sent
  | bodyLimit (limit : Nat)
  | bufferBudget
  | readFailed
  | internalError

def onPrepared (outcome : Preparation) : Pool :=
  let failed (r : Response) : Pool := finishTurn c (recycle c ((s.cleanup e).resolveOnce e r) e.worker)
  if e.started then s
  else
    match outcome with
    | .sent => s.updateExecution { e with started := true }
    | .bodyLimit limit => failed (.bodyTooLarge limit)
    | .bufferBudget => failed .admissionBlocked
    | .readFailed => failed (.failure 400 "Failed to read request")
    | .internalError => failed (.failure 500 "Internal Error")

inductive ExecutionEvent where
  | prepared (outcome : Preparation)
  | timeout (posted : Bool)
  | waitTimeout
  | cancelTimeout
  | producerDone
  | streamCancelled (failed posted : Bool)

def onExecutionEvent : ExecutionEvent → Pool
  | .prepared outcome => onPrepared c s e outcome
  | .timeout posted =>
    if e.timeout then finishTurn c (requestCancellation c s e (.failure 504 "Gateway Timeout") posted) else s
  | .waitTimeout =>
    if e.waitTimers > 0 then finishTurn c (retireWithFailure c s e (.failure 504 "EdgeRuntime.waitUntil timed out"))
    else s
  | .cancelTimeout =>
    match e.cancelTimer with
    | some r => finishTurn c (retireWithFailure c s e r)
    | none => s
  | .producerDone => if e.streaming then finishTurn c (complete c s { e with streamDone := true }) else s
  | .streamCancelled failed posted =>
    if e.streaming then
      finishTurn c (requestCancellation c s e
        (if failed then .failure 500 "Function body cancelled" else .cancelled) posted)
    else s

/-! ## 取り消し -/

def cancelQueued (p : ProjectRef) (index : Nat) : Pool :=
  match s.queue.removeAt p index with
  | none => s
  | some (d, q) => ({ s with queue := q }).settle d.key .cancelled

def cancelWhere (p : Dispatch → Bool) (posted : Bool) : Pool :=
  match s.queue.find p with
  | some (projectRef, index) => s.cancelQueued projectRef index
  | none =>
    match s.inFlight.find? fun e => p e.dispatch with
    | some e => finishTurn c (requestCancellation c s e .cancelled posted)
    | none => s

def cancel (cancelKey : String) (posted : Bool) : Pool := cancelWhere c s (fun d => d.cancelKey == some cancelKey) posted

def cancelExecution (k : Nat) (posted : Bool) : Pool := cancelWhere c s (fun d => d.key == k) posted

end Pool

end Supacloud.EdgeRuntime

/-!
## 予熱と世代の交代（edge-runtime/worker-pool.ts）

一括の予熱は一つずつ順に行われ、`release` の予熱は、取った実行者を最後の関数まで手放さない。
-/

namespace Supacloud.EdgeRuntime.Pool

open Library

variable (c : Config) (s : Pool)

variable (j : PreheatJob)

/-! ## 予熱一つ -/

def updatePreheat : Pool :=
  { s with preheats := s.preheats.map fun x => if x.id = j.id then j else x }

def findPreheat (id : Nat) : Option PreheatJob := s.preheats.find? fun j => j.id = id

def preheatWorker (w : Worker) (p : ProjectRef) (functionId : String) (maxHeapBytes : Option Nat)
    (owner : PreheatOwner) : Pool × Bool :=
  match s.assignWorkerProject w p with
  | (s, false) => (s, false)
  | (s, true) =>
    let job : PreheatJob :=
      { id := s.nextPreheat, worker := w, projectRef := p, functionId, maxHeapBytes, owner, phase := .preparing }
    (({ s with preheats := s.preheats ++ [job], nextPreheat := s.nextPreheat + 1 }).record (.preheatStarted w p), true)

def finishPreheat (success attested : Bool) : Pool :=
  let s := s.updatePreheat { j with phase := .done success attested }
  { s with handlers := if s.handlers j.worker = some (.preheat j.id) then Function.update s.handlers j.worker none
      else s.handlers }

def failedPreheat : Pool :=
  (finishTurn c (retireWorker c s j.worker true)).finishPreheat j false false

def completedPreheat (attestation : Attestation) (m : MemoryReport) : Pool :=
  match attestation with
  | .mismatch => failedPreheat c s j
  | attestation =>
    let s := recordWorkerMemory c s j.worker m (heapBudget c j.maxHeapBytes)
    if s.tainted j.worker then failedPreheat c s j
    else (s.finishPreheat j true (attestation = .accepted)).record (.preheatSucceeded j.worker)

def onPreheatMessage : Message → Pool
  | .preheatDone functionId attestation m => if functionId = j.functionId then completedPreheat c s j attestation m else s
  | .preheatError functionId => if functionId = j.functionId then failedPreheat c s j else s
  | _ => s

/-- 準備（バイトコードと TLS の方針）が済んだ後。`posted` が偽なら、通知の送り出しが例外を投げる。 -/
def waitForWorkerPreheat (posted : Bool) : Pool :=
  if (s.metadata j.worker).isNone then failedPreheat c s j
  else
    let s := { s.updatePreheat { j with phase := .waiting } with
      handlers := Function.update s.handlers j.worker (some (.preheat j.id)) }
    if posted then s else failedPreheat c s { j with phase := .waiting }

inductive PreheatEvent where
  | prepared (posted : Bool)
  | prepareFailed
  | timeout
  | settled

def settlePreheat : Pool :=
  let s := { s with preheats := s.preheats.filter fun x => x.id ≠ j.id }
  match j.owner with
  | .single => if !s.draining && j.worker ∈ s.activeWorkers then finishTurn c (recycle c s j.worker) else s
  | _ => s

def onPreheatEvent : PreheatEvent → Pool
  | .prepared posted => if j.phase = .preparing then waitForWorkerPreheat c s j posted else s
  | .prepareFailed => if j.phase = .preparing then failedPreheat c s j else s
  | .timeout => if j.phase = .waiting then failedPreheat c s j else s
  | .settled =>
    match j.phase, j.owner with
    | .done _ _, .single => settlePreheat c s j
    | .done _ _, .orphan => settlePreheat c s j
    | _, _ => s

def preheat (p : ProjectRef) (functionId : String) (maxHeapBytes : Option Nat) : Pool :=
  if s.draining || s.admissionBlocked || s.admissionRecovering then s
  else
    match s.takeIdleWorker p with
    | none => s
    | some (w, s) => (s.preheatWorker w p functionId maxHeapBytes .single).1

def rotateWorkerForGeneration (w : Worker) : Pool :=
  if w ∈ s.parkedWorkers then finishTurn c (retireWorker c s w true)
  else if w ∈ s.idle then finishTurn c (retireWorker c s w true)
  else { s with tainted := Function.update s.tainted w true }

def rotateGeneration : Pool :=
  let s := { s with workerGeneration := s.workerGeneration + 1 }
  let workers := (s.activeWorkers ++ s.parkedWorkers).filter fun w =>
    match s.metadata w with
    | some m => m.generation < s.workerGeneration
    | none => true
  (workers.foldl (rotateWorkerForGeneration c) s).record (.rotated s.workerGeneration)

/-! ## 一括の予熱 -/

def requestedPreheatWorkers (maxWorkers : Nat) : Nat :=
  if maxWorkers = 0 then s.idle.length else min maxWorkers s.idle.length

def replaceMismatchedIdleWorkers (p : ProjectRef) : List Worker → Pool → Pool
  | [], s => s
  | w :: rest, s =>
    match switchProjectSlot c s w p with
    | (s, none) => s
    | (s, some r) => replaceMismatchedIdleWorkers p rest (s.pushIdle r)

def takeIdleWorkersForProject (p : ProjectRef) (maxWorkers : Nat) : List Worker × Pool :=
  let accepted := fun (s : Pool) w => s.workerAcceptsProject w p && !s.tainted w
  let requested := s.requestedPreheatWorkers maxWorkers
  let missing := requested - (s.idle.filter (accepted s)).length
  let mismatched := (s.idle.filter fun w => !s.workerAcceptsProject w p).take missing
  let s := replaceMismatchedIdleWorkers c p mismatched s
  let workers := (s.idle.filter (accepted s)).take requested
  (workers, { s with idle := s.idle.filter fun w => w ∉ workers })

def preheatWorkers (r : BulkRequest) (functionId : String) : List Worker → Pool → Pool × Bool
  | [], s => (s, true)
  | w :: rest, s =>
    let (s, ok) := s.preheatWorker w r.projectRef functionId r.maxHeapBytes .bulk
    let (s, oks) := preheatWorkers r functionId rest s
    (s, ok && oks)

/-- 一括の予熱の次の関数を始める。割り当ての例外が起きると、始まった予熱は待つ者を失う。 -/
def startMember (b : Bulk) (functionId : String) (remaining : List String) : Pool :=
  match preheatWorkers b.request functionId b.workers s with
  | (s, true) => { s with bulk := some { b with remaining, phase := .running } }
  | (s, false) =>
    { s with
      bulk := some { b with remaining, phase := .rejected }
      preheats := s.preheats.map fun j => if j.owner = .bulk then { j with owner := .orphan } else j }

def BulkRequest.settled (r : BulkRequest) : Bulk := { request := r, remaining := [], workers := [], phase := .settled }

def takeAndStart (r : BulkRequest) : Pool :=
  let (workers, s) := takeIdleWorkersForProject c s r.projectRef r.maxWorkers
  match workers, r.members with
  | [], _ => { s with bulk := some (BulkRequest.settled r) }
  | _, [] => { s with bulk := some (BulkRequest.settled r) }
  | workers, m :: rest => startMember s { BulkRequest.settled r with workers } m rest

def startBulk (r : BulkRequest) : Pool :=
  if s.draining || s.admissionBlocked || s.admissionRecovering then { s with bulk := some (BulkRequest.settled r) }
  else
    match r.kind with
    | .idle => takeAndStart c s r
    | _ => takeAndStart c (rotateGeneration c s) r

def recycleBulkPreheatWorkers : List Worker → Pool → Pool
  | [], s => s
  | w :: rest, s =>
    recycleBulkPreheatWorkers rest (if w ∈ s.activeWorkers then finishTurn c (recycle c s w) else s)

def settleBulk (b : Bulk) : Pool :=
  let s := { s with bulk := some { b with phase := .settled } }
  if s.draining then s else recycleBulkPreheatWorkers c b.workers s

def PreheatJob.isDone : Bool :=
  match j.phase with
  | .done _ _ => true
  | _ => false

/-- `Promise.all` が終わった後。`release` は、すべて成功し証明されていれば次の関数に進む。 -/
def onBulkSettled (b : Bulk) : Pool :=
  match b.phase with
  | .settled => s
  | .rejected => settleBulk c s b
  | .running =>
    let jobs := s.preheats.filter fun j => j.owner = .bulk
    if !jobs.all PreheatJob.isDone then s
    else
      let s := { s with preheats := s.preheats.filter fun j => j.owner ≠ .bulk }
      match b.request.kind, jobs.all (fun j => j.phase = .done true true), b.remaining with
      | .release, true, m :: rest => s.startMember b m rest
      | _, _, _ => settleBulk c s b

def onBulkNext (b : Bulk) : Pool :=
  match b.phase, s.bulkWaiting with
  | .settled, [] => { s with bulk := none }
  | .settled, r :: rest => startBulk c { s with bulkWaiting := rest } r
  | _, _ => s

/-- `release` は、異なる関数を 1 個から 128 個まで受け付ける。 -/
def BulkRequest.valid (r : BulkRequest) : Bool :=
  match r.kind with
  | .release => !r.members.isEmpty && r.members.length ≤ 128 && r.members.Nodup
  | _ => r.members.length == 1

def enqueueBulkPreheat (r : BulkRequest) : Pool :=
  if !BulkRequest.valid r then s
  else
    match s.bulk with
    | none => startBulk c s r
    | some _ => { s with bulkWaiting := s.bulkWaiting ++ [r] }

/-! ## 無効化 -/

def invalidateProject (p : ProjectRef) : Pool :=
  let s := { s.settleAll (s.queue.at p) .invalidatedBeforeExecution with queue := s.queue.drop p }
  let workers := (s.activeWorkers ++ s.parkedWorkers).filter fun w => s.workerProjectRef w == some p
  ({ s with
    tainted := fun w => s.tainted w || workers.contains w
    book := { s.book with projectControls := s.book.projectControls ++ workers } }).record (.invalidated p)

def onProjectControl (w : Worker) : Pool :=
  if w ∉ s.book.projectControls then s
  else
    let s := { s with book := { s.book with projectControls := s.book.projectControls.erase w } }
    if w ∈ s.idle ∨ w ∈ s.parkedWorkers then finishTurn c (retireWorker c s w true) else s

def invalidateModule : Pool :=
  { s with book := { s.book with
    moduleControls := s.book.moduleControls ++ [s.activeWorkers ++ s.parkedWorkers] } }

/-- 返事のなかった実行者を、空いていれば引退させ、そうでなければ疑わしいとする。 -/
def controlWorkers (acked : Worker → Bool) : List Worker → Pool → Pool
  | [], s => s
  | w :: rest, s =>
    controlWorkers acked rest
      (if acked w then s
      else if w ∈ s.idle ∨ w ∈ s.parkedWorkers then finishTurn c (retireWorker c s w true)
      else { s with tainted := Function.update s.tainted w true })

def onModuleControl (index : Nat) (acked : Worker → Bool) : Pool :=
  match s.book.moduleControls[index]? with
  | none => s
  | some workers =>
    controlWorkers c acked workers
      { s with book := { s.book with moduleControls := s.book.moduleControls.eraseIdx index } }

end Supacloud.EdgeRuntime.Pool
