import Mathlib.Data.List.AList
import Mathlib.Data.List.Sort
import Supacloud.Library.Runs

/-!
# テナントごとのキャッシュの登録簿（pgredis-runtime/src/cache-registry.ts）

`await` から次の `await` までを一歩とする。`step` は再開の順を問わず、`Loop` は待ち行列の順に行う。
設定の読み取り、バックエンドの作成と片付けは外の部品で、時計はどの値にもなる。
-/

namespace Supacloud.TenantCache

open Library

abbrev Ref := String

abbrev Fingerprint := String

abbrev EntryId := ℕ

abbrev CallId := ℕ

structure TenantCacheRegistryOptions where
  maxTenants : ℕ
  tenantIdleMs : ℤ

/-- `retiring`、`closePromise`、`resolveLeaseDrain` の組。`active` は引退していない。`draining` は借り手の返すのを待ち、`ready` は
待ち終えて片付けの続きを待つ。`closing` は `close()` を待ち、`closed` は片付き、`failed` は `close()` の失敗である。 -/
inductive ClosePhase where
  | active
  | draining
  | ready
  | closing
  | closed
  | failed
  deriving DecidableEq

/-- `cleanup` は `cleanupExpired` を持つこと、`closeCalls` は `close()` の呼ばれた回数である。 -/
structure TenantCacheEntry where
  ref : Ref
  fingerprint : Fingerprint
  cleanup : Bool
  lastUsedAt : ℤ
  leases : ℕ
  phase : ClosePhase
  closeCalls : ℕ

def TenantCacheEntry.retiring (entry : TenantCacheEntry) : Bool := entry.phase != .active

/-- `acquire` の再開する所。`waiting` は前の呼び出しの錠、`failing` は錠を放す前の例外、`finished` は返した後か例外の後である。 -/
inductive Pc where
  | waiting (previous : Option CallId)
  | sweeping (stale : List EntryId)
  | loading
  | awaitingExisting (fingerprint : Fingerprint) (existing : EntryId)
  | evicting (fingerprint : Fingerprint) (oldest : EntryId)
  | evicted (fingerprint : Fingerprint)
  | evictFailed
  | creatingBackend (fingerprint : Fingerprint)
  | verifying (fingerprint : Fingerprint) (entry : EntryId)
  | discarding (entry : EntryId)
  | installed (entry : EntryId)
  | counted (entry : EntryId)
  | unlocked (entry : EntryId)
  | leased (entry : EntryId)
  | failing
  | finished

inductive Call where
  | acquire (ref : Ref) (pc : Pc)
  | idleSweep (stale : List EntryId)
  | expirySweep (visited : List EntryId) (current : EntryId)
  | shutdownLocks (locks : List CallId)
  | shutdownClose (all : List EntryId)
  | done

/-- `entries` は Map の並び、`retired` は Set の並び、`tenantLocks` の値は錠を持つ呼び出しである。 -/
structure Registry where
  options : TenantCacheRegistryOptions
  entries : List (Ref × EntryId)
  tenantLocks : AList fun _ : Ref => CallId
  retired : List EntryId
  creating : ℕ
  shuttingDown : Bool
  backends : List TenantCacheEntry
  calls : List Call
  now : ℤ

inductive Outcome where
  | config (fingerprint : Fingerprint)
  | backend (cleanup : Bool)
  | cleaned
  | rejected

namespace Registry

def start (options : TenantCacheRegistryOptions) (now : ℤ) : Registry where
  options
  entries := []
  tenantLocks := ∅
  retired := []
  creating := 0
  shuttingDown := false
  backends := []
  calls := []
  now

variable (s : Registry)

variable (c : CallId)

def goto (call : Call) : Registry := { s with calls := s.calls.set c call }

def spawn (call : Call) : Registry := { s with calls := s.calls ++ [call] }

variable (ref : Ref) (fingerprint : Fingerprint) (id : EntryId)

def setEntry (entry : TenantCacheEntry) : Registry := { s with backends := s.backends.set id entry }

/-! ## 登録の操作 -/

def mapSet : List (Ref × EntryId) :=
  if (s.entries.lookup ref).isSome then s.entries.map fun e => if e.1 = ref then (ref, id) else e else s.entries ++ [(ref, id)]

def retireEntry : Registry :=
  match s.backends[id]? with
  | none => s
  | some entry =>
    if entry.retiring then s
    else { s.setEntry id { entry with phase := if entry.leases = 0 then .ready else .draining } with
      entries := if s.entries.lookup entry.ref = some id then s.entries.filter (·.1 ≠ entry.ref) else s.entries
      retired := if id ∈ s.retired then s.retired else s.retired ++ [id] }

def retireAll (ids : List EntryId) : Registry := ids.foldl retireEntry s

def releaseEntry : Registry :=
  match s.backends[id]? with
  | none => s
  | some entry => s.setEntry id { entry with
      leases := entry.leases - 1
      lastUsedAt := s.now
      phase := if entry.leases - 1 = 0 ∧ entry.phase = .draining then .ready else entry.phase }

def lease (usedAt : TenantCacheEntry → ℤ) : Registry :=
  match s.backends[id]? with
  | none => s
  | some entry => s.setEntry id { entry with leases := entry.leases + 1, lastUsedAt := usedAt entry }

def liveEntries : List (EntryId × TenantCacheEntry) :=
  s.entries.filterMap fun e => (s.backends[e.2]?).map fun entry => (e.2, entry)

def stale : List EntryId :=
  (s.liveEntries.filter fun e => e.2.leases = 0 ∧ e.2.lastUsedAt ≤ s.now - s.options.tenantIdleMs).map Prod.fst

/-- 最も前に使われた項目。同じ時なら、Map の順に前のものである。 -/
def oldest : Option EntryId :=
  ((s.liveEntries.filter fun e => e.2.leases = 0).insertionSort fun l r => l.2.lastUsedAt ≤ r.2.lastUsedAt).head?.map Prod.fst

def overCapacity : Bool := s.options.maxTenants < s.entries.length + s.retired.length + s.creating

def phaseIs (phase : ClosePhase) (id : EntryId) : Bool := (s.backends[id]?).any fun entry => entry.phase = phase

def allClosed (ids : List EntryId) : Bool := ids.all (s.phaseIs .closed)

def anyFailed (ids : List EntryId) : Bool := ids.any (s.phaseIs .failed)

def lockReleased : Bool :=
  match s.calls[c]? with
  | some (.acquire _ (.unlocked _)) | some (.acquire _ (.leased _)) | some (.acquire _ .finished) => true
  | _ => false

/-! ## `acquire` の一歩 -/

def evictForCapacity : Registry :=
  if s.overCapacity then
    match s.oldest with
    | none => s.goto c (.acquire ref .evictFailed)
    | some oldest => (s.retireEntry oldest).goto c (.acquire ref (.evicting fingerprint oldest))
  else s.goto c (.acquire ref (.evicted fingerprint))

def reserve : Registry :=
  { s with creating := s.creating + 1 }.evictForCapacity c ref fingerprint

def unreserve : Registry := { s with creating := s.creating - 1 }

def existing : Option (EntryId × TenantCacheEntry) :=
  (s.entries.lookup ref).bind fun id => (s.backends[id]?).map fun entry => (id, entry)

def replaceEntry : Registry :=
  match s.existing ref with
  | none => s.reserve c ref fingerprint
  | some (id, entry) =>
    if entry.leases = 0 then (s.retireEntry id).goto c (.acquire ref (.awaitingExisting fingerprint id))
    else (s.retireEntry id).reserve c ref fingerprint

def enterOperation : Registry :=
  if s.shuttingDown then s.goto c (.acquire ref .failing)
  else (s.retireAll s.stale).goto c (.acquire ref (.sweeping s.stale))

def configLoaded : Registry :=
  if s.shuttingDown then s.goto c (.acquire ref .failing)
  else match s.existing ref with
    | none => s.replaceEntry c ref fingerprint
    | some (id, entry) =>
      if entry.fingerprint = fingerprint ∧ entry.retiring = false then
        (s.lease id fun _ => s.now).goto c (.acquire ref (.counted id))
      else s.replaceEntry c ref fingerprint

def backendCreated (cleanup : Bool) : Registry :=
  let entry : TenantCacheEntry :=
    { ref, fingerprint, cleanup, lastUsedAt := s.now, leases := 0, phase := .active, closeCalls := 0 }
  { s with backends := s.backends ++ [entry] }.goto c (.acquire ref (.verifying fingerprint s.backends.length))

def discard : Registry :=
  (s.unreserve.retireEntry id).goto c (.acquire ref (.discarding id))

def install : Registry :=
  { s.unreserve with entries := s.mapSet ref id }.goto c (.acquire ref (.installed id))

def unlock : Registry :=
  { s with tenantLocks := if s.tenantLocks.lookup ref = some c then s.tenantLocks.erase ref else s.tenantLocks }

/-- `closePromise` を待つ続き。失敗なら `rejected`、すべて片付いたら `next`。 -/
def awaitClosed (ids : List EntryId) (rejected next : Registry) : Registry :=
  if s.anyFailed ids then rejected else if s.allClosed ids then next else s

def resumeAcquire (pc : Pc) (outcome : Outcome) : Registry :=
  let failed := s.goto c (.acquire ref .failing)
  match pc, outcome with
  | .waiting previous, _ => if previous.all s.lockReleased then s.enterOperation c ref else s
  | .sweeping stale, _ => s.awaitClosed stale failed (s.goto c (.acquire ref .loading))
  | .loading, .config fingerprint => s.configLoaded c ref fingerprint
  | .loading, .rejected => failed
  | .awaitingExisting fingerprint existing, _ => s.awaitClosed [existing] failed (s.reserve c ref fingerprint)
  | .evicting fingerprint oldest, _ =>
    s.awaitClosed [oldest] (s.goto c (.acquire ref .evictFailed)) (s.evictForCapacity c ref fingerprint)
  | .evicted fingerprint, _ => s.goto c (.acquire ref (.creatingBackend fingerprint))
  | .evictFailed, _ => s.unreserve.goto c (.acquire ref .failing)
  | .creatingBackend fingerprint, .backend cleanup => s.backendCreated c ref fingerprint cleanup
  | .creatingBackend _, .rejected => s.unreserve.goto c (.acquire ref .failing)
  | .verifying fingerprint entry, .config latest =>
    if latest ≠ fingerprint ∨ s.shuttingDown then s.discard c ref entry else s.install c ref entry
  | .verifying _ entry, .rejected => s.discard c ref entry
  | .discarding entry, _ => s.awaitClosed [entry] failed failed
  | .installed entry, _ => (s.lease entry fun _ => s.now).goto c (.acquire ref (.counted entry))
  | .counted entry, _ => (s.unlock c ref).goto c (.acquire ref (.unlocked entry))
  | .failing, _ => (s.unlock c ref).goto c (.acquire ref .finished)
  | .unlocked entry, _ =>
    if s.shuttingDown then (s.releaseEntry entry).goto c (.acquire ref .finished) else s.goto c (.acquire ref (.leased entry))
  | _, _ => s

/-! ## ほかの呼び出し -/

def nextExpiry (visited : List EntryId) : Option EntryId :=
  (s.liveEntries.find? fun e => e.1 ∉ visited ∧ e.2.retiring = false ∧ e.2.cleanup).map Prod.fst

/-- `sweepExpired` の一巡り。`c` の次の再開する所を決める。 -/
def expireNext (visited : List EntryId) : Registry :=
  match s.nextExpiry visited with
  | none => s.goto c .done
  | some id => (s.lease id TenantCacheEntry.lastUsedAt).goto c (.expirySweep visited id)

def shutdownRetire : Registry :=
  let all := s.entries.map Prod.snd ++ s.retired
  (s.retireAll all).goto c (.shutdownClose all)

def resume (outcome : Outcome) : Registry :=
  match s.calls[c]? with
  | none => s
  | some (.acquire ref pc) => s.resumeAcquire c ref pc outcome
  | some (.idleSweep stale) => s.awaitClosed stale (s.goto c .done) (s.goto c .done)
  | some (.expirySweep visited current) => (s.releaseEntry current).expireNext c (current :: visited)
  | some (.shutdownLocks locks) => if locks.all s.lockReleased then s.shutdownRetire c else s
  | some (.shutdownClose all) => s.awaitClosed all (s.goto c .done) (s.goto c .done)
  | some .done => s

def acquire (ref : Ref) : Registry :=
  if s.shuttingDown then s
  else { s.spawn (.acquire ref (.waiting (s.tenantLocks.lookup ref))) with
    tenantLocks := s.tenantLocks.insert ref s.calls.length }

def release : Registry :=
  match s.calls[c]? with
  | some (.acquire ref (.leased entry)) => (s.releaseEntry entry).goto c (.acquire ref .finished)
  | _ => s

def sweepIdle : Registry := (s.retireAll s.stale).spawn (.idleSweep s.stale)

def sweepExpired : Registry := (s.spawn .done).expireNext s.calls.length []

def shutdown : Registry :=
  { s with shuttingDown := true }.spawn (.shutdownLocks (s.tenantLocks.entries.map fun e : (_ : Ref) × CallId => e.2))

def callClose : Registry :=
  match s.backends[id]? with
  | none => s
  | some entry =>
    if entry.phase = .ready then s.setEntry id { entry with phase := .closing, closeCalls := entry.closeCalls + 1 } else s

/-- `close()` の終わり。失敗した項目は `retired` に残る。 -/
def closeDone (ok : Bool) : Registry :=
  match s.backends[id]? with
  | none => s
  | some entry =>
    if entry.phase = .closing then
      if ok then { s.setEntry id { entry with phase := .closed } with retired := s.retired.erase id }
      else s.setEntry id { entry with phase := .failed }
    else s

end Registry

inductive Event where
  | tick (now : ℤ)
  | acquire (ref : Ref)
  | resume (call : CallId) (outcome : Outcome)
  | release (call : CallId)
  | sweepIdle
  | sweepExpired
  | shutdown
  | callClose (entry : EntryId)
  | closeDone (entry : EntryId) (ok : Bool)

def step (s : Registry) : Event → Registry
  | .tick now => { s with now }
  | .acquire ref => s.acquire ref
  | .resume call outcome => s.resume call outcome
  | .release call => s.release call
  | .sweepIdle => s.sweepIdle
  | .sweepExpired => s.sweepExpired
  | .shutdown => s.shutdown
  | .callClose entry => s.callClose entry
  | .closeDone entry ok => s.closeDone entry ok

/-!
## 待ち行列（マイクロタスク）

決まった約束を待つ続きは待ち行列の末尾に並び、先頭から行われる。`close()` を呼ぶ続きは、項目を引退させた時と、
最後の借り手が返した時に、借り手を数える続きと錠を放す続きは、待たれる `async` 関数が返した時に並ぶ。
`acquireEntry` は `withTenantLock` の約束をそのまま返すので、約束を移す仕事が一つ間に入る。
-/

inductive Job where
  | resume (call : CallId) (outcome : Outcome)
  | adopt (call : CallId)
  | callClose (entry : EntryId)
  | closeDone (entry : EntryId) (ok : Bool)

def Job.call : Job → Option CallId
  | .resume call _ | .adopt call => some call
  | .callClose _ | .closeDone _ _ => none

/-- `return` された値を待つ続き。 -/
def Call.continuation (c : CallId) : Call → List Job
  | .acquire _ (.installed _) | .acquire _ (.counted _) => [.resume c .cleaned]
  | .acquire _ (.unlocked _) => [.adopt c]
  | _ => []

structure Loop where
  registry : Registry
  jobs : List Job

inductive Signal where
  | host (e : Event)
  | settle (call : CallId) (outcome : Outcome)
  | settleClose (entry : EntryId) (ok : Bool)
  | microtask

/-- 利用者の呼び出しと時計。 -/
def Event.hosted : Event → Bool
  | .resume _ _ | .callClose _ | .closeDone _ _ => false
  | _ => true

/-- 一歩で片付けを待つだけになった項目。`retired` の順は、引退した順である。 -/
def Registry.drained (s t : Registry) : List EntryId := t.retired.filter fun id => t.phaseIs .ready id && !s.phaseIs .ready id

namespace Loop

def start (options : TenantCacheRegistryOptions) (now : ℤ) : Loop := { registry := .start options now, jobs := [] }

variable (w : Loop)

def perform (e : Event) (next : Registry → List Job) : Loop where
  registry := TenantCache.step w.registry e
  jobs := w.jobs ++ (w.registry.drained (TenantCache.step w.registry e)).map .callClose ++ next (TenantCache.step w.registry e)

def runJob : Job → Loop
  | .resume c outcome => w.perform (.resume c outcome) fun t => (t.calls[c]?).elim [] (Call.continuation c)
  | .adopt c => { w with jobs := w.jobs ++ [.resume c .cleaned] }
  | .callClose id => w.perform (.callClose id) fun _ => []
  | .closeDone id ok => w.perform (.closeDone id ok) fun _ => []

def awaits (c : CallId) : Bool :=
  (w.registry.calls[c]?).any (fun call => (call.continuation c).isEmpty) && w.jobs.all (·.call ≠ some c)

def step : Signal → Loop
  | .host e => if e.hosted then w.perform e fun _ => [] else w
  | .settle c outcome => if w.awaits c then { w with jobs := w.jobs ++ [.resume c outcome] } else w
  | .settleClose id ok => if w.registry.phaseIs .closing id then { w with jobs := w.jobs ++ [.closeDone id ok] } else w
  | .microtask =>
    match w.jobs with
    | [] => w
    | job :: jobs => { w with jobs }.runJob job

end Loop

/-! ## 枠 -/

namespace Call

def building : Call → Bool
  | .acquire _ (.creatingBackend _) => true
  | _ => false

def reserving : Call → Bool
  | .acquire _ (.evicting _ _) | .acquire _ (.evicted _) | .acquire _ .evictFailed | .acquire _ (.creatingBackend _)
  | .acquire _ (.verifying _ _) => true
  | _ => false

def inProgress : Call → Bool
  | .acquire _ (.leased _) | .acquire _ .finished | .done => false
  | _ => true

end Call

namespace Registry

variable (s : Registry)

/-- 作成を始めて、片付け終えていないバックエンドの数。 -/
def liveBackends : ℕ := s.calls.countP Call.building + s.backends.countP fun entry => entry.phase ≠ .closed

def reservationHolders : ℕ := s.calls.countP Call.reserving

end Registry

end Supacloud.TenantCache
