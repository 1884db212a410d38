import Mathlib.Logic.Relation
import Supacloud.EdgeRuntime.Events

/-!
# 処理の途中の一手

処理の途中にだけある事情は `Ghost` が持つ。
-/

namespace Supacloud.EdgeRuntime

open Library Pool Function Execution List

/-! ## 補助の量 -/

def Capped (c : Config) (p : ProjectRef) (n : Nat) : Prop :=
  match tenantBudget c p with
  | .unlimited => False
  | .invalid => True
  | .limited budget => budget.functionConcurrency ≤ n

theorem not_withinCap {c s p x} : projectWithinFunctionCap c s p x = false ↔ Capped c p (s.executingCount p x) := by
  unfold projectWithinFunctionCap Capped
  cases tenantBudget c p <;> simp

theorem Capped.mono {c p m n} (h : Capped c p m) (hn : m ≤ n) : Capped c p n := by
  unfold Capped at h ⊢
  cases hb : tenantBudget c p with
  | unlimited => simp [hb] at h
  | invalid => trivial
  | limited b =>
    simp only [hb] at h ⊢
    exact h.trans hn

/-- 処理の途中の事情。`loose` は割り当てを待つ実行者、`unchecked` と `rotating` はまだ調べていない実行者、
`credit` と `vacant` は代わりを待つプロジェクトと枠、`transit` は停め置きから枠に移る実行者、
`overflow` は停め置きが上限を超えうること、`calm` は `loose` を除いても列が上限にあることである。 -/
structure Ghost where
  loose : List Worker := []
  unchecked : List Worker := []
  rotating : List Worker := []
  credit : Option ProjectRef := none
  vacant : Bool := false
  transit : Option Worker := none
  overflow : Bool := false
  calm : Bool := false
  pending : List Nat := []
  fresh : Option Nat := none

/-- 走行に課す仮定。`status` は `reportsStatus`、`tidy` は `keepsReserved`、`placed`
は `findsSuspects` である。 -/
structure Mode where
  status : Bool := false
  tidy : Bool := false
  placed : Bool := false

def Placed (s : Pool) (w : Worker) : Prop := s.metadata w ≠ none ∨ w ∈ s.retiredWorkers

abbrev Stage := Pool × Ghost

structure Execution.Ok (e : Execution) : Prop where
  received : e.responseReceived = true → e.resolved = true ∨ e.pendingResponse ≠ none
  cancelled : e.cancellationRequested = true → e.resolved = true
  streaming : e.streaming = true → e.resolved = true
  origin : e.resolved = true → e.responseReceived = true ∨ e.cancellationRequested = true
  held : e.pendingResponse ≠ none → e.resolved = false ∧ e.responseReceived = true

def Bookkeeping.Below (b : Bookkeeping) (n : Nat) : Prop := ∀ ws ∈ b.moduleControls, ∀ w ∈ ws, w < n

def Pool.assignTo (s : Pool) (w : Worker) (p : ProjectRef) (md : Metadata) : Pool :=
  ({ s with metadata := Function.update s.metadata w (some { md with projectRef := some p }) }).record (.assigned w p)

def Pool.dropWorker (s : Pool) (w : Worker) : Pool :=
  removeWorkerReferences { s with activeWorkers := setDelete s.activeWorkers w } w

def Pool.leaveWorker (s : Pool) (w : Worker) (tracked : Bool) : Pool :=
  { s.dropWorker w with retiredWorkers := bif tracked then setAdd s.retiredWorkers w else s.retiredWorkers }

def Unowned (s : Pool) (g : Ghost) (w : Worker) : Prop :=
  s.draining = true ∨ w ∈ g.loose ∨ w ∈ s.idle ∨ (∀ k, s.handlers w ≠ some (.execution k)) ∨ ∃ j ∈ s.preheats, j.worker = w

inductive Move (c : Config) (m : Mode) : Stage → Stage → Prop where
  | aux (s : Pool) (g : Ghost) (book : Bookkeeping) (recovering : Bool) (waiting : List BulkRequest)
      (hb : book.Below s.nextWorker) (hw : ∀ r ∈ waiting, r ∈ s.bulkWaiting ∨ r.members ≠ [])
      (hm : ∀ x ∈ book.workerMemory, x ∈ s.book.workerMemory ∨ s.metadata x.1 ≠ none) :
      Move c m (s, g) ({ s with book, admissionRecovering := recovering, bulkWaiting := waiting }, g)
  | newKey (s : Pool) (g : Ghost) : Move c m (s, g) ({ s with nextKey := s.nextKey + 1 }, { g with fresh := some s.nextKey })
  | refuse (s : Pool) (g : Ghost) (k : Nat) (r : Response) (hk : g.fresh = some k) :
      Move c m (s, g) (s.record (.refused k r), { g with fresh := none })
  | settle (s : Pool) (g : Ghost) (k : Nat) (r : Response) (hk : k ∈ g.pending) :
      Move c m (s, g) (s.settle k r, { g with pending := g.pending.erase k })
  | lose (s : Pool) (g : Ghost) (k : Nat) (hk : k ∈ g.pending) (hm : m.status = false) :
      Move c m (s, g) (s, { g with pending := g.pending.erase k })
  | unqueue (s : Pool) (g : Ghost) (ds : List Dispatch) (q : MultiQueue ProjectRef Dispatch) (r : Response)
      (hall : s.queue.all.Perm (ds ++ q.all)) (hsub : ∀ p, (q.at p).Sublist (s.queue.at p)) :
      Move c m (s, g) ({ s.settleAll ds r with queue := q }, g)
  | flags (s : Pool) (g : Ghost) (draining blocked : Bool) (hd : s.draining = true → draining = true)
      (hq : draining = true ∨ blocked = true ∨ s.admissionBlocked = true → ∀ p, s.queue.at p = []) :
      Move c m (s, g) ({ s with draining, admissionBlocked := blocked }, g)
  | enqueue (s : Pool) (g : Ghost) (d : Dispatch) (hk : g.fresh = some d.key) (hd : s.draining = false)
      (hb : s.admissionBlocked = false) (hcalm : g.calm = false) (hun : g.unchecked = s.idle)
      (hq : ∀ b, tenantBudget c d.projectRef = .limited b → (s.queue.at d.projectRef).length + 1 ≤ b.queue) :
      Move c m (s, g) ((s.record (.admitted d.key d.projectRef)).enqueueQueued d, { g with fresh := none })
  | uncheck (s : Pool) (g : Ghost) : Move c m (s, g) (s, { g with unchecked := s.idle })
  | checked (s : Pool) (g : Ghost) (hq : ∀ p, s.queue.at p = []) :
      Move c m (s, g) (s, { g with unchecked := [] })
  | takeIdle (s : Pool) (g : Ghost) (w : Worker) (calm : Bool) (hw : w ∈ s.idle)
      (hcalm : calm = true → g.loose = [] ∧ g.credit = none ∧ w ∉ g.unchecked) :
      Move c m (s, g) ({ s with idle := setDelete s.idle w },
        { g with loose := w :: g.loose, unchecked := g.unchecked.filter (· ≠ w), calm })
  | putIdle (s : Pool) (g : Ghost) (w : Worker) (hw : w ∈ g.loose)
      (hq : s.draining = true ∨ s.admissionBlocked = true ∨ (g.calm = true ∧ g.loose = [w]) ∨
        ∀ p, s.queue.at p ≠ [] → projectWithinFunctionCap c s p (some w) = false) :
      Move c m (s, g) (s.pushIdle w, { g with loose := g.loose.filter (· ≠ w), credit := none, calm := false })
  | assign (s : Pool) (g : Ghost) (w : Worker) (p : ProjectRef) (md : Metadata) (hm : s.metadata w = some md)
      (ha : md.projectRef = none ∨ md.projectRef = some p)
      (hw : w ∈ g.loose ∨ g.transit = some w ∨ (w ∈ reserved s.bulk ∧ ∀ b, s.bulk = some b → b.request.projectRef = p))
      (hc : g.credit = none ∨ (w ∈ g.loose ∧ md.projectRef = none ∧ s.queue.at p ≠ [] ∧ projectWithinFunctionCap c s p (some w) = true)) :
      Move c m (s, g) (s.assignTo w p md, { g with credit := none })
  | create (s : Pool) (g : Ghost) (hv : g.vacant = true ∨ s.activeWorkers.length < c.maxConcurrentExecutions)
      (ht : g.transit = none) :
      Move c m (s, g) ({ s.createWorker.1 with activeWorkers := setAdd s.activeWorkers s.nextWorker },
        { g with loose := s.nextWorker :: g.loose, vacant := false })
  | drop (s : Pool) (g : Ghost) (w : Worker) (tracked : Bool) (hw : w ∈ s.activeWorkers) (hu : Unowned s g w) (hv : g.vacant = false)
      (hc : g.credit = none) (hun : w ∉ g.unchecked) :
      Move c m (s, g) (s.leaveWorker w tracked, { g with
          loose := g.loose.filter (· ≠ w)
          vacant := true
          credit := if w ∈ s.idle then none else s.workerProjectRef w
          calm := false })
  | shrink (s : Pool) (g : Ghost) (w : Worker) (hw : w ∈ s.activeWorkers) (hu : Unowned s g w) (hun : w ∉ g.unchecked)
      (hs : c.size < s.activeWorkers.length) (hq : ∀ p, s.queue.at p = []) :
      Move c m (s, g) (s.leaveWorker w true, { g with loose := g.loose.filter (· ≠ w), credit := none, calm := false })
  | dropParked (s : Pool) (g : Ghost) (w : Worker) (tracked : Bool) (hw : w ∈ s.parkedWorkers) :
      Move c m (s, g) (s.leaveWorker w tracked, g)
  | abandon (s : Pool) (g : Ghost) (hd : s.draining = true) :
      Move c m (s, g) (s, { g with vacant := false, credit := none })
  | untrack (s : Pool) (g : Ghost) (w : Worker) (ht : m.placed = true → s.tainted w = false) :
      Move c m (s, g) ({ s with retiredWorkers := setDelete s.retiredWorkers w }, g)
  | scrub (s : Pool) (g : Ghost) (w : Worker) (hm : s.metadata w = none) : Move c m (s, g) (s.removeWorkerReferences w, g)
  | park (s : Pool) (g : Ghost) (w : Worker) (hw : w ∈ g.loose) (hv : g.vacant = false) (hc : g.credit = none)
      (hq : s.draining = true ∨ s.admissionBlocked = true ∨ (g.calm = true ∧ g.loose = [w]) ∨
        ∃ p, s.queue.at p ≠ [] ∧ s.workerProjectRef w ≠ some p ∧ projectWithinFunctionCap c s p (some w) = true) :
      Move c m (s, g) ({ s with
          activeWorkers := setDelete s.activeWorkers w
          idle := setDelete s.idle w
          parkedWorkers := setAdd s.parkedWorkers w },
        { g with loose := g.loose.filter (· ≠ w), vacant := true, overflow := true })
  | unpark (s : Pool) (g : Ghost) (w : Worker) (hw : w ∈ s.parkedWorkers) (ht : g.transit = none)
      (hg : (s.metadata w).map (·.generation) = some s.workerGeneration) (hn : s.tainted w = false) :
      Move c m (s, g) ({ s with parkedWorkers := setDelete s.parkedWorkers w }, { g with transit := some w })
  | activate (s : Pool) (g : Ghost) (w : Worker) (ht : g.transit = some w) (hv : g.vacant = true) :
      Move c m (s, g) ({ s with activeWorkers := setAdd s.activeWorkers w },
        { g with transit := none, loose := w :: g.loose, vacant := false })
  | trim (s : Pool) (g : Ghost) (ho : s.parkedWorkers.length ≤ c.maxExtraProjectWorkers) :
      Move c m (s, g) (s, { g with overflow := false })
  | startQueued (s : Pool) (g : Ghost) (w : Worker) (d : Dispatch) (q : MultiQueue ProjectRef Dispatch)
      (hw : w ∈ g.loose) (hq : s.queue.popFor d.projectRef = some (d, q)) (hd : s.draining = false)
      (hp : s.workerProjectRef w = some d.projectRef) (ht : s.tainted w = false)
      (hcap : projectWithinFunctionCap c s d.projectRef (some w) = true) (hc : g.credit = none) :
      Move c m (s, g) (({ s with queue := q }).beginExecution w d, { g with loose := g.loose.filter (· ≠ w), calm := false })
  | startFresh (s : Pool) (g : Ghost) (w : Worker) (d : Dispatch) (md : Metadata) (hw : g.loose = [w])
      (hk : g.fresh = some d.key) (hd : s.draining = false) (hb : s.admissionBlocked = false) (hcalm : g.calm = true)
      (hm : s.metadata w = some md) (ha : md.projectRef = none ∨ md.projectRef = some d.projectRef)
      (ht : s.tainted w = false) (hcap : projectWithinFunctionCap c s d.projectRef (some w) = true)
      (hc : g.credit = none) :
      Move c m (s, g) (((s.record (.admitted d.key d.projectRef)).assignTo w d.projectRef md).beginExecution w d,
        { g with loose := [], fresh := none, calm := false })
  | finish (s : Pool) (g : Ghost) (e : Execution) (he : e ∈ s.inFlight) :
      Move c m (s, g) (s.cleanup e, { g with
        loose := if e.worker ∈ s.activeWorkers then e.worker :: g.loose else g.loose
        pending := if e.resolved then g.pending else e.key :: g.pending
        calm := false })
  | update (s : Pool) (g : Ghost) (e e' : Execution) (he : e ∈ s.inFlight) (hd : e'.dispatch = e.dispatch)
      (hw : e'.worker = e.worker) (hr : e'.resolved = e.resolved) (hok : e'.Ok) :
      Move c m (s, g) (s.updateExecution e', g)
  | resolve (s : Pool) (g : Ghost) (e e' : Execution) (r : Response) (he : e ∈ s.inFlight) (hd : e'.dispatch = e.dispatch)
      (hw : e'.worker = e.worker) (hu : e.resolved = false) (hr : e'.resolved = true) (hok : e'.Ok) :
      Move c m (s, g) ((s.settle e.key r).updateExecution e', g)
  | taint (s : Pool) (g : Ghost) (t : Worker → Bool) (ht : ∀ w, s.tainted w = true → t w = true)
      (hlt : ∀ w, t w = true → w < s.nextWorker)
      (hp : m.placed = true → ∀ w, t w = true → s.tainted w = true ∨ Placed s w) :
      Move c m (s, g) ({ s with tainted := t }, g)
  | rotateBegin (s : Pool) (g : Ghost) (ws : List Worker) (hr : g.rotating = []) (hl : g.loose = []) (ht : g.transit = none)
      (hws : ∀ w md, s.metadata w = some md → w ∈ ws) (hlt : ∀ w ∈ ws, w < s.nextWorker) :
      Move c m (s, g) ({ s with workerGeneration := s.workerGeneration + 1 }, { g with rotating := ws })
  | rotateNext (s : Pool) (g : Ghost) (w : Worker) (rest : List Worker) (hr : g.rotating = w :: rest)
      (hw : s.tainted w = true ∨ s.metadata w = none) : Move c m (s, g) (s, { g with rotating := rest })
  | rotateEnd (s : Pool) (g : Ghost) (hr : g.rotating = []) : Move c m (s, g) (s.record (.rotated s.workerGeneration), g)
  | preheatStart (s : Pool) (g : Ghost) (j : PreheatJob) (hid : j.id = s.nextPreheat) (hp : j.phase = .preparing)
      (hproj : s.workerProjectRef j.worker = some j.projectRef)
      (hw : (j.owner = .single ∧ j.worker ∈ g.loose) ∨
        (j.owner = .bulk ∧ j.worker ∈ reserved s.bulk ∧ ∀ b, s.bulk = some b → b.phase = .running)) :
      Move c m (s, g) (({ s with preheats := s.preheats ++ [j], nextPreheat := s.nextPreheat + 1 }).record
          (.preheatStarted j.worker j.projectRef),
        { g with loose := if j.owner = .single then g.loose.filter (· ≠ j.worker) else g.loose, calm := false })
  | jobs (s : Pool) (g : Ghost) (js : List PreheatJob)
      (hheld : held js = held s.preheats)
      (hsub : ∀ j ∈ js, ∃ j' ∈ s.preheats, j'.id = j.id ∧ j'.worker = j.worker ∧
        (j'.owner = j.owner ∨ (m.tidy = false ∧ j.owner = .orphan)))
      (hids : (js.map (·.id)).Sublist (s.preheats.map (·.id))) :
      Move c m (s, g) ({ s with preheats := js }, g)
  | endJob (s : Pool) (g : Ghost) (j : PreheatJob) (hj : j ∈ s.preheats) (ho : j.owner = .single) :
      Move c m (s, g) ({ s with preheats := s.preheats.filter fun x => x.id ≠ j.id }, { g with
        loose := if s.draining = false ∧ j.worker ∈ s.activeWorkers then j.worker :: g.loose else g.loose
        calm := false })
  | setHandler (s : Pool) (g : Ghost) (j : PreheatJob) (hj : j ∈ s.preheats) (hm : s.metadata j.worker ≠ none) :
      Move c m (s, g) ({ s with handlers := Function.update s.handlers j.worker (some (.preheat j.id)) }, g)
  | clearHandler (s : Pool) (g : Ghost) (w : Worker) (id : Nat) (hh : s.handlers w = some (.preheat id)) :
      Move c m (s, g) ({ s with handlers := Function.update s.handlers w none }, g)
  | succeed (s : Pool) (g : Ghost) (w : Worker) (ht : s.tainted w = false) (hm : s.metadata w ≠ none)
      (hr : g.rotating = []) : Move c m (s, g) (s.record (.preheatSucceeded w), g)
  | bulkTake (s : Pool) (g : Ghost) (b : Bulk) (hs : reserved s.bulk = []) (hw : b.workers.Perm g.loose)
      (hj : ∀ j ∈ s.preheats, j.owner ≠ .bulk) (hp : b.phase = .running)
      (ha : ∀ w ∈ b.workers, s.workerAcceptsProject w b.request.projectRef = true) :
      Move c m (s, g) ({ s with bulk := some b }, { g with loose := [], calm := false })
  | bulkUpdate (s : Pool) (g : Ghost) (b : Option Bulk) (hb : reserved b = reserved s.bulk)
      (hj : ∀ x, b = some x → x.phase = .rejected → ∀ j ∈ s.preheats, j.owner ≠ .bulk)
      (ha : ∀ x, b = some x → ∀ w ∈ reserved b, s.workerAcceptsProject w x.request.projectRef = true) :
      Move c m (s, g) ({ s with bulk := b }, g)
  | bulkRelease (s : Pool) (g : Ghost) (b : Option Bulk) (hb : reserved b = [])
      (hj : ∀ j ∈ s.preheats, j.owner ≠ .bulk) (hl : g.loose = []) :
      Move c m (s, g) ({ s with bulk := b }, { g with
        loose := if s.draining then [] else (reserved s.bulk).filter (· ∈ s.activeWorkers)
        calm := false })
  | threw (s : Pool) (g : Ghost) (w : Worker) (hw : w ∈ reserved s.bulk) (hm : s.metadata w = none)
      (ht : m.tidy = false) : Move c m (s, g) (s.record (.threw w .missingMetadata), g)
  | invalidated (s : Pool) (g : Ghost) (p : ProjectRef) (hq : s.queue.at p = []) (hl : g.loose = []) (ht : g.transit = none)
      (hw : ∀ w, s.workerProjectRef w = some p → s.tainted w = true) : Move c m (s, g) (s.record (.invalidated p), g)

abbrev Moves (c : Config) (m : Mode) : Stage → Stage → Prop := Relation.ReflTransGen (Move c m)

/-! ## 不変条件の部品 -/

/-! ## 集合の操作 -/

@[simp] theorem mem_setDelete {l w x} : x ∈ setDelete l w ↔ x ∈ l ∧ x ≠ w := by
  simp [setDelete]

@[simp] theorem mem_setAdd {l w x} : x ∈ setAdd l w ↔ x ∈ l ∨ x = w := by
  unfold setAdd
  split
  · rename_i h
    constructor
    · exact Or.inl
    · rintro (hx | rfl)
      · exact hx
      · exact h
  · simp

theorem setDelete_of_not_mem {l w} (h : w ∉ l) : setDelete l w = l := by
  refine filter_eq_self.mpr fun x hx => ?_
  have : x ≠ w := fun he => h (he ▸ hx)
  simpa using this

theorem setAdd_of_not_mem {l w} (h : w ∉ l) : setAdd l w = l ++ [w] := if_neg h

theorem nodup_setDelete {l w} (h : l.Nodup) : (setDelete l w).Nodup := h.filter _

theorem nodup_setAdd {l w} (h : l.Nodup) : (setAdd l w).Nodup := by
  unfold setAdd
  split
  · exact h
  · grind

theorem length_setDelete {l w} (hn : l.Nodup) (hw : w ∈ l) : (setDelete l w).length + 1 = l.length := by
  induction l with
  | nil => simp at hw
  | cons a l ih =>
    rw [nodup_cons] at hn
    by_cases ha : a = w
    · grind [setDelete, setDelete_of_not_mem]
    · grind [setDelete]

theorem length_setDelete_le {l w} : (setDelete l w).length ≤ l.length := length_filter_le _ _

@[simp] theorem count_setDelete {l w x} : (setDelete l w).count x = if x = w then 0 else l.count x := by
  unfold setDelete
  split
  · rename_i h
    subst h
    exact count_eq_zero.mpr (by simp)
  · rename_i h
    exact count_filter (by simpa using h)

@[simp] theorem count_filter_ne {l : List Worker} {w x} : (l.filter (· ≠ w)).count x = if x = w then 0 else l.count x := count_setDelete

theorem settleAll_eq (s : Pool) (ds r) :
    s.settleAll ds r = { s with log := (ds.map fun d => LogEvent.settled d.key r).reverse ++ s.log } := by
  unfold settleAll
  induction ds generalizing s with
  | nil => rfl
  | cons d ds ih =>
    rw [foldl_cons, ih]
    simp [settle, record]

/-! ## 場所 -/

structure Places (idle active parked retired : List Worker) (metadata : Worker → Option Metadata) (nextWorker : Nat)
    (loose unchecked : List Worker) (transit : Option Worker) : Prop where
  active_nodup : active.Nodup
  parked_nodup : parked.Nodup
  idle_active : ∀ w ∈ idle, w ∈ active
  loose_active : ∀ w ∈ loose, w ∈ active
  unchecked_idle : ∀ w ∈ unchecked, w ∈ idle
  known : ∀ w, metadata w ≠ none ↔ w ∈ active ∨ w ∈ parked ∨ transit = some w
  parked_active : ∀ w ∈ parked, w ∉ active
  transit_out : ∀ w, transit = some w → w ∉ active ∧ w ∉ parked
  known_lt : ∀ w, metadata w ≠ none → w < nextWorker
  retired_gone : ∀ w ∈ retired, metadata w = none
  retired_lt : ∀ w ∈ retired, w < nextWorker

def owners (idle : List Worker) (inFlight : List Execution) (preheats : List PreheatJob) (bulk : Option Bulk)
    (loose : List Worker) (w : Worker) : Nat :=
  idle.count w + (inFlight.map (·.worker)).count w + (held preheats).count w + (reserved bulk).count w + loose.count w

structure Owned (n : Worker → Nat) (inFlight : List Execution) (active : List Worker) (metadata : Worker → Option Metadata)
    (nextWorker : Nat) (draining : Bool) : Prop where
  le_one : ∀ w, metadata w ≠ none → n w ≤ 1
  outside : ∀ w, metadata w ≠ none → w ∉ active → n w = 0
  pos : ∀ w ∈ active, draining = false → 0 < n w
  lt : ∀ w, n w ≠ 0 → w < nextWorker
  workers_nodup : (inFlight.map (·.worker)).Nodup

def liveKeys (queue : MultiQueue ProjectRef Dispatch) (inFlight : List Execution) (pending : List Nat) : List Nat :=
  queue.all.map (·.key) ++ inFlight.map Execution.key ++ pending

structure Keys (queue : MultiQueue ProjectRef Dispatch) (inFlight : List Execution) (nextKey : Nat) (pending : List Nat)
    (fresh : Option Nat) : Prop where
  nodup : (liveKeys queue inFlight pending).Nodup
  lt : ∀ k ∈ liveKeys queue inFlight pending, k < nextKey
  fresh_lt : ∀ k, fresh = some k → k < nextKey
  fresh_new : ∀ k, fresh = some k → k ∉ liveKeys queue inFlight pending
  ok : ∀ e ∈ inFlight, e.Ok
  refs : ∀ p, ∀ d ∈ queue.at p, d.projectRef = p

structure Jobs (preheats : List PreheatJob) (nextPreheat : Nat) (bulk : Option Bulk) (waiting : List BulkRequest) : Prop where
  ids_nodup : (preheats.map (·.id)).Nodup
  ids_lt : ∀ j ∈ preheats, j.id < nextPreheat
  reserved_worker : ∀ j ∈ preheats, j.owner = .bulk → j.worker ∈ reserved bulk
  rejected : ∀ b, bulk = some b → b.phase = .rejected → ∀ j ∈ preheats, j.owner ≠ .bulk
  members : ∀ r ∈ waiting, r.members ≠ []

structure Hands (handlers : Worker → Option Handler) (metadata : Worker → Option Metadata) (inFlight : List Execution)
    (preheats : List PreheatJob) (nextPreheat : Nat) : Prop where
  gone : ∀ w, metadata w = none → handlers w = none
  execution : ∀ w k, handlers w = some (.execution k) → ∃ e ∈ inFlight, e.key = k ∧ e.worker = w
  preheat_lt : ∀ w id, handlers w = some (.preheat id) → id < nextPreheat
  preheat : ∀ w id, handlers w = some (.preheat id) → ∀ j ∈ preheats, j.id = id → j.worker = w

structure Bounds (c : Config) (active parked : List Worker) (draining vacant overflow : Bool) : Prop where
  upper : active.length + vacant.toNat ≤ c.maxConcurrentExecutions
  lower : draining = false → c.size ≤ active.length + vacant.toNat
  parked : overflow = false → parked.length ≤ c.maxExtraProjectWorkers

/-! ## 場所の動き -/

section Places

variable {idle active parked retired loose unchecked : List Worker} {metadata metadata' : Worker → Option Metadata}
  {nextWorker : Nat} {transit : Option Worker} {w : Worker}

namespace Places

variable (h : Places idle active parked retired metadata nextWorker loose unchecked transit)

include h

theorem active_known (hw : w ∈ active) : metadata w ≠ none := (h.known w).mpr (.inl hw)

theorem parked_known (hw : w ∈ parked) : metadata w ≠ none := (h.known w).mpr (.inr (.inl hw))

theorem withMetadata (hm : ∀ x, metadata' x = none ↔ metadata x = none) :
    Places idle active parked retired metadata' nextWorker loose unchecked transit :=
  { h with
    known := fun x => by rw [Ne, hm]; exact h.known x
    known_lt := fun x hx => h.known_lt x (by rwa [Ne, hm] at hx)
    retired_gone := fun x hx => (hm x).mpr (h.retired_gone x hx) }

theorem takeIdle (hw : w ∈ idle) :
    Places (setDelete idle w) active parked retired metadata nextWorker (w :: loose) (unchecked.filter (· ≠ w)) transit where
  __ := h
  idle_active x hx := h.idle_active x (mem_setDelete.mp hx).1
  loose_active := by
    intro x hx
    rcases mem_cons.mp hx with rfl | hx
    · exact h.idle_active x hw
    · exact h.loose_active x hx
  unchecked_idle := by
    intro x hx
    simp only [mem_filter, decide_eq_true_eq] at hx
    exact mem_setDelete.mpr ⟨h.unchecked_idle x hx.1, hx.2⟩

theorem putIdle (hw : w ∈ loose) :
    Places (idle ++ [w]) active parked retired metadata nextWorker (loose.filter (· ≠ w)) unchecked transit where
  __ := h
  idle_active := by
    intro x hx
    rcases mem_append.mp hx with hx | hx
    · exact h.idle_active x hx
    · rw [mem_singleton] at hx
      exact h.loose_active x (hx ▸ hw)
  loose_active x hx := h.loose_active x (mem_of_mem_filter hx)
  unchecked_idle x hx := mem_append_left _ (h.unchecked_idle x hx)

theorem remove (hw : w ∈ active ∨ w ∈ parked) (hun : w ∉ unchecked) {loose'} (hl : ∀ x ∈ loose', x ∈ loose ∧ x ≠ w) :
    Places (setDelete idle w) (setDelete active w) (setDelete parked w) retired (update metadata w none) nextWorker
      loose' unchecked transit where
  active_nodup := nodup_setDelete h.active_nodup
  parked_nodup := nodup_setDelete h.parked_nodup
  idle_active x hx := by
    rw [mem_setDelete] at hx ⊢
    exact ⟨h.idle_active x hx.1, hx.2⟩
  loose_active x hx := mem_setDelete.mpr ⟨h.loose_active x (hl x hx).1, (hl x hx).2⟩
  unchecked_idle x hx := mem_setDelete.mpr ⟨h.unchecked_idle x hx, fun he => hun (he ▸ hx)⟩
  known x := by
    by_cases hx : x = w
    · subst hx
      have ht : transit ≠ some x := by
        intro ht
        obtain ⟨ha, hp⟩ := h.transit_out x ht
        exact hw.elim ha hp
      simp [ht]
    · simp [hx, h.known x]
  parked_active x hx := by
    rw [mem_setDelete] at hx ⊢
    exact fun ha => h.parked_active x hx.1 ha.1
  transit_out x hx := by
    obtain ⟨ha, hp⟩ := h.transit_out x hx
    simp [ha, hp]
  known_lt x hx := by
    by_cases he : x = w
    · simp [he] at hx
    · exact h.known_lt x (by simpa [he] using hx)
  retired_gone x hx := by
    by_cases he : x = w
    · simp [he]
    · simpa [he] using h.retired_gone x hx
  retired_lt := h.retired_lt

theorem create {g} (ht : transit = none) :
    Places idle (setAdd active nextWorker) parked retired (update metadata nextWorker (some { generation := g }))
      (nextWorker + 1) (nextWorker :: loose) unchecked transit where
  active_nodup := nodup_setAdd h.active_nodup
  parked_nodup := h.parked_nodup
  idle_active x hx := mem_setAdd.mpr (.inl (h.idle_active x hx))
  loose_active x hx := by
    rw [mem_setAdd]
    rcases mem_cons.mp hx with hx | hx
    · exact .inr hx
    · exact .inl (h.loose_active x hx)
  unchecked_idle := h.unchecked_idle
  known x := by
    by_cases hx : x = nextWorker
    · simp [hx]
    · simp [hx, h.known x]
  parked_active x hx := by
    have hlt := h.known_lt x (h.parked_known hx)
    rw [mem_setAdd]
    rintro (ha | ha)
    · exact h.parked_active x hx ha
    · exact Nat.ne_of_lt hlt ha
  transit_out x hx := by simp [ht] at hx
  known_lt x hx := by
    by_cases he : x = nextWorker
    · exact Nat.lt_succ_of_le (Nat.le_of_eq he)
    · exact Nat.lt_succ_of_lt (h.known_lt x (by simpa [he] using hx))
  retired_gone x hx := by
    rw [update_of_ne (Nat.ne_of_lt (h.retired_lt x hx))]
    exact h.retired_gone x hx
  retired_lt x hx := Nat.lt_succ_of_lt (h.retired_lt x hx)

theorem track (hw : w < nextWorker) (hm : metadata w = none) :
    Places idle active parked (setAdd retired w) metadata nextWorker loose unchecked transit where
  __ := h
  retired_gone x hx := by
    rcases mem_setAdd.mp hx with hx | rfl
    · exact h.retired_gone x hx
    · exact hm
  retired_lt x hx := by
    rcases mem_setAdd.mp hx with hx | rfl
    · exact h.retired_lt x hx
    · exact hw

theorem untrack : Places idle active parked (setDelete retired w) metadata nextWorker loose unchecked transit where
  __ := h
  retired_gone x hx := h.retired_gone x (mem_setDelete.mp hx).1
  retired_lt x hx := h.retired_lt x (mem_setDelete.mp hx).1

theorem scrub (hm : metadata w = none) :
    Places (setDelete idle w) active (setDelete parked w) retired (update metadata w none) nextWorker loose
      unchecked transit := by
  have hi : w ∉ idle := fun hi => h.active_known (h.idle_active w hi) hm
  have hp : w ∉ parked := fun hp => h.parked_known hp hm
  rw [setDelete_of_not_mem hi, setDelete_of_not_mem hp, ← hm, update_eq_self]
  exact h

theorem park (hw : w ∈ active) (hi : w ∉ idle) :
    Places (setDelete idle w) (setDelete active w) (setAdd parked w) retired metadata nextWorker (loose.filter (· ≠ w))
      unchecked transit where
  active_nodup := nodup_setDelete h.active_nodup
  parked_nodup := nodup_setAdd h.parked_nodup
  idle_active x hx := by
    rw [mem_setDelete] at hx ⊢
    exact ⟨h.idle_active x hx.1, hx.2⟩
  loose_active x hx := by
    simp only [mem_filter, decide_eq_true_eq] at hx
    exact mem_setDelete.mpr ⟨h.loose_active x hx.1, hx.2⟩
  unchecked_idle x hx := by
    have := h.unchecked_idle x hx
    exact mem_setDelete.mpr ⟨this, fun he => hi (he ▸ this)⟩
  known x := by
    by_cases hx : x = w
    · subst hx
      simp [h.active_known hw]
    · simp [hx, h.known x]
  parked_active x hx := by
    rw [mem_setDelete]
    rcases mem_setAdd.mp hx with hx | rfl
    · exact fun ha => h.parked_active x hx ha.1
    · exact fun ha => ha.2 rfl
  transit_out x hx := by
    obtain ⟨ha, hp⟩ := h.transit_out x hx
    have : x ≠ w := fun he => ha (he ▸ hw)
    simp [ha, hp, this]
  known_lt := h.known_lt
  retired_gone := h.retired_gone
  retired_lt := h.retired_lt

theorem unpark (hw : w ∈ parked) (ht : transit = none) :
    Places idle active (setDelete parked w) retired metadata nextWorker loose unchecked (some w) where
  __ := h
  parked_nodup := nodup_setDelete h.parked_nodup
  known x := by
    by_cases hx : x = w
    · subst hx
      simp [h.parked_known hw]
    · simp [hx, h.known x, ht, Ne.symm hx]
  parked_active x hx := h.parked_active x (mem_setDelete.mp hx).1
  transit_out x hx := by
    cases hx
    simp [h.parked_active w hw]

theorem activate (ht : transit = some w) :
    Places idle (setAdd active w) parked retired metadata nextWorker (w :: loose) unchecked none where
  __ := h
  active_nodup := nodup_setAdd h.active_nodup
  idle_active x hx := mem_setAdd.mpr (.inl (h.idle_active x hx))
  loose_active x hx := by
    rw [mem_setAdd]
    rcases mem_cons.mp hx with hx | hx
    · exact .inr hx
    · exact .inl (h.loose_active x hx)
  known x := by
    by_cases hx : x = w
    · subst hx
      simp [h.known x, ht]
    · simp [hx, h.known x, ht, Ne.symm hx]
  parked_active x hx := by
    rw [mem_setAdd]
    rintro (ha | rfl)
    · exact h.parked_active x hx ha
    · exact (h.transit_out x ht).2 hx
  transit_out x hx := by cases hx

end Places

end Places

/-! ## 持ち主の動き -/

theorem perm_cons_filter {α : Type} {f : α → Nat} {l : List α} {a} (hn : (l.map f).Nodup) (ha : a ∈ l) :
    l.Perm (a :: l.filter fun x => f x ≠ f a) := by
  induction l with
  | nil => simp at ha
  | cons b l ih =>
    rw [map_cons, nodup_cons] at hn
    by_cases hb : f b = f a
    · have hab : a = b := by
        rcases mem_cons.mp ha with h | h
        · exact h
        · exact absurd (hb ▸ mem_map_of_mem h) hn.1
      subst hab
      have hl : l.filter (fun x => f x ≠ f a) = l := by
        refine filter_eq_self.mpr fun x hx => ?_
        have : f x ≠ f a := fun he => hn.1 (he ▸ mem_map_of_mem hx)
        simpa using this
      rw [filter_cons_of_neg (by simp), hl]
    · have hal : a ∈ l := by
        rcases mem_cons.mp ha with h | h
        · exact absurd (h ▸ rfl) hb
        · exact h
      rw [filter_cons_of_pos (by simpa using hb)]
      exact ((ih hn.2 hal).cons b).trans (.swap a b _)

section Owned

variable {n n' : Worker → Nat} {inFlight : List Execution} {active : List Worker} {metadata metadata' : Worker → Option Metadata}
  {nextWorker : Nat} {draining : Bool} {w : Worker}

namespace Owned

variable (h : Owned n inFlight active metadata nextWorker draining)

include h

theorem withOwners (hn : ∀ x, n' x = n x) : Owned n' inFlight active metadata nextWorker draining := by
  rw [funext hn]
  exact h

theorem withMetadata (hm : ∀ x, metadata' x = none ↔ metadata x = none) : Owned n inFlight active metadata' nextWorker draining :=
  { h with
    le_one := fun x hx => h.le_one x (by rwa [Ne, hm] at hx)
    outside := fun x hx => h.outside x (by rwa [Ne, hm] at hx) }

theorem release (hn : ∀ x, x ≠ w → n' x = n x) (hw : n' w ≤ n w) (hd : w ∈ active → draining = true) :
    Owned n' inFlight active metadata nextWorker draining where
  __ := h
  le_one x hx := by
    by_cases he : x = w
    · rw [he] at hx ⊢
      exact hw.trans (h.le_one w hx)
    · exact hn x he ▸ h.le_one x hx
  outside x hx ha := by
    by_cases he : x = w
    · rw [he] at hx ha ⊢
      exact Nat.le_zero.mp (hw.trans (Nat.le_of_eq (h.outside w hx ha)))
    · exact hn x he ▸ h.outside x hx ha
  pos x hx hdr := by
    by_cases he : x = w
    · rw [he] at hx
      rw [hd hx] at hdr
      cases hdr
    · exact hn x he ▸ h.pos x hx hdr
  lt x hx := by
    by_cases he : x = w
    · rw [he] at hx ⊢
      exact h.lt w (fun h0 => hx (Nat.le_zero.mp (h0 ▸ hw)))
    · exact h.lt x (hn x he ▸ hx)

theorem remove (hn : ∀ x, x ≠ w → n' x = n x) (hw : w < nextWorker) :
    Owned n' inFlight (setDelete active w) (update metadata w none) nextWorker draining where
  le_one x hx := by
    by_cases he : x = w
    · simp [he] at hx
    · exact hn x he ▸ h.le_one x (by simpa [he] using hx)
  outside x hx ha := by
    by_cases he : x = w
    · simp [he] at hx
    · exact hn x he ▸ h.outside x (by simpa [he] using hx) (by simpa [he] using ha)
  pos x hx hdr := by
    rw [mem_setDelete] at hx
    exact hn x hx.2 ▸ h.pos x hx.1 hdr
  lt x hx := by
    by_cases he : x = w
    · exact he ▸ hw
    · exact h.lt x (hn x he ▸ hx)
  workers_nodup := h.workers_nodup

theorem create {md} (hn : ∀ x, x ≠ nextWorker → n' x = n x) (hw : n' nextWorker = n nextWorker + 1) :
    Owned n' inFlight (setAdd active nextWorker) (update metadata nextWorker (some md)) (nextWorker + 1) draining := by
  have h0 : n nextWorker = 0 := by
    by_contra hc
    exact Nat.lt_irrefl _ (h.lt nextWorker hc)
  exact {
    le_one := fun x hx => by
      by_cases he : x = nextWorker
      · rw [he, hw, h0]
      · exact hn x he ▸ h.le_one x (by simpa [he] using hx)
    outside := fun x hx ha => by
      rw [mem_setAdd, not_or] at ha
      exact hn x ha.2 ▸ h.outside x (by simpa [ha.2] using hx) ha.1
    pos := fun x hx hdr => by
      by_cases he : x = nextWorker
      · rw [he, hw]
        exact Nat.succ_pos _
      · exact hn x he ▸ h.pos x ((mem_setAdd.mp hx).resolve_right he) hdr
    lt := fun x hx => by
      by_cases he : x = nextWorker
      · exact Nat.lt_succ_of_le (Nat.le_of_eq he)
      · exact Nat.lt_succ_of_lt (h.lt x (hn x he ▸ hx))
    workers_nodup := h.workers_nodup }

theorem park (hn : ∀ x, x ≠ w → n' x = n x) (hw : n' w = 0) : Owned n' inFlight (setDelete active w) metadata nextWorker draining where
  le_one x hx := by
    by_cases he : x = w
    · rw [he, hw]
      exact Nat.zero_le _
    · exact hn x he ▸ h.le_one x hx
  outside x hx ha := by
    by_cases he : x = w
    · rw [he, hw]
    · exact hn x he ▸ h.outside x hx (by simpa [he] using ha)
  pos x hx hdr := by
    rw [mem_setDelete] at hx
    exact hn x hx.2 ▸ h.pos x hx.1 hdr
  lt x hx := by
    by_cases he : x = w
    · exact absurd (he ▸ hw) hx
    · exact h.lt x (hn x he ▸ hx)
  workers_nodup := h.workers_nodup

theorem activate (hn : ∀ x, x ≠ w → n' x = n x) (hw : n' w = n w + 1) (hk : metadata w ≠ none) (ha : w ∉ active)
    (hlt : w < nextWorker) : Owned n' inFlight (setAdd active w) metadata nextWorker draining where
  le_one x hx := by
    by_cases he : x = w
    · rw [he, hw, h.outside w hk ha]
    · exact hn x he ▸ h.le_one x hx
  outside x hx hxa := by
    rw [mem_setAdd, not_or] at hxa
    exact hn x hxa.2 ▸ h.outside x hx hxa.1
  pos x hx hdr := by
    by_cases he : x = w
    · rw [he, hw]
      exact Nat.succ_pos _
    · exact hn x he ▸ h.pos x ((mem_setAdd.mp hx).resolve_right he) hdr
  lt x hx := by
    by_cases he : x = w
    · exact he ▸ hlt
    · exact h.lt x (hn x he ▸ hx)
  workers_nodup := h.workers_nodup

end Owned

end Owned

/-! ## 要求の動き -/

section Keys

variable {queue queue' : MultiQueue ProjectRef Dispatch} {inFlight inFlight' : List Execution} {nextKey : Nat}
  {pending pending' : List Nat} {fresh : Option Nat}

namespace Keys

variable (h : Keys queue inFlight nextKey pending fresh)

include h

theorem fewer (extra) (hp : (liveKeys queue inFlight pending).Perm (extra ++ liveKeys queue' inFlight' pending'))
    (hok : ∀ e ∈ inFlight', e.Ok) (hre : ∀ p, ∀ d ∈ queue'.at p, d.projectRef = p) : Keys queue' inFlight' nextKey pending' fresh where
  nodup := (nodup_append.mp (hp.nodup h.nodup)).2.1
  lt k hk := h.lt k (hp.mem_iff.mpr (mem_append_right _ hk))
  fresh_lt := h.fresh_lt
  fresh_new k hf hk := h.fresh_new k hf (hp.mem_iff.mpr (mem_append_right _ hk))
  ok := hok
  refs := hre

theorem more {k} (hk : fresh = some k) (hp : (liveKeys queue' inFlight' pending').Perm (k :: liveKeys queue inFlight pending))
    (hok : ∀ e ∈ inFlight', e.Ok) (hre : ∀ p, ∀ d ∈ queue'.at p, d.projectRef = p) : Keys queue' inFlight' nextKey pending' none where
  nodup := hp.symm.nodup (nodup_cons.mpr ⟨h.fresh_new k hk, h.nodup⟩)
  lt x hx := by
    rcases mem_cons.mp (hp.mem_iff.mp hx) with rfl | hx
    · exact h.fresh_lt x hk
    · exact h.lt x hx
  fresh_lt x hx := by cases hx
  fresh_new x hx := by cases hx
  ok := hok
  refs := hre

theorem noFresh : Keys queue inFlight nextKey pending none :=
  { h with
    fresh_lt := fun x hx => by cases hx
    fresh_new := fun x hx => by cases hx }

theorem newKey : Keys queue inFlight (nextKey + 1) pending (some nextKey) :=
  { h with
    lt := fun k hk => Nat.lt_succ_of_lt (h.lt k hk)
    fresh_lt := fun k hk => by cases hk; exact Nat.lt_succ_self _
    fresh_new := fun k hk hm => by cases hk; exact Nat.lt_irrefl _ (h.lt _ hm) }

theorem inFlight_nodup : (inFlight.map key).Nodup := by
  have := h.nodup
  unfold liveKeys at this
  rw [append_assoc, nodup_append] at this
  exact (nodup_append.mp this.2.1).1

theorem settled {k} (hk : k ∈ pending) : Keys queue inFlight nextKey (pending.erase k) fresh := by
  refine h.fewer [k] ?_ h.ok h.refs
  rw [perm_iff_count]
  intro x
  have := (perm_cons_erase hk).count_eq x
  simp only [liveKeys, count_append, count_cons, count_nil] at this ⊢
  omega

end Keys

end Keys

section Update

variable {l : List Execution} {e e' : Execution}

theorem updated_key : (l.map fun x => if x.key = e'.key then e' else x).map key = l.map key := by
  rw [map_map]
  refine map_congr_left fun x _ => ?_
  by_cases hx : x.key = e'.key
  · simp [hx]
  · simp [hx]

theorem updated_worker (hn : (l.map key).Nodup) (he : e ∈ l) (hd : e'.dispatch = e.dispatch) (hw : e'.worker = e.worker) :
    (l.map fun x => if x.key = e'.key then e' else x).map (·.worker) = l.map (·.worker) := by
  rw [map_map]
  refine map_congr_left fun x hx => ?_
  by_cases hk : x.key = e'.key
  · have hxe : x = e := inj_on_of_nodup_map hn hx he (hk.trans (congrArg Dispatch.key hd))
    subst hxe
    simp [hk, hw]
  · simp [hk]

theorem updated_ok (h : ∀ x ∈ l, x.Ok) (hok : e'.Ok) : ∀ x ∈ l.map fun x => if x.key = e'.key then e' else x, x.Ok := by
  intro x hx
  obtain ⟨y, hy, rfl⟩ := mem_map.mp hx
  split
  · exact hok
  · exact h y hy

end Update

/-! ## 通知の動き -/

section Hands

variable {handlers : Worker → Option Handler} {metadata metadata' : Worker → Option Metadata} {inFlight : List Execution}
  {preheats : List PreheatJob} {nextPreheat : Nat}

namespace Hands

variable (h : Hands handlers metadata inFlight preheats nextPreheat)

include h

theorem withMetadata (hm : ∀ x, metadata' x = none → metadata x = none) : Hands handlers metadata' inFlight preheats nextPreheat :=
  { h with gone := fun x hx => h.gone x (hm x hx) }

theorem remove {w} : Hands (update handlers w none) (update metadata w none) inFlight preheats nextPreheat := by
  have hne : ∀ {x a}, update handlers w none x = some a → handlers x = some a := by
    intro x a hx
    by_cases he : x = w
    · simp [he] at hx
    · simpa [he] using hx
  exact {
    gone := fun x hx => by
      by_cases he : x = w
      · simp [he]
      · simpa [he] using h.gone x (by simpa [he] using hx)
    execution := fun x k hx => h.execution x k (hne hx)
    preheat_lt := fun x id hx => h.preheat_lt x id (hne hx)
    preheat := fun x id hx => h.preheat x id (hne hx) }

theorem begin {e} (hw : metadata e.worker ≠ none) :
    Hands (update handlers e.worker (some (.execution e.key))) metadata (inFlight ++ [e]) preheats nextPreheat where
  gone x hx := by
    have he : x ≠ e.worker := fun he => hw (he ▸ hx)
    rw [update_of_ne he]
    exact h.gone x hx
  execution x k hx := by
    by_cases he : x = e.worker
    · rw [he, update_self] at hx
      cases hx
      exact ⟨e, by simp, rfl, he.symm⟩
    · grind [h.execution]
  preheat_lt x id hx := by
    by_cases he : x = e.worker
    · rw [he, update_self] at hx
      cases hx
    · exact h.preheat_lt x id (by rwa [update_of_ne he] at hx)
  preheat x id hx := by
    by_cases he : x = e.worker
    · rw [he, update_self] at hx
      cases hx
    · exact h.preheat x id (by rwa [update_of_ne he] at hx)

theorem finish {e} (he : e ∈ inFlight) (hn : (inFlight.map key).Nodup) :
    Hands (if handlers e.worker = some (.execution e.key) then update handlers e.worker none else handlers)
      metadata (inFlight.filter fun x => x.key ≠ e.key) preheats nextPreheat := by
  have hso : ∀ {x a}, (if handlers e.worker = some (.execution e.key) then update handlers e.worker none
      else handlers) x = some a → handlers x = some a ∧ a ≠ .execution e.key := by
    intro x a hx
    -- 鍵 e.key の通知の宛先は e.worker だけである。
    have hon : handlers x = some (.execution e.key) → x = e.worker := by
      intro hx
      obtain ⟨y, hy, hk, hw⟩ := h.execution x e.key hx
      have : y = e := inj_on_of_nodup_map hn hy he hk
      rw [← hw, this]
    split at hx
    · grind
    · rename_i hne
      refine ⟨hx, fun ha => hne ?_⟩
      have hxe := hon (ha ▸ hx)
      rw [← hxe, hx, ha]
  exact {
    gone := fun x hx => by
      have := h.gone x hx
      split
      · by_cases hxe : x = e.worker
        · simp [hxe]
        · rwa [update_of_ne hxe]
      · exact this
    execution := fun x k hx => by
      obtain ⟨hx, hne⟩ := hso hx
      obtain ⟨y, hy, hk, hw⟩ := h.execution x k hx
      refine ⟨y, mem_filter.mpr ⟨hy, ?_⟩, hk, hw⟩
      have : y.key ≠ e.key := fun h => hne (by rw [← hk, h])
      simpa using this
    preheat_lt := fun x id hx => h.preheat_lt x id (hso hx).1
    preheat := fun x id hx => h.preheat x id (hso hx).1 }

theorem update {e e'} (hn : (inFlight.map key).Nodup) (he : e ∈ inFlight)
    (hd : e'.dispatch = e.dispatch) (hw : e'.worker = e.worker) :
    Hands handlers metadata (inFlight.map fun x => if x.key = e'.key then e' else x) preheats nextPreheat where
  __ := h
  execution x k hx := by
    obtain ⟨y, hy, hk, hyw⟩ := h.execution x k hx
    refine ⟨_, mem_map_of_mem hy, ?_⟩
    split
    · rename_i hye
      have : y = e := inj_on_of_nodup_map hn hy he (hye.trans (congrArg Dispatch.key hd))
      exact ⟨hye ▸ hk, hw.trans (this ▸ hyw)⟩
    · exact ⟨hk, hyw⟩

theorem fewerJobs {js} (hsub : ∀ j ∈ js, ∃ j' ∈ preheats, j'.id = j.id ∧ j'.worker = j.worker) :
    Hands handlers metadata inFlight js nextPreheat where
  __ := h
  preheat x id hx j hj hid := by
    obtain ⟨j', hj', hid', hw⟩ := hsub j hj
    rw [← hw]
    exact h.preheat x id hx j' hj' (hid'.trans hid)

end Hands

end Hands

end Supacloud.EdgeRuntime
