import Supacloud.EdgeRuntime.Lemmas.Fences
import Supacloud.EdgeRuntime.Lemmas.Capacity
import Supacloud.EdgeRuntime.Lemmas.Queues

/-! # 溜まりの主な性質 -/

namespace Supacloud.EdgeRuntime

open Library Pool Pool

variable {c : Config}

def sampleConfig : Config where
  size := 2
  maxConcurrentExecutions := 2
  maxExtraProjectWorkers := 1
  parkedWorkerIdleMs := 60000
  maxRetiredWorkers := 8
  maxWorkerReplacementsBeforeRecycle := 100
  maxQueueSize := 16
  maxWorkerHeap := 1000
  maxModuleBytes := 1000
  maxModuleCount := 10
  tenantCapacity := fun p => if p = "p" then some (.fields 1 64 10 4 1000 1) else none
  size_le := by decide

abbrev sampleRun (events : List Event) : Pool := run sampleConfig (Pool.initial sampleConfig) events

/-- 受け付けた要求は、待つか、実行中か、応答済みかのどれか一つである。 -/
theorem requests_conserved {events : List Event} (hr : runAll reportsStatus c (Pool.initial c) events = true) {k : Nat}
    {p : ProjectRef} (hk : (k, p) ∈ admissions (run c (Pool.initial c) events).log) :
    (run c (Pool.initial c) events).Waiting k p ∨ (run c (Pool.initial c) events).Executing k p ∨
      (run c (Pool.initial c) events).Answered k :=
  fate (base_run events) (registers_run events) (conserves_run hr) hk

def streamingEvents : List Event :=
  [.dispatch "p" none none none, .execution 0 (.prepared .sent), .message 1 (.response 200 .port true)]

theorem requests_conserved_streaming : runAll reportsStatus sampleConfig (Pool.initial sampleConfig) streamingEvents = true ∧
      (0, "p") ∈ admissions (sampleRun streamingEvents).log ∧
      ((sampleRun streamingEvents).Waiting 0 "p" ∨ (sampleRun streamingEvents).Executing 0 "p" ∨
        (sampleRun streamingEvents).Answered 0) :=
  ⟨by decide, by decide, requests_conserved (by decide) (by decide)⟩

theorem streaming_settled_in_flight : runAll reportsStatus sampleConfig (Pool.initial sampleConfig) streamingEvents = true ∧
      (0, "p") ∈ admissions (sampleRun streamingEvents).log ∧
      0 ∈ (sampleRun streamingEvents).inFlight.map Execution.key ∧ 0 ∈ settledKeys (sampleRun streamingEvents).log := by
  decide

/-- 枠の数と停め置きの数は上限に収まる。枠の実行者の持ち主は高々一つで、空いていない実行者の持ち主はちょうど一つである。 -/
theorem slots_accounted (events : List Event) :
    let s := run c (initial c) events
    s.idle.Nodup ∧ s.idle ⊆ s.activeWorkers ∧ s.activeWorkers.Nodup ∧
      s.activeWorkers.Disjoint s.parkedWorkers ∧ s.activeWorkers.Disjoint s.retiredWorkers ∧
      s.parkedWorkers.Disjoint s.retiredWorkers ∧
      (runAll keepsReserved c (initial c) events = true → (∀ w ∈ s.activeWorkers, s.ownersOf w ≤ 1) ∧
        (s.draining = false → ∀ w ∈ s.activeWorkers, w ∉ s.idle → s.ownersOf w = 1)) ∧
      (s.draining = false → c.size ≤ s.activeWorkers.length) ∧
      s.activeWorkers.length ≤ c.maxConcurrentExecutions ∧
      s.parkedWorkers.length ≤ c.maxWorkers - c.maxConcurrentExecutions := by
  intro s
  have hb : Base c (s, {}) := base_run events
  refine ⟨hb.idle_nodup, hb.places.idle_active, hb.places.active_nodup, fun w ha hp => hb.places.parked_active w hp ha,
    fun w ha hr => hb.places.active_known ha (hb.places.retired_gone w hr),
    fun w hp hr => hb.places.parked_known hp (hb.places.retired_gone w hr), fun hr => ?_, fun hd => ?_, ?_, ?_⟩
  · have hadd : ∀ w, s.ownersOf w + s.idle.count w = owners s.idle s.inFlight s.preheats s.bulk [] w :=
      (seats_run hr).1.ownersOf_add
    have hone : ∀ w ∈ s.activeWorkers, s.ownersOf w + s.idle.count w ≤ 1 := fun w ha =>
      hadd w ▸ hb.owned.le_one w (hb.places.active_known ha)
    refine ⟨fun w ha => (Nat.le_add_right _ _).trans (hone w ha), fun hd w ha hi => ?_⟩
    have hpos : 0 < s.ownersOf w + s.idle.count w := hadd w ▸ hb.owned.pos w ha hd
    rw [List.count_eq_zero.mpr hi] at hpos
    exact Nat.le_antisymm ((Nat.le_add_right _ _).trans (hone w ha)) hpos
  · exact hb.lower hd
  · exact hb.upper
  · have hpa := hb.bounds.parked rfl
    unfold Config.maxWorkers
    dsimp only at hpa
    omega

def reservedEvents : List Event :=
  [.bulkPreheat { kind := .release, projectRef := "p", maxWorkers := 0, members := ["a", "b"] },
    .preheating 0 (.prepared true), .preheating 1 (.prepared true), .message 2 (.preheatDone "a" .accepted {}),
    .message 3 (.preheatDone "a" .accepted {}), .bulkSettled, .preheating 2 (.prepared true), .preheating 3 (.prepared true)]

theorem slots_accounted_reserved : (sampleRun reservedEvents).activeWorkers = [2, 3] ∧ (sampleRun reservedEvents).idle = [] ∧
      (sampleRun reservedEvents).ownersOf 2 = 1 ∧ (sampleRun reservedEvents).ownersOf 3 = 1 := by
  obtain ⟨-, -, -, -, -, -, howners, -⟩ := slots_accounted (c := sampleConfig) reservedEvents
  obtain ⟨-, hone⟩ := howners (by decide)
  exact ⟨by decide, by decide, hone (by decide) 2 (by decide) (by decide), hone (by decide) 3 (by decide) (by decide)⟩

/-- 取った実行者が去った後で次の関数に進むと、残りの実行者は予熱の途中で手放される。その実行者が要求を実行している間に予熱が
時間切れになると、実行者は引退し、実行は枠の外で続く。 -/
def orphanedPreheatEvents : List Event :=
  [.bulkPreheat { kind := .release, projectRef := "p", maxWorkers := 0, members := ["a", "b"] },
    .preheating 0 (.prepared true), .preheating 1 (.prepared true), .message 2 (.preheatDone "a" .accepted {}),
    .message 3 (.preheatDone "a" .accepted {}), .exit 2, .bulkSettled, .bulkSettled, .preheating 2 (.prepared true),
    .dispatch "p" none none none, .preheating 2 .timeout, .dispatch "p" none none none]

theorem orphaned_preheat_shares : let s := sampleRun (orphanedPreheatEvents.take 10)
    s.draining = false ∧ 3 ∈ s.activeWorkers ∧ 3 ∉ s.idle ∧ s.ownersOf 3 = 2 := by
  decide

/-! ## プロジェクトの隔離 -/

/-- 実行者に割り当てるプロジェクトは一つで、その関数だけを実行し、予熱する。 -/
theorem tenants_isolated (events : List Event) :
    let s := run c (initial c) events
    (∀ w p q, (w, p) ∈ assignments s.log → (w, q) ∈ uses s.log → q = p) ∧
      (∀ w p q, (w, p) ∈ assignments s.log → (w, q) ∈ assignments s.log → q = p) ∧
      (∀ a ∈ uses s.log, a ∈ assignments s.log) ∧
      ∀ e, ∀ a ∈ throws (step c s e).log, a ∈ throws s.log ∨
        a.2 = .missingMetadata ∧ e = .bulkSettled ∧ ∃ b, s.bulk = some b ∧ a.1 ∈ b.workers ∧ s.metadata a.1 = none := by
  intro s
  have h : Isolates (s, {}) :=
    run_invariant (m := {}) isolates_initial (fun _ _ hm hb h => hm.isolates hb h) allowsRun_any
  refine ⟨fun w p q hp hq => h.unique w q p (h.used _ hq) hp, fun w p q hp hq => h.unique w q p hq hp, h.used,
    fun e a ha => ?_⟩
  rcases step_throws (base_run events) ha with hold | ⟨he, b, hb, hw, hno⟩
  · exact .inl hold
  · have hmi : a.2 = .missingMetadata := by
      refine throws_run (c := c) (events ++ [e]) ?_
      rw [run_append]
      exact ha
    exact .inr ⟨hmi, he, b, hb, hw, hno hmi⟩

def failedMemberEvents : List Event :=
  [.bulkPreheat { kind := .release, projectRef := "p", maxWorkers := 0, members := ["a", "b"] },
    .preheating 0 (.prepared true), .preheating 1 (.prepared true), .message 2 (.preheatDone "a" .accepted {}),
    .message 3 (.preheatDone "a" .accepted {}), .error 2 "failed", .bulkSettled]

def Event.isExit : Event → Bool
  | .exit _ => true
  | _ => false

theorem failed_member_throws : failedMemberEvents.all (fun e => !e.isExit) = true ∧
      (2, AssignError.missingMetadata) ∈ throws (sampleRun failedMemberEvents).log := by
  decide

/-- 予算の正しいプロジェクトの実行中の数と列の長さは、いつも予算に収まる。 -/
theorem capacity_enforced {events : List Event} (hr : runAll keepsReserved c (Pool.initial c) events = true) {p : ProjectRef}
    {b : TenantCapacityBudget} (hb : tenantBudget c p = .limited b) :
    (run c (Pool.initial c) events).executionsOf p ≤ b.functionConcurrency ∧
      ((run c (Pool.initial c) events).queue.at p).length ≤ b.queue :=
  (seats_run hr).2 p b hb

def cappedEvents : List Event :=
  reservedEvents ++ [.message 2 (.preheatDone "b" .accepted {}), .message 3 (.preheatDone "b" .accepted {}), .bulkSettled,
    .dispatch "p" none none none, .dispatch "p" none none none]

def sampleBudget : TenantCapacityBudget where
  cpu := 1
  memoryMiB := 64
  connections := 10
  queue := 4
  storageBytes := 1000
  functionConcurrency := 1

theorem sampleBudget_eq : tenantBudget sampleConfig "p" = .limited sampleBudget := by
  rfl

theorem capacity_enforced_capped : runAll keepsReserved sampleConfig (Pool.initial sampleConfig) cappedEvents = true ∧
      (sampleRun cappedEvents).executionsOf "p" = 1 ∧ ((sampleRun cappedEvents).queue.at "p").length = 1 ∧
      (sampleRun cappedEvents).executionsOf "p" ≤ 1 ∧ ((sampleRun cappedEvents).queue.at "p").length ≤ 4 :=
  ⟨by decide, by decide, by decide, capacity_enforced (by decide) sampleBudget_eq⟩

theorem orphaned_preheat_exceeds : tenantBudget sampleConfig "p" = .limited sampleBudget ∧
      sampleBudget.functionConcurrency < (sampleRun orphanedPreheatEvents).executionsOf "p" :=
  ⟨sampleBudget_eq, by decide⟩

/-! ## 仕事の保存 -/

/-- 停止の途中でも受け付けを止めた状態でもなく、上限に達していないプロジェクトの要求が待つなら、空いた実行者はない。 -/
theorem work_conserved {events : List Event} {p : ProjectRef} (hd : (run c (Pool.initial c) events).draining = false)
    (hb : (run c (Pool.initial c) events).admissionBlocked = false) (hq : (run c (Pool.initial c) events).queue.at p ≠ [])
    (hcap : projectWithinFunctionCap c (run c (Pool.initial c) events) p none = true) : (run c (Pool.initial c) events).idle = [] :=
  (serves_run events).idle_empty hd hb hq hcap

def burstEvents : List Event := [.dispatch "q" none none none, .dispatch "q" none none none, .dispatch "q" none none none]

theorem work_conserved_burst : (sampleRun burstEvents).draining = false ∧ (sampleRun burstEvents).admissionBlocked = false ∧
      (sampleRun burstEvents).queue.at "q" ≠ [] ∧
      projectWithinFunctionCap sampleConfig (sampleRun burstEvents) "q" none = true ∧ (sampleRun burstEvents).idle = [] :=
  have hd : (sampleRun burstEvents).draining = false := by decide
  have hb : (sampleRun burstEvents).admissionBlocked = false := by decide
  have hq : (sampleRun burstEvents).queue.at "q" ≠ [] := by decide
  have hcap : projectWithinFunctionCap sampleConfig (sampleRun burstEvents) "q" none = true := by decide
  ⟨hd, hb, hq, hcap, work_conserved hd hb hq hcap⟩

/-- プロジェクトごとに、要求は受け付けた順に実行を始め、同じ要求を二度始めない。 -/
theorem project_fifo (events : List Event) (p : ProjectRef) :
    (startedKeys p (run c (Pool.initial c) events).log).Sublist (admittedKeys p (run c (Pool.initial c) events).log) ∧
      (admittedKeys p (run c (Pool.initial c) events).log).Pairwise (· > ·) :=
  ⟨(orders_run events p).started_sublist, (orders_run events p).admitted_desc⟩

/-- 世代の交代が戻った後は古い世代の実行者が、無効化の後はそのときの実行者と要求が、実行を始めない。 -/
theorem stale_fenced (events : List Event) {later earlier : List LogEvent} :
    (∀ n, (run c (Pool.initial c) events).log = later ++ .rotated n :: earlier →
      ∀ w k, .created w k ∈ (run c (Pool.initial c) events).log → k < n →
        (∀ key p, .started key w p ∉ later) ∧ .preheatSucceeded w ∉ later) ∧
    (∀ p, (run c (Pool.initial c) events).log = later ++ .invalidated p :: earlier →
      (∀ w, .assigned w p ∈ earlier → ∀ key q, .started key w q ∉ later) ∧
        ∀ key, .admitted key p ∈ earlier → ∀ w q, .started key w q ∉ later) := by
  have ho := (fences_run (c := c) events).ordered
  refine ⟨fun n hl w k hw hk => ?_, fun p hl => ⟨fun w hw key q hs => ?_, fun key hk w q hs => ?_⟩⟩
  · have hold : .created w k ∈ earlier := by
      rw [hl, List.mem_append, List.mem_cons] at hw
      rcases hw with hw | hw | hw
      · exact absurd (ho _ _ _ hl _ hw) (Nat.not_le_of_lt hk)
      · cases hw
      · exact hw
    exact ⟨fun key p hs => Nat.not_le_of_lt hk (ho _ _ _ hl _ hs k hold),
      fun hs => Nat.not_le_of_lt hk (ho _ _ _ hl _ hs k hold)⟩
  · exact (ho _ _ _ hl _ hs).1 hw
  · exact (ho _ _ _ hl _ hs).2 hk

/-! ## 参照の始末 -/

/-- 記録の残る実行者は、枠か停め置きか引退のどれかにあり、終わりを処理した実行者は、その後のどこにも残らない。 -/
theorem references_live {events : List Event} (hr : runAll findsSuspects c (Pool.initial c) events = true) {w : Worker} :
    let s := run c (Pool.initial c) events
    (s.tainted w = true ∨ w ∈ s.book.workerMemory.map (·.1) ∨ s.metadata w ≠ none →
      w ∈ s.activeWorkers ∨ w ∈ s.parkedWorkers ∨ w ∈ s.retiredWorkers) ∧
    ∀ before after, events = before ++ .exit w :: after → w < (run c (Pool.initial c) before).nextWorker →
      w ∉ s.activeWorkers ∧ w ∉ s.parkedWorkers ∧ w ∉ s.retiredWorkers ∧ w ∉ s.idle ∧ s.tainted w = false ∧
        w ∉ s.book.workerMemory.map (·.1) ∧ s.metadata w = none := by
  intro s
  have href : References (s, {}) := references_run hr
  have hb : Base c (s, {}) := base_run events
  have hlive : s.tainted w = true ∨ w ∈ s.book.workerMemory.map (·.1) ∨ s.metadata w ≠ none →
      s.metadata w ≠ none ∨ w ∈ s.retiredWorkers := by
    grind [→ href.tainted, → href.memory]
  refine ⟨fun hw => ?_, fun before after he hlt => ?_⟩
  · rcases hlive hw with hm | hr
    · rcases (hb.places.known w).mp hm with ha | hp | ht
      · exact .inl ha
      · exact .inr (.inl hp)
      · cases ht
    · exact .inr (.inr hr)
  · have hab : Absent s w := exited_absent he hlt
    have hnot : ¬ (s.metadata w ≠ none ∨ w ∈ s.retiredWorkers) := not_or.mpr ⟨not_not_intro hab.1.1, hab.2⟩
    have ha : w ∉ s.activeWorkers := hb.not_active_of_gone hab.1
    exact ⟨ha, fun hp => hb.places.parked_known hp hab.1.1, hab.2, fun hi => ha (hb.places.idle_active w hi),
      Bool.eq_false_iff.mpr fun ht => hnot (hlive (.inl ht)), fun hm => hnot (hlive (.inr (.inl hm))), hab.1.1⟩

def taintedBusyEvents : List Event :=
  [.dispatch "q" none none none, .dispatch "q" none none none, .exit 1, .invalidateModule, .moduleControl 0 fun _ => false]

theorem references_live_tainted : (sampleRun taintedBusyEvents).tainted 0 = true ∧ (sampleRun taintedBusyEvents).metadata 1 = none ∧
      (0 ∈ (sampleRun taintedBusyEvents).activeWorkers ∨ 0 ∈ (sampleRun taintedBusyEvents).parkedWorkers ∨
        0 ∈ (sampleRun taintedBusyEvents).retiredWorkers) := by
  have hr : runAll findsSuspects sampleConfig (initial sampleConfig) taintedBusyEvents = true := by decide
  have ht : (sampleRun taintedBusyEvents).tainted 0 = true := by decide
  obtain ⟨-, -, -, -, -, -, hgone⟩ := (references_live hr (w := 1)).2 [.dispatch "q" none none none, .dispatch "q" none none none]
    [.invalidateModule, .moduleControl 0 fun _ => false] rfl (by decide)
  exact ⟨ht, hgone, (references_live hr).1 (.inl ht)⟩

def lateTaintEvents : List Event := [.invalidateModule, .exit 0, .moduleControl 0 fun _ => false]

theorem late_taint_stale : (sampleRun lateTaintEvents).tainted 0 = true ∧ 0 ∉ (sampleRun lateTaintEvents).activeWorkers ∧
      0 ∉ (sampleRun lateTaintEvents).parkedWorkers ∧ 0 ∉ (sampleRun lateTaintEvents).retiredWorkers := by
  decide

theorem queues_represented (calls : List Queues.Call) : ∃ q, calls.foldlM Queues.step .new = .ok q ∧ q.Represented := by
  obtain ⟨q, m, hrun, hq⟩ : ∃ q m, calls.foldlM Queues.step .new = .ok q ∧ q.Shows m :=
    Queues.Shows.run (m := .empty) ⟨rfl, rfl, rfl⟩
  exact ⟨q, hrun, hq.represented⟩

/-- 待つ要求と実行中の要求は重ならず、実行どうしは実行者を分け合わず、伝言はその実行者の実行中の要求にだけ渡る。 -/
theorem executions_distinct (events : List Event) :
    let s := run c (initial c) events
    (s.queue.all.map (·.key) ++ s.inFlight.map Execution.key).Nodup ∧ (s.inFlight.map (·.worker)).Nodup ∧
      (∀ w k, s.handlers w = some (.execution k) → ∃ e ∈ s.inFlight, e.key = k ∧ e.worker = w) ∧
      (s.draining = true ∨ s.admissionBlocked = true → ∀ p, s.queue.at p = []) := by
  intro s
  have hb : Base c (s, {}) := base_run events
  exact ⟨by simpa [liveKeys] using hb.keys.nodup, hb.owned.workers_nodup, hb.hands.execution, hb.quiet⟩

end Supacloud.EdgeRuntime
