import Supacloud.Tasks.Lemmas.Store
import Supacloud.Tasks.Saga

/-! # 連鎖の一歩 -/

namespace Supacloud.Tasks.Saga

open Library World List

variable {w w' : World} {pid : Nat} {e : Event} {now : Timestamp} {point : Point} {t : Task} {tasks : List Task} {type : TaskType}

/-! ## 過程の列 -/

def Point.task : Point → Option Task
  | .claimed task | .executing task | .following task _ _ => some task
  | .recovered | .claiming .. => none

theorem mem_of_point (h : w.point pid = some point) : ⟨pid, point⟩ ∈ w.polls := by
  simp only [World.point, Option.map_eq_some_iff] at h
  obtain ⟨p, hp, rfl⟩ := h
  have hpid : p.pid = pid := by simpa using find?_some hp
  subst hpid
  exact mem_of_find?_eq_some hp

theorem mem_stop {p} : p ∈ (w.stop pid).polls ↔ p ∈ w.polls ∧ p.pid ≠ pid := by
  simp [stop]

theorem mem_move {p} : p ∈ (w.move pid point).polls ↔ p = ⟨pid, point⟩ ∨ (p ∈ w.polls ∧ p.pid ≠ pid) := by
  simp [move]

theorem mem_follow {p task ending rest} : p ∈ (w.follow pid task ending rest).polls ↔
      (p = ⟨pid, .following task ending rest⟩ ∧ rest ≠ []) ∨ (p ∈ w.polls ∧ p.pid ≠ pid) := by
  cases rest with
  | nil => simp [follow, mem_stop]
  | cons c rest => simp [follow, mem_move]

section Follow

variable {task : Task} {ending : Ending} {rest : List FollowUp}

theorem follow_frame : w.follow pid task ending rest = { w with polls := (w.follow pid task ending rest).polls } := by
  simp only [follow]; split <;> rfl

@[simp] theorem follow_tasks : (w.follow pid task ending rest).tasks = w.tasks := by
  rw [follow_frame]

@[simp] theorem follow_log : (w.follow pid task ending rest).log = w.log := by
  rw [follow_frame]

@[simp] theorem follow_status : (w.follow pid task ending rest).status = w.status := by
  rw [follow_frame]

@[simp] theorem follow_activated : (w.follow pid task ending rest).activated = w.activated := by
  rw [follow_frame]

@[simp] theorem follow_uuid : (w.follow pid task ending rest).uuid = w.uuid := by
  rw [follow_frame]

end Follow

/-! ## 一歩 -/

def Ending.settle (ending : Ending) (now : Timestamp) (t : Task) : Task :=
  match ending with
  | .succeeded => { t.settle .succeeded none with completedAt := some now }
  | .failed => { t.settle .failed (some failureMessage) with completedAt := some now }

inductive Change (w : World) : Event → World → Prop
  | same {e : Event} : Change w e w
  | tick (elapsed : Nat) : Change w (.tick elapsed) { w with clock := w.clock + elapsed }
  | recover {pid : Nat} : w.point pid = none → Change w (.poll pid)
      ({ w with tasks := recoverExpiredLeases w.tasks w.clock none allowedTaskTypes }.move pid .recovered)
  | begin {pid : Nat} : ⟨pid, .recovered⟩ ∈ w.polls → Change w (.begin pid) (w.move pid (.claiming w.tasks w.clock))
  | claim {pid : Nat} {skip snapshot now t} {duration : Nat} :
      ⟨pid, .claiming snapshot now⟩ ∈ w.polls → t ∈ w.tasks → Change w (.claim pid skip)
        ({ w with tasks := update (fun r => r.id = t.id) (fun r => r.lease now duration) w.tasks }.move pid
          (.claimed (t.lease now duration)))
  | idle {pid : Nat} {skip : List Uuid} {snapshot : List Task} {now : Timestamp} :
      ⟨pid, .claiming snapshot now⟩ ∈ w.polls → Change w (.claim pid skip) (w.stop pid)
  | running {pid : Nat} {task : Task} : ⟨pid, .claimed task⟩ ∈ w.polls → Change w (.markTaskRunning pid)
      ({ w with tasks := markTaskRunning w.tasks task.id }.move pid (.executing task))
  | retry {pid : Nat} {task : Task} {success : Bool} {next : Timestamp} : ⟨pid, .executing task⟩ ∈ w.polls →
      Change w (.executeTask pid success) ({ w with tasks := scheduleRetry w.tasks task.id failureMessage next }.stop pid)
  | finish {pid : Nat} {task : Task} {success : Bool} {ending : Ending} : ⟨pid, .executing task⟩ ∈ w.polls →
      Change w (.executeTask pid success)
        ({ w with
            tasks := update (fun t => t.id = task.id) (ending.settle w.clock) w.tasks
            log := .ended task ending :: w.log }.follow pid task ending (ending.followUps task.taskType))
  | follow {pid : Nat} {locked : Bool} {task : Task} {ending : Ending} {next : FollowUp} {rest : List FollowUp} :
      ⟨pid, .following task ending (next :: rest)⟩ ∈ w.polls →
      w.point pid = some (.following task ending (next :: rest)) → Change w (.followUp pid locked)
        ({ w.write locked next with log := .followed task next :: w.log }.follow pid task ending rest)
  | crash {pid : Nat} : Change w (.crash pid) (w.stop pid)

theorem finish_change {task success} (h : ⟨pid, .executing task⟩ ∈ w.polls) (ending) :
    Change w (.executeTask pid success) (w.finish pid task ending) := by
  cases ending with
  | succeeded => exact @Change.finish w pid task success .succeeded h
  | failed => exact @Change.finish w pid task success .failed h

theorem step_change (hn : (w.tasks.map Task.id).Nodup) (e) : Change w e (step w e) := by
  cases e with
  | tick elapsed => exact .tick elapsed
  | poll pid =>
    simp only [step]
    split
    next h => exact .recover h
    next => exact .same
  | begin pid =>
    simp only [step]
    split
    next h => exact .begin (mem_of_point h)
    next => exact .same
  | claim pid skip =>
    simp only [step]
    split
    next snapshot now h =>
      split
      next task tasks hclm =>
        obtain ⟨t, ht, duration, -, rfl, rfl⟩ := claimNextTask_some hn hclm
        exact .claim (mem_of_point h) ht
      next => exact .idle (mem_of_point h)
    next => exact .same
  | markTaskRunning pid =>
    simp only [step]
    split
    next task h => exact .running (mem_of_point h)
    next => exact .same
  | executeTask pid success =>
    simp only [step]
    split
    next task h =>
      split
      next => exact finish_change (mem_of_point h) .succeeded
      next =>
        simp only [handleTaskFailure]
        split
        next => exact .retry (mem_of_point h)
        next => exact finish_change (mem_of_point h) .failed
    next => exact .same
  | followUp pid locked =>
    simp only [step]
    split
    next task ending next rest h => exact .follow (mem_of_point h) h
    next => exact .same
  | crash pid => exact .crash

/-! ## 番号と過程の重なり -/

structure Base (w : World) : Prop where
  nodup : (w.tasks.map Task.id).Nodup
  fresh : ∀ t ∈ w.tasks, t.id < w.uuid
  single : ∀ p ∈ w.polls, ∀ q ∈ w.polls, p.pid = q.pid → p = q

theorem Base.of_polls (h : Base w) (hids : w'.tasks.map Task.id = w.tasks.map Task.id) (huu : w'.uuid = w.uuid)
    (hpos : ∃ point, ∀ p ∈ w'.polls, p = ⟨pid, point⟩ ∨ (p ∈ w.polls ∧ p.pid ≠ pid)) : Base w' := by
  refine ⟨by rw [hids]; exact h.nodup, ?_, ?_⟩
  · intro t ht
    have hid : t.id ∈ w.tasks.map Task.id := hids ▸ mem_map_of_mem ht
    obtain ⟨r, hr, hre⟩ := mem_map.mp hid
    rw [huu, ← hre]
    exact h.fresh r hr
  · grind [h.single]

theorem createTask_tasks (type : TaskType) : ∃ t, (w.createTask type).tasks = w.tasks ++ [t] ∧ t.id = w.uuid ∧
    t.taskType = type ∧ t.attempt = 0 ∧ active t = true := by
  simp only [World.createTask, Tasks.createTask, ne_eq, not_true_eq_false, false_and, and_false, decide_false,
    any_eq_true, Bool.false_eq_true, exists_false, ↓reduceIte]
  exact ⟨_, rfl, rfl, rfl, rfl, rfl⟩

theorem Base.createTask (h : Base w) (type : TaskType) : Base (w.createTask type) := by
  obtain ⟨t, htas, hid, -⟩ := createTask_tasks (w := w) type
  refine ⟨?_, ?_, h.single⟩
  · rw [htas, map_append, nodup_append]
    refine ⟨h.nodup, by simp, ?_⟩
    intro i hi j hj
    obtain ⟨r, hr, rfl⟩ := mem_map.mp hi
    rw [map_singleton, mem_singleton] at hj
    rw [hj, hid]
    exact Nat.ne_of_lt (h.fresh r hr)
  · intro r hr
    rw [htas, mem_append, mem_singleton] at hr
    rcases hr with hr | rfl
    · exact Nat.lt_succ_of_lt (h.fresh r hr)
    · exact hid ▸ Nat.lt_succ_self _

theorem Base.write (h : Base w) (locked c) : Base (w.write locked c) := by
  cases c with
  | pause => exact ⟨h.nodup, h.fresh, h.single⟩
  | activate =>
    simp only [World.write, World.activate]
    split
    · exact ⟨h.nodup, h.fresh, h.single⟩
    · exact h
  | enqueue type => exact h.createTask type

theorem Task.recover_id (t : Task) (now) : (t.recover now).id = t.id := by
  simp only [Task.recover]
  split
  · rfl
  · split <;> rfl

theorem recoverExpiredLeases_ids {types : List TaskType} : (recoverExpiredLeases tasks now none types).map Task.id = tasks.map Task.id :=
  map_update fun t _ => Task.recover_id t now

theorem Ending.settle_id (ending : Ending) (now t) : (ending.settle now t).id = t.id := by
  cases ending <;> rfl

variable (locked : Bool) (c : FollowUp)

theorem write_polls : (w.write locked c).polls = w.polls := by
  cases c with
  | pause | enqueue type => rfl
  | activate => simp only [write, activate]; split <;> rfl

theorem Change.base (h : Base w) (hc : Change w e w') : Base w' := by
  cases hc with
  | same => exact h
  | tick elapsed => exact ⟨h.nodup, h.fresh, h.single⟩
  | recover hno => exact h.of_polls recoverExpiredLeases_ids rfl ⟨_, fun p => mem_move.mp⟩
  | begin hin => exact h.of_polls rfl rfl ⟨_, fun p => mem_move.mp⟩
  | claim hin ht | running hin => exact h.of_polls (map_update fun _ _ => rfl) rfl ⟨_, fun p => mem_move.mp⟩
  | idle hin | crash => exact h.of_polls rfl rfl ⟨.recovered, fun p hp => .inr (mem_stop.mp hp)⟩
  | retry hin => exact h.of_polls (map_update fun _ _ => rfl) rfl ⟨.recovered, fun p hp => .inr (mem_stop.mp hp)⟩
  | finish hin =>
    refine h.of_polls ?_ (by simp) ⟨_, fun p hp => (mem_follow.mp hp).imp_left And.left⟩
    rw [follow_tasks]
    exact map_update fun t _ => Ending.settle_id _ _ t
  | @follow pid locked task ending next rest hin hpo =>
    have hpos : ∀ p ∈ (World.follow { w.write locked next with log := .followed task next :: w.log } pid task ending rest).polls,
        p = ⟨pid, .following task ending rest⟩ ∨ (p ∈ (w.write locked next).polls ∧ p.pid ≠ pid) :=
      fun p hp => (mem_follow.mp hp).imp_left And.left
    exact (h.write locked next).of_polls (by simp) (by simp) ⟨_, hpos⟩

variable (clock : Timestamp) (project : Project)

theorem base_start : Base (provisionResources clock project) := by
  apply Base.createTask
  constructor <;> simp

/-! ## 続きの書き込みの表 -/

section FollowUps

attribute [local simp] Ending.followUps handleTaskCompletion compensation cleanup allowedTaskTypes

theorem pause_mem {ending : Ending} (h : FollowUp.pause ∈ ending.followUps type) : ending = .failed ∧ type ≠ .provisionRealtime := by
  cases ending <;> cases type <;> simp_all

theorem enqueue_cleanup_mem {ending : Ending} {next : TaskType} (h : FollowUp.enqueue next ∈ ending.followUps type)
    (hc : cleanup next = true) : (ending = .failed ∧ type ≠ .provisionRealtime) ∨ cleanup type = true := by
  cases ending <;> cases type <;> simp_all

theorem enqueue_allowed {ending : Ending} {next : TaskType} (h : FollowUp.enqueue next ∈ ending.followUps type) :
    next ∈ allowedTaskTypes := by
  cases ending <;> cases type <;> simp_all
  all_goals rcases h with rfl | rfl | rfl <;> simp

theorem followUps_nil {ending : Ending} (hty : type ∈ allowedTaskTypes)
    (h : ending.followUps type = []) : (ending = .failed ∧ type ≠ .provisionRealtime) ∨ cleanup type = true := by
  cases ending <;> cases type <;> simp_all

theorem followUps_count (ending : Ending) (type next : TaskType) : (ending.followUps type).count (.enqueue next) ≤ 1 := by
  apply nodup_iff_count_le_one.mp
  cases ending <;> cases type <;> simp

end FollowUps

/-! ## 途切れない連鎖 -/

def Underway (w : World) : Prop :=
  (∃ t ∈ w.tasks, active t = true) ∨ ∃ pid task ending rest, ⟨pid, .following task ending rest⟩ ∈ w.polls

def Compensating (w : World) : Prop :=
  ∃ pid task rest, ⟨pid, .following task .failed rest⟩ ∈ w.polls ∧ task.taskType ≠ .provisionRealtime

def Rolling (w : World) : Prop := w.status = .paused ∨ ∃ type ∈ w.tasks.map Task.taskType, cleanup type = true

structure Progress (w : World) : Prop where
  activated : w.status = .active → w.activated = true
  types : ∀ type ∈ w.tasks.map Task.taskType, type ∈ allowedTaskTypes
  claimed : ∀ p ∈ w.polls, ∀ task, p.point.task = some task → task.taskType ∈ w.tasks.map Task.taskType
  followed : ∀ pid task ending rest, ⟨pid, .following task ending rest⟩ ∈ w.polls → rest ≠ [] ∧ .ended task ending ∈ w.log ∧
      ∃ done, ending.followUps task.taskType = done ++ rest ∧ ∀ c ∈ done, .followed task c ∈ w.log
  rolling : Rolling w → w.Settled ∨ Compensating w
  settled : w.Settled ∨ Underway w

theorem settled_mono (hact : w.activated = true → w'.activated = true) (hlog : ∀ e ∈ w.log, e ∈ w'.log) (h : w.Settled) : w'.Settled := by
  rcases h with h | ⟨task, hty, hen, hall⟩
  · exact .inl (hact h)
  · exact .inr ⟨task, hty, hlog _ hen, fun c hc => hlog _ (hall c hc)⟩

theorem Progress.of_steady (h : Progress w) (hst : w'.status = w.status) (hact : w'.activated = w.activated)
    (hlog : w'.log = w.log) (htys : w'.tasks.map Task.taskType = w.tasks.map Task.taskType)
    (hac : (∃ t ∈ w.tasks, active t = true) → ∃ t ∈ w'.tasks, active t = true)
    (hfo : ∀ pid task ending rest, ⟨pid, .following task ending rest⟩ ∈ w'.polls ↔ ⟨pid, .following task ending rest⟩ ∈ w.polls)
    (hcla : ∀ p ∈ w'.polls, ∀ task, p.point.task = some task → task.taskType ∈ w.tasks.map Task.taskType) : Progress w' := by
  have hset : w'.Settled ↔ w.Settled := by simp [Settled, hact, hlog]
  have hco : Compensating w' ↔ Compensating w := by simp [Compensating, hfo]
  have hro : Rolling w' ↔ Rolling w := by simp [Rolling, hst, htys]
  refine ⟨by rw [hst, hact]; exact h.activated, by rw [htys]; exact h.types, by rw [htys]; exact hcla, ?_, ?_, ?_⟩
  · grind [h.followed]
  · rw [hro, hset, hco]
    exact h.rolling
  · rw [hset]
    refine h.settled.imp_right ?_
    rintro (hrow | ⟨pid, task, ending, rest, hin⟩)
    · exact .inl (hac hrow)
    · exact .inr ⟨pid, task, ending, rest, (hfo _ _ _ _).mpr hin⟩

section

variable (hown : ∀ p ∈ w.polls, p.pid = pid → p.point.unfinished = false)

include hown

theorem following_move (hpo : point.unfinished = false) (pid' task ending rest) :
    ⟨pid', .following task ending rest⟩ ∈ (w.move pid point).polls ↔ ⟨pid', .following task ending rest⟩ ∈ w.polls := by
  rw [mem_move]
  constructor
  · rintro (heq | ⟨hin, -⟩)
    · obtain ⟨-, rfl⟩ := Poll.mk.inj heq
      cases hpo
    · exact hin
  · intro hin
    refine .inr ⟨hin, ?_⟩
    intro hpid
    cases hown _ hin hpid

theorem following_stop (pid' task ending rest) :
    ⟨pid', .following task ending rest⟩ ∈ (w.stop pid).polls ↔ ⟨pid', .following task ending rest⟩ ∈ w.polls := by
  rw [mem_stop]
  constructor
  · exact And.left
  · intro hin
    refine ⟨hin, ?_⟩
    intro hpid
    cases hown _ hin hpid

end

theorem Base.own (h : Base w) (hin : ⟨pid, point⟩ ∈ w.polls) (hpo : point.unfinished = false) :
    ∀ p ∈ w.polls, p.pid = pid → p.point.unfinished = false := by
  intro p hp hpid
  rw [h.single p hp _ hin hpid]
  exact hpo

theorem own_of_none (h : w.point pid = none) : ∀ p ∈ w.polls, p.pid = pid → p.point.unfinished = false := by
  intro p hp hpid
  simp only [point, Option.map_eq_none_iff, find?_eq_none] at h
  exact absurd (decide_eq_true hpid) (h p hp)

theorem active_update {p f} (hf : ∀ t ∈ tasks, p t = true → active (f t) = true)
    (h : ∃ t ∈ tasks, active t = true) : ∃ t ∈ update p f tasks, active t = true := by
  obtain ⟨t, ht, ha⟩ := h
  refine ⟨_, mem_update.mpr ⟨t, ht, rfl⟩, ?_⟩
  by_cases hp : p t = true
  · simpa [hp] using hf t ht hp
  · simpa [hp] using ha

theorem Task.recover_taskType (t : Task) (now) : (t.recover now).taskType = t.taskType := by
  simp only [Task.recover]
  split
  · rfl
  · split <;> rfl

theorem active_recover (hty : t.taskType ∈ allowedTaskTypes) (hlf : t.attempt < t.maxAttempts) : active (t.recover now) = true := by
  have hed : t.unknownOutcome = false := by
    simp only [Task.unknownOutcome, decide_eq_false_iff_not]
    rintro ⟨hed, -⟩
    rw [hed] at hty
    simp [allowedTaskTypes] at hty
  simp [Task.recover, hed, hlf, active, Task.queued]

theorem Progress.mem_types (h : Progress w) (ht : t ∈ w.tasks) : t.taskType ∈ allowedTaskTypes :=
  h.types _ (mem_map_of_mem ht)

theorem Ending.settle_taskType (ending : Ending) (now t) : (ending.settle now t).taskType = t.taskType := by
  cases ending <;> rfl

theorem Progress.finish (hb : Base w) (h : Progress w) {task ending} (hin : ⟨pid, .executing task⟩ ∈ w.polls) (hw : w' = follow
      { w with
        tasks := update (fun t => t.id = task.id) (ending.settle w.clock) w.tasks
        log := .ended task ending :: w.log } pid task ending (ending.followUps task.taskType)) : Progress w' := by
  have hown := hb.own hin rfl
  have htys : (update (fun t => t.id = task.id) (ending.settle w.clock) w.tasks).map Task.taskType = w.tasks.map Task.taskType :=
    map_update fun t _ => Ending.settle_taskType _ _ t
  have hta := h.claimed _ hin task rfl
  have hro : Rolling w → w'.Settled ∨ Compensating w' := by
    intro hr
    subst hw
    rcases h.rolling hr with hs | ⟨pid', task', rest, hin', hty⟩
    · exact .inl (settled_mono (by simp) (fun e he => by simp [he]) hs)
    · -- 続きを書いている過程は pid ではないので、残る。
      refine .inr ⟨pid', task', rest, mem_follow.mpr (.inr ⟨hin', ?_⟩), hty⟩
      intro hpid
      cases hown _ hin' hpid
  subst hw
  refine ⟨by simpa using h.activated, by simpa [htys] using h.types, ?_, ?_, ?_, ?_⟩
  · intro p hp task' ht'
    rw [follow_tasks, htys]
    rcases mem_follow.mp hp with ⟨rfl, -⟩ | ⟨hp, -⟩
    · cases ht'
      exact hta
    · exact h.claimed p hp task' ht'
  · intro pid' task' ending' rest hin'
    rw [follow_log]
    rcases mem_follow.mp hin' with ⟨heq, hne⟩ | ⟨hin', -⟩
    · cases heq
      exact ⟨hne, by simp, [], by simp, by simp⟩
    · grind [h.followed]
  · intro hr
    apply hro
    simpa [Rolling, htys] using hr
  · by_cases hnil : ending.followUps task.taskType = []
    · rcases followUps_nil (h.types _ hta) hnil with ⟨rfl, hty⟩ | hcl
      · refine .inl (.inr ⟨task, hty, by simp, ?_⟩)
        intro c hc
        rw [show compensation task.taskType = [] from hnil] at hc
        cases hc
      · refine (hro (.inr ⟨_, hta, hcl⟩)).imp_right ?_
        rintro ⟨pid', task', rest, hin', -⟩
        exact .inr ⟨pid', task', .failed, rest, hin'⟩
    · exact .inr (.inr ⟨pid, task, ending, _, mem_follow.mpr (.inl ⟨rfl, hnil⟩)⟩)

/-! ## 続きの書き込み -/

theorem write_status (h : (w.write locked c).status = .paused) : w.status = .paused ∨ c = .pause := by
  cases c with
  | pause => exact .inr rfl
  | activate =>
    simp only [write, activate] at h
    split at h
    · cases h
    · exact .inl h
  | enqueue type => exact .inl h

theorem write_activated (h : w.activated = true) : (w.write locked c).activated = true := by
  cases c with
  | pause | enqueue type => exact h
  | activate =>
    simp only [write, activate]
    split
    · rfl
    · exact h

theorem write_types : (∀ type ∈ w.tasks.map Task.taskType, type ∈ (w.write locked c).tasks.map Task.taskType) ∧
    ∀ type ∈ (w.write locked c).tasks.map Task.taskType, type ∈ w.tasks.map Task.taskType ∨ c = .enqueue type := by
  cases c with
  | pause => exact ⟨fun _ h => h, fun _ h => .inl h⟩
  | activate =>
    simp only [write, activate]
    split <;> exact ⟨fun _ h => h, fun _ h => .inl h⟩
  | enqueue next =>
    obtain ⟨t, htas, -, rfl, -⟩ := createTask_tasks (w := w) next
    simp only [write, htas, map_append, map_singleton, mem_append, mem_singleton]
    refine ⟨fun _ h => .inl h, ?_⟩
    rintro type (h | rfl)
    · exact .inl h
    · exact .inr rfl

theorem Progress.follow (hb : Base w) (h : Progress w) {task ending next rest}
    {locked} (hin : ⟨pid, .following task ending (next :: rest)⟩ ∈ w.polls)
    (hlo : next = .activate → w.status = .creating → locked = true)
    (hw : w' = follow { w.write locked next with log := .followed task next :: w.log } pid task ending rest) :
    Progress w' := by
  obtain ⟨-, hen, done, hdo, hall⟩ := h.followed pid task ending _ hin
  have hnx : next ∈ ending.followUps task.taskType := by simp [hdo]
  have hta := h.claimed _ hin task rfl
  have hlog : w'.log = .followed task next :: w.log := by rw [hw, follow_log]
  have hmo : w.Settled → w'.Settled := by grind [settled_mono, follow_activated, write_activated]
  have hpos : ∀ p, p ∈ w'.polls ↔ (p = ⟨pid, .following task ending rest⟩ ∧ rest ≠ []) ∨ (p ∈ w.polls ∧ p.pid ≠ pid) := by
    intro p
    rw [hw, mem_follow]
    simp [write_polls]
  -- 失敗の補いは、この書き込みで済むか、まだ残っている。
  have hse : ending = .failed → task.taskType ≠ .provisionRealtime → w'.Settled ∨ Compensating w' := by
    rintro rfl hty
    cases rest with
    | nil =>
      refine .inl (.inr ⟨task, hty, by simp [hlog, hen], ?_⟩)
      intro c hc
      rw [show compensation task.taskType = done ++ [next] from hdo, mem_append, mem_singleton] at hc
      rw [hlog]
      rcases hc with hc | rfl
      · exact mem_cons_of_mem _ (hall c hc)
      · exact mem_cons_self
    | cons c rest => exact .inr ⟨pid, task, _, (hpos _).mpr (.inl ⟨rfl, by simp⟩), hty⟩
  have hro : Rolling w → w'.Settled ∨ Compensating w' := by
    intro hr
    rcases h.rolling hr with hs | ⟨pid', task', rest', hin', hty⟩
    · exact .inl (hmo hs)
    · by_cases hpid : pid' = pid
      · have heq := hb.single _ hin' _ hin hpid
        cases heq
        exact hse rfl hty
      · exact .inr ⟨pid', task', rest', (hpos _).mpr (.inr ⟨hin', hpid⟩), hty⟩
  have hund : Compensating w' → Underway w' := by
    rintro ⟨pid', task', rest', hin', -⟩
    exact .inr ⟨pid', task', .failed, rest', hin'⟩
  refine ⟨?_, ?_, ?_, ?_, ?_, ?_⟩
  · rw [hw, follow_status, follow_activated]
    intro hst
    cases next with
    | pause => cases hst
    | activate => grind [h.activated, write, activate]
    | enqueue type => exact h.activated hst
  · intro type hty
    rw [hw, follow_tasks] at hty
    rcases (write_types locked next).2 type hty with hty | rfl
    · exact h.types type hty
    · exact enqueue_allowed hnx
  · intro p hp task' ht'
    rw [hw, follow_tasks]
    apply (write_types locked next).1
    rcases (hpos p).mp hp with ⟨rfl, -⟩ | ⟨hp, -⟩
    · cases ht'
      exact hta
    · exact h.claimed p hp task' ht'
  · intro pid' task' ending' rest' hin'
    rw [hlog]
    rcases (hpos _).mp hin' with ⟨heq, hne⟩ | ⟨hin', -⟩
    · cases heq
      refine ⟨hne, mem_cons_of_mem _ hen, done ++ [next], by simpa using hdo, ?_⟩
      intro c hc
      rw [mem_append, mem_singleton] at hc
      rcases hc with hc | rfl
      · exact mem_cons_of_mem _ (hall c hc)
      · exact mem_cons_self
    · grind [h.followed]
  · -- 止めるのも片付けを始めるのも、失敗の補いである。片付けの連鎖の続きなら、前から片付けの途中である。
    rintro (hst | ⟨type, hty, hcl⟩)
    · rw [hw, follow_status] at hst
      rcases write_status locked next hst with hst | rfl
      · exact hro (.inl hst)
      · exact hse (pause_mem hnx).1 (pause_mem hnx).2
    · rw [hw, follow_tasks] at hty
      rcases (write_types locked next).2 type hty with hty | rfl
      · exact hro (.inr ⟨type, hty, hcl⟩)
      · rcases enqueue_cleanup_mem hnx hcl with ⟨hf, hne⟩ | hcl'
        · exact hse hf hne
        · exact hro (.inr ⟨_, hta, hcl'⟩)
  · cases next with
    | pause => exact (hse (pause_mem hnx).1 (pause_mem hnx).2).imp_right hund
    | enqueue type =>
      obtain ⟨t, htas, -, -, -, hact⟩ := createTask_tasks (w := w) type
      refine .inr (.inl ⟨t, ?_, hact⟩)
      rw [hw, follow_tasks]
      simp [write, htas]
    | activate =>
      cases hst : w.status with
      | creating =>
        refine .inl (.inl ?_)
        rw [hw, follow_activated]
        simp [write, activate, hlo rfl hst, hst]
      | active => exact .inl (hmo (.inl (h.activated hst)))
      | paused => exact (hro (.inl hst)).imp_right hund

/-! ## 一歩ごとの保存 -/

theorem Change.progress (hb : Base w) (h : Progress w) (hc : Change w e w') (hok : Uninterrupted w e) : Progress w' := by
  -- 止まっている所だけを変える一歩で、受け持っている仕事は増えない。
  have hke : ∀ {point}, (∀ task, point.task = some task → task.taskType ∈ w.tasks.map Task.taskType) →
      ∀ pid, ∀ p, (p = ⟨pid, point⟩ ∨ (p ∈ w.polls ∧ p.pid ≠ pid)) → ∀ task, p.point.task = some task →
        task.taskType ∈ w.tasks.map Task.taskType := by
    rintro point hpo pid p (rfl | ⟨hp, -⟩) task ht
    · exact hpo task ht
    · exact h.claimed p hp task ht
  cases hc with
  | same => exact h
  | tick elapsed => exact ⟨h.activated, h.types, h.claimed, h.followed, h.rolling, h.settled⟩
  | @recover pid hno =>
    refine h.of_steady rfl rfl rfl (map_update fun t _ => Task.recover_taskType t _) ?_
      (following_move (own_of_none hno) rfl) fun p hp => hke (by simp [Point.task]) pid p (mem_move.mp hp)
    apply active_update
    exact fun t ht hrec => active_recover (h.mem_types ht) (hok hno t ht hrec)
  | @begin pid hin =>
    exact h.of_steady rfl rfl rfl rfl id (following_move (hb.own hin rfl) rfl)
      fun p hp => hke (by simp [Point.task]) pid p (mem_move.mp hp)
  | @claim pid skip snapshot now t duration hin ht =>
    refine h.of_steady rfl rfl rfl (map_update fun _ _ => rfl) ?_ (following_move (hb.own hin rfl) rfl) fun p hp =>
      hke ?_ pid p (mem_move.mp hp)
    · apply active_update
      intro r _ _
      simp [active, Task.lease, Task.held]
    · intro task hpt
      cases hpt
      exact mem_map.mpr ⟨t, ht, rfl⟩
  | @idle pid skip snapshot now hin =>
    exact h.of_steady rfl rfl rfl rfl id (following_stop (hb.own hin rfl)) fun p hp => h.claimed p (mem_stop.mp hp).1
  | @running pid task hin =>
    refine h.of_steady rfl rfl rfl (map_update fun _ _ => rfl) ?_ (following_move (hb.own hin rfl) rfl) fun p hp =>
      hke ?_ pid p (mem_move.mp hp)
    · apply active_update
      intro r _ _
      simp [active, Task.held]
    · intro task' hpt
      cases hpt
      exact h.claimed _ hin task rfl
  | @retry pid task success next hin =>
    refine h.of_steady rfl rfl rfl (map_update fun _ _ => rfl) ?_ (following_stop (hb.own hin rfl)) fun p hp =>
      h.claimed p (mem_stop.mp hp).1
    apply active_update
    intro r _ _
    simp [active, Task.settle, Task.queued]
  | finish hin => exact h.finish hb hin rfl
  | @follow pid locked task ending next rest hin hpo =>
    refine h.follow hb hin ?_ rfl
    rintro rfl
    exact hok _ hpo rfl
  | @crash pid =>
    refine h.of_steady rfl rfl rfl rfl id (following_stop ?_) fun p hp => h.claimed p (mem_stop.mp hp).1
    intro p hp hpid
    obtain ⟨q, hq⟩ := Option.isSome_iff_exists.mp (find?_isSome (p := fun p : Poll => p.pid = pid).mpr ⟨p, hp, by simpa⟩)
    have hqp : q.pid = pid := by simpa using find?_some hq
    rw [hb.single p hp q (mem_of_find?_eq_some hq) (hpid.trans hqp.symm)]
    exact hok q.point (by simp [World.point, hq])

theorem progress_start : Progress (provisionResources clock project) := by
  obtain ⟨t, htas, -, hty, -, hact⟩ := createTask_tasks .provisionDb
    (w := { clock, uuid := 0, project, status := .creating, activated := false, tasks := [], polls := [], log := [] })
  rw [nil_append] at htas
  refine ⟨by simp [World.provisionResources, World.createTask], ?_, by simp [World.provisionResources, World.createTask],
    by simp [World.provisionResources, World.createTask], ?_, ?_⟩
  · intro type hin
    rw [provisionResources, htas, map_singleton, mem_singleton, hty] at hin
    rw [hin]
    decide
  · rintro (hst | ⟨type, hin, hcl⟩)
    · cases hst
    · rw [provisionResources, htas, map_singleton, mem_singleton, hty] at hin
      rw [hin] at hcl
      cases hcl
  · exact .inr (.inl ⟨t, by rw [provisionResources, htas]; exact mem_singleton_self t, hact⟩)

/-! ## 一つの試みの登録 -/

def Entry.task : Entry → Task
  | .ended task _ | .followed task _ => task

def Point.left : Point → TaskType → Nat
  | .following _ _ rest, type => rest.count (.enqueue type)
  | .claimed _, _ | .executing _, _ => 1
  | .recovered, _ | .claiming .., _ => 0

def Issued (tasks : List Task) (task : Task) : Prop := ∃ t ∈ tasks, t.id = task.id ∧ task.attempt ≤ t.attempt

structure Counted (w : World) : Prop where
  polls : ∀ p ∈ w.polls, ∀ task, p.point.task = some task → Issued w.tasks task
  log : ∀ e ∈ w.log, Issued w.tasks e.task
  distinct : ∀ p ∈ w.polls, ∀ q ∈ w.polls, ∀ t u, p.point.task = some t → q.point.task = some u →
    t.id = u.id → t.attempt = u.attempt → p.pid = q.pid
  once : ∀ id n type, w.enqueued id n type ≤ 1
  left : ∀ p ∈ w.polls, ∀ t, p.point.task = some t → ∀ type, w.enqueued t.id t.attempt type + p.point.left type ≤ 1

theorem Issued.update {task p f} (h : Issued tasks task)
    (hid : ∀ t, (f t).id = t.id) (hatt : ∀ t, t.attempt ≤ (f t).attempt) : Issued (update p f tasks) task := by
  obtain ⟨t, ht, htid, hle⟩ := h
  refine ⟨_, mem_update.mpr ⟨t, ht, rfl⟩, ?_⟩
  split
  · exact ⟨(hid t).trans htid, hle.trans (hatt t)⟩
  · exact ⟨htid, hle⟩

theorem Counted.of_steady (h : Counted w) (his : ∀ task, Issued w.tasks task → Issued w'.tasks task)
    (hlog : ∀ e ∈ w'.log, Issued w'.tasks e.task) (henq : ∀ id n type, w'.enqueued id n type = w.enqueued id n type)
    (hpos : ∀ p ∈ w'.polls, ∀ task, p.point.task = some task →
      ∃ q ∈ w.polls, q.pid = p.pid ∧ q.point.task = some task ∧ ∀ type, p.point.left type ≤ q.point.left type) : Counted w' := by
  refine ⟨?_, hlog, ?_, ?_, ?_⟩
  · grind [h.polls]
  · grind [h.distinct]
  · intro id n type
    rw [henq]
    exact h.once id n type
  · intro p hp t ht type
    obtain ⟨q, hq, -, hqt, hle⟩ := hpos p hp t ht
    rw [henq]
    exact (Nat.add_le_add_left (hle type) _).trans (h.left q hq t hqt type)

theorem Base.attempt_le (hb : Base w) (ht : t ∈ w.tasks) {task} (hi : Issued w.tasks task)
    (hid : task.id = t.id) : task.attempt ≤ t.attempt := by
  obtain ⟨r, hr, hrid, hle⟩ := hi
  rw [eq_of_key hb.nodup hr ht (hrid.trans hid)] at hle
  exact hle

theorem enqueued_eq_zero (hb : Base w) (h : Counted w) (ht : t ∈ w.tasks) (type : TaskType) :
    w.enqueued t.id (t.attempt + 1) type = 0 := by
  rw [enqueued, countP_eq_zero]
  intro e he
  cases e with
  | ended task ending => simp
  | followed task c => grind [→ hb.attempt_le, → h.log, Entry.task]

theorem Counted.claim (hb : Base w) (h : Counted w) {duration} (ht : t ∈ w.tasks) :
    Counted ({ w with tasks := Library.update (fun r => r.id = t.id) (fun r => r.lease now duration) w.tasks }.move pid
      (.claimed (t.lease now duration))) := by
  have his : ∀ task, Issued w.tasks task → Issued (Library.update (fun r => r.id = t.id) (fun r => r.lease now duration) w.tasks) task :=
    fun task hi => hi.update (fun _ => rfl) fun _ => Nat.le_succ _
  have hnew : Issued (Library.update (fun r => r.id = t.id) (fun r => r.lease now duration) w.tasks) (t.lease now duration) :=
    ⟨t.lease now duration, mem_update.mpr ⟨t, ht, by simp⟩, rfl, Nat.le_refl _⟩
  -- 前からある試みは、新しい試みと番号が違う。
  have hot : ∀ p ∈ w.polls, ∀ u, p.point.task = some u → u.id = t.id → u.attempt ≠ t.attempt + 1 := by
    intro p hp u hu hid hatt
    have hle := hb.attempt_le ht (h.polls p hp u hu) hid
    omega
  refine ⟨?_, fun e he => his _ (h.log e he), ?_, h.once, ?_⟩
  · intro p hp task hpt
    rcases mem_move.mp hp with rfl | ⟨hp, -⟩
    · cases hpt
      exact hnew
    · exact his task (h.polls p hp task hpt)
  · intro p hp q hq u v hu hv hid hatt
    rcases mem_move.mp hp with rfl | ⟨hp, -⟩
    · rcases mem_move.mp hq with rfl | ⟨hq, -⟩
      · rfl
      · cases hu
        exact absurd hatt.symm (hot q hq v hv hid.symm)
    · rcases mem_move.mp hq with rfl | ⟨hq, -⟩
      · cases hv
        exact absurd hatt (hot p hp u hu hid)
      · exact h.distinct p hp q hq u v hu hv hid hatt
  · intro p hp u hu type
    rcases mem_move.mp hp with rfl | ⟨hp, -⟩
    · cases hu
      have hze := enqueued_eq_zero hb h ht type
      show w.enqueued t.id (t.attempt + 1) type + 1 ≤ 1
      omega
    · exact h.left p hp u hu type

theorem enqueued_followed {task c} (hlog : w'.log = .followed task c :: w.log) (id n) (type : TaskType) : w'.enqueued id n type =
      w.enqueued id n type + if task.id = id ∧ task.attempt = n ∧ c = .enqueue type then 1 else 0 := by
  simp [enqueued, hlog, countP_cons]

theorem Issued.write {task} (h : Issued w.tasks task) (locked c) : Issued (w.write locked c).tasks task := by
  cases c with
  | pause => exact h
  | activate =>
    simp only [World.write, World.activate]
    split <;> exact h
  | enqueue type =>
    obtain ⟨t, htas, -⟩ := createTask_tasks (w := w) type
    obtain ⟨r, hr, hid, hle⟩ := h
    exact ⟨r, by simp [World.write, htas, hr], hid, hle⟩

theorem Counted.follow (h : Counted w) {task ending next rest locked} (hin : ⟨pid, .following task ending (next :: rest)⟩ ∈ w.polls)
    (hw : w' = follow { w.write locked next with log := .followed task next :: w.log } pid task ending rest) :
    Counted w' := by
  have hlog : w'.log = .followed task next :: w.log := by rw [hw, follow_log]
  have henq := enqueued_followed hlog
  have his : ∀ u, Issued w.tasks u → Issued w'.tasks u := by
    intro u hu
    rw [hw, follow_tasks]
    exact hu.write locked next
  have hpos : ∀ p ∈ w'.polls, p = ⟨pid, .following task ending rest⟩ ∨ (p ∈ w.polls ∧ p.pid ≠ pid) := by
    intro p hp
    rw [hw, mem_follow, write_polls] at hp
    exact hp.imp_left And.left
  have hse := h.left _ hin task rfl
  simp only [Point.left, count_cons, beq_iff_eq] at hse
  refine ⟨?_, ?_, ?_, ?_, ?_⟩
  · intro p hp u hu
    apply his
    rcases hpos p hp with rfl | ⟨hp, -⟩
    · exact h.polls _ hin u hu
    · exact h.polls p hp u hu
  · intro e he
    apply his
    rw [hlog, mem_cons] at he
    rcases he with rfl | he
    · exact h.polls _ hin task rfl
    · exact h.log e he
  · intro p hp q hq u v hu hv hid hatt
    rcases hpos p hp with rfl | ⟨hp, -⟩
    · rcases hpos q hq with rfl | ⟨hq, -⟩
      · rfl
      · exact h.distinct _ hin q hq u v hu hv hid hatt
    · rcases hpos q hq with rfl | ⟨hq, -⟩
      · exact h.distinct p hp ⟨pid, .following task ending (next :: rest)⟩ hin u v hu hv hid hatt
      · exact h.distinct p hp q hq u v hu hv hid hatt
  · intro id n type
    rw [henq]
    split
    next hc =>
      obtain ⟨rfl, rfl, rfl⟩ := hc
      have hle := hse type
      simp only [↓reduceIte] at hle
      omega
    next => exact h.once id n type
  · intro p hp u hu type
    rw [henq]
    rcases hpos p hp with rfl | ⟨hp, hne⟩
    · cases hu
      have hle := hse type
      simp only [true_and, Point.left]
      omega
    · have hot : ¬ (task.id = u.id ∧ task.attempt = u.attempt ∧ next = .enqueue type) := by
        rintro ⟨hid, hatt, -⟩
        exact hne (h.distinct p hp _ hin u task hu rfl hid.symm hatt.symm)
      rw [if_neg hot]
      exact h.left p hp u hu type

theorem Task.recover_attempt (t : Task) (now) : (t.recover now).attempt = t.attempt := by
  simp only [Task.recover]
  split
  · rfl
  · split <;> rfl

theorem Change.counted (hb : Base w) (h : Counted w) (hc : Change w e w') : Counted w' := by
  -- 前からの過程は、そのままである。
  have hke : ∀ p ∈ w.polls, ∀ task, p.point.task = some task →
      ∃ q ∈ w.polls, q.pid = p.pid ∧ q.point.task = some task ∧ ∀ type, p.point.left type ≤ q.point.left type :=
    fun p hp task ht => ⟨p, hp, rfl, ht, fun _ => Nat.le_refl _⟩
  cases hc with
  | same => exact h
  | tick elapsed => exact ⟨h.polls, h.log, h.distinct, h.once, h.left⟩
  | @recover pid hno =>
    have his : ∀ task, Issued w.tasks task → Issued (recoverExpiredLeases w.tasks w.clock none allowedTaskTypes) task :=
      fun task hi => hi.update (fun t => Task.recover_id t _) fun t => Nat.le_of_eq (Task.recover_attempt t _).symm
    refine h.of_steady his (fun e he => his _ (h.log e he)) (fun _ _ _ => rfl) ?_
    intro p hp task ht
    rcases mem_move.mp hp with rfl | ⟨hp, -⟩
    · cases ht
    · exact hke p hp task ht
  | @begin pid hin =>
    refine h.of_steady (fun _ hi => hi) h.log (fun _ _ _ => rfl) ?_
    intro p hp task ht
    rcases mem_move.mp hp with rfl | ⟨hp, -⟩
    · cases ht
    · exact hke p hp task ht
  | claim hin ht => exact h.claim hb ht
  | idle hin | crash => exact h.of_steady (fun _ hi => hi) h.log (fun _ _ _ => rfl) fun p hp => hke p (mem_stop.mp hp).1
  | @running pid task hin =>
    have his : ∀ u, Issued w.tasks u → Issued (markTaskRunning w.tasks task.id) u :=
      fun u hi => hi.update (fun _ => rfl) fun _ => Nat.le_refl _
    refine h.of_steady his (fun e he => his _ (h.log e he)) (fun _ _ _ => rfl) ?_
    intro p hp u hu
    rcases mem_move.mp hp with rfl | ⟨hp, -⟩
    · exact ⟨_, hin, rfl, hu, fun _ => Nat.le_refl _⟩
    · exact hke p hp u hu
  | @retry pid task success next hin =>
    have his : ∀ u, Issued w.tasks u → Issued (scheduleRetry w.tasks task.id failureMessage next) u :=
      fun u hi => hi.update (fun _ => rfl) fun _ => Nat.le_refl _
    exact h.of_steady his (fun e he => his _ (h.log e he)) (fun _ _ _ => rfl) fun p hp => hke p (mem_stop.mp hp).1
  | @finish pid task success ending hin =>
    have his : ∀ u, Issued w.tasks u → Issued (update (fun t => t.id = task.id) (ending.settle w.clock) w.tasks) u :=
      fun u hi => hi.update (Ending.settle_id _ _) fun t => Nat.le_of_eq (by cases ending <;> rfl)
    refine h.of_steady (by simpa using his) ?_ ?_ ?_
    · intro e he
      rw [follow_log, mem_cons] at he
      rw [follow_tasks]
      rcases he with rfl | he
      · exact his _ (h.polls _ hin task rfl)
      · exact his _ (h.log e he)
    · intro id n type
      simp [enqueued]
    · intro p hp u hu
      rcases mem_follow.mp hp with ⟨rfl, -⟩ | ⟨hp, -⟩
      · exact ⟨_, hin, rfl, hu, followUps_count ending task.taskType⟩
      · exact hke p hp u hu
  | follow hin hpo => exact h.follow hin rfl

/-! ## 走行 -/

theorem counted_reached (es) : Counted (reached clock project es) := by
  have hsta : Counted (World.provisionResources clock project) := by
    constructor <;> simp [World.provisionResources, World.createTask, World.enqueued]
  refine (run_invariant (I := fun w => Base w ∧ Counted w) ?_ ⟨base_start clock project, hsta⟩).2
  exact fun w e h => ⟨(step_change h.1.nodup e).base h.1, (step_change h.1.nodup e).counted h.1 h.2⟩

theorem progress_reached (es) (h : Along step Uninterrupted (World.provisionResources clock project) es) : Progress (reached clock project es) := by
  refine (h.invariant (I := fun w => Base w ∧ Progress w) ?_ ⟨base_start clock project, progress_start clock project⟩).2
  exact fun w e hw hc => ⟨(step_change hw.1.nodup e).base hw.1, (step_change hw.1.nodup e).progress hw.1 hw.2 hc⟩

end Supacloud.Tasks.Saga
