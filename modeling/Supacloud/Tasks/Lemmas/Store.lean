import Supacloud.Tasks.Background

/-!
# 手続きの分解

成功した手続きは、満たされた条件と、書き換えの中身に分解できる。
-/

namespace Supacloud.Tasks

open Library List

variable {db db' : Db} {key : Key} {duration : Nat} {now : Timestamp} {skip : List Uuid} {snapshot tasks : List Task} {t : Task}

theorem Task.held_iff : t.held = true ↔ t.status = .leased ∨ t.status = .running := by
  simp [Task.held]

theorem Task.queued_iff : t.queued = true ↔ t.status = .pending ∨ t.status = .retryScheduled := by
  simp [Task.queued]

theorem Task.not_queued_of_held (h : t.held = true) : t.queued = false := by
  rcases Task.held_iff.mp h with hs | hs <;> simp [Task.queued, hs]

theorem Task.not_held_of_queued (h : t.queued = true) : t.held = false := by
  rcases Task.queued_iff.mp h with hs | hs <;> simp [Task.held, hs]

theorem Task.runnable_iff : t.runnable now = true ↔ t.queued = true ∧ t.runAt ≤ now ∧ t.cancelRequestedAt = none := by
  simp [Task.runnable]

theorem Task.expired_mono {later} (h : t.expired now = true) (hle : now ≤ later) : t.expired later = true := by
  simp only [Task.expired, Option.any_eq_true, decide_eq_true_eq] at h ⊢
  obtain ⟨u, hu, hle'⟩ := h
  exact ⟨u, hu, hle'.trans hle⟩

/-! ## 行の取り出し -/

structure Locks (db : Db) (key : Key) (t : Task) : Prop where
  mem : t ∈ db.tasks
  id : t.id = key.id
  projectRef : t.projectRef = key.projectRef
  edge : t.taskType = .edgeFunction
  attempt : t.attempt = key.attempt

theorem locked_locks (h : db.locked key = some t) : Locks db key t := by
  have hp := find?_some h
  simp only [Key.matches, decide_eq_true_eq] at hp
  exact ⟨mem_of_find?_eq_some h, hp.1, hp.2.1, hp.2.2.1, hp.2.2.2⟩

section

variable (hn : (tasks.map Task.id).Nodup)

include hn

theorem candidate_mem {admits} (h : candidate tasks snapshot now skip admits = some t) :
    t ∈ tasks ∧ t.runnable now = true ∧ ∃ s ∈ snapshot, s.id = t.id ∧ s.runnable now = true ∧ admits s = true := by
  simp only [candidate, Option.bind_eq_bind, Option.bind_eq_some_iff] at h
  obtain ⟨s, hs, ht⟩ := h
  have hm := mem_of_mem_head? hs
  rw [mem_insertionSort, mem_filter] at hm
  obtain ⟨hsn, hc⟩ := hm
  simp only [any_eq_true, Bool.decide_and, Bool.and_eq_true, decide_eq_true_eq] at hc
  obtain ⟨hrun, hadm, -, r, hr, hid, hrr⟩ := hc
  have hid' : t.id = s.id := by simpa using find?_some ht
  have hmem := mem_of_find?_eq_some ht
  have heq : t = r := eq_of_key hn hmem hr (hid'.trans hid.symm)
  exact ⟨hmem, heq ▸ hrr, s, hsn, hid'.symm, hrun, hadm⟩

theorem leaseCandidate_some {admits tasks' leaseSeconds leased}
    (h : leaseCandidate tasks snapshot now skip admits leaseSeconds = some (leased, tasks')) :
    ∃ t ∈ tasks, t.runnable now = true ∧ leased = t.lease now leaseSeconds ∧
      tasks' = update (fun r => r.id = t.id) (fun r => r.lease now leaseSeconds) tasks ∧
      ∃ s ∈ snapshot, s.id = t.id ∧ admits s = true := by
  simp only [leaseCandidate, Option.bind_eq_bind, Option.bind_eq_some_iff, Option.pure_def, Option.some.injEq, Prod.mk.injEq] at h
  obtain ⟨t, ht, rfl, rfl⟩ := h
  obtain ⟨hmem, hrun, s, hs, hid, -, hadm⟩ := candidate_mem hn ht
  exact ⟨t, hmem, hrun, rfl, rfl, s, hs, hid, hadm⟩

theorem claimNextTask_some {projects tasks' o leased} (h : claimNextTask projects tasks snapshot now skip o = some (leased, tasks')) :
    ∃ t ∈ tasks, ∃ duration, t.runnable now = true ∧ leased = t.lease now duration ∧
      tasks' = update (fun r => r.id = t.id) (fun r => r.lease now duration) tasks := by
  obtain ⟨t, ht, hrun, hl, htas, -⟩ := leaseCandidate_some hn h
  exact ⟨t, ht, _, hrun, hl, htas⟩

end

/-! ## 手続きの分解 -/

theorem identity_ok {least u} (h : identity key least = .ok u) : least ≤ key.attempt :=
  (require_eq_ok.mp h).1

theorem renew_ok {b} (h : renew db key duration = .ok (db', b)) :
    db' = db ∨ ∃ t, Locks db key t ∧ t.held = true ∧ t.cancelRequestedAt = none ∧ t.live db.clock = true ∧
      db' = db.set t.id fun r => { r with leaseUntil := some (db.clock + seconds duration) } := by
  simp only [renew, bind_eq_ok] at h
  obtain ⟨-, -, -, -, h⟩ := h
  split at h
  next => exact .inl (congrArg Prod.fst (pure_eq_ok.mp h)).symm
  next t ht =>
    split at h
    next hc =>
      have hl := locked_locks ht
      have hdb := congrArg Prod.fst (pure_eq_ok.mp h)
      exact .inr ⟨t, hl, hc.1, hc.2.1, hc.2.2, by rw [hl.id]; exact hdb.symm⟩
    next => exact .inl (congrArg Prod.fst (pure_eq_ok.mp h)).symm

def Key.opening (key : Key) : AttemptRow :=
  { taskId := key.id
    projectRef := key.projectRef
    attemptNo := key.attempt
    status := .running
    completedAt := none
    error := none }

def Task.begin (t : Task) (clock : Timestamp) (duration : Nat) : Task :=
  { t with
    status := .running
    leaseUntil := some (clock + seconds duration)
    startedAt := t.startedAt.or (some clock) }

theorem start_ok (h : start db key duration = .ok (db', true)) :
    ∃ t, Locks db key t ∧ 1 ≤ key.attempt ∧ t.status = .leased ∧ t.cancelRequestedAt = none ∧ t.live db.clock = true ∧
      db.recorded key.id key.attempt = false ∧ db' = { db with
        attempts := key.opening :: db.attempts
        tasks := update (fun r => r.id = t.id) (fun r => r.begin db.clock duration) db.tasks } := by
  simp only [start, bind_eq_ok] at h
  obtain ⟨_, hid, _, -, h⟩ := h
  split at h
  next => simp at h
  next t ht =>
    split at h
    next hc =>
      simp only [bind_eq_ok, require_eq_ok, pure_eq_ok, Prod.mk.injEq, and_true] at h
      obtain ⟨-, hr, rfl⟩ := h
      have hl := locked_locks ht
      exact ⟨t, hl, identity_ok hid, hc.1, hc.2.1, hc.2.2, by simpa using hr, by rw [hl.id]; rfl⟩
    next => simp at h

def Task.decided (t : Task) (desired : Outcome) : Outcome := if t.cancelRequestedAt = none then desired else .cancelled

theorem finish_ok {input status} (h : finish db key input = .ok (db', some status)) :
    ∃ t, Locks db key t ∧ t.held = true ∧ t.live db.clock = true ∧ status = t.decided input.status ∧
      ∃ row error attempts, row.taskId = key.id ∧ row.projectRef = key.projectRef ∧ row.attemptNo = key.attempt ∧
        row.status = status.attempt ∧ upsertAttempt db.attempts row = some attempts ∧ db' = { db with
          attempts
          tasks := update (fun r => r.id = t.id) (fun r => r.finish db.clock status error input.nextRunAt) db.tasks } := by
  simp only [finish, bind_eq_ok] at h
  obtain ⟨-, -, -, -, h⟩ := h
  split at h
  next => simp at h
  next t ht =>
    split at h
    next hc =>
      simp only [bind_eq_ok, fetch_eq_ok, pure_eq_ok, Prod.mk.injEq, Option.some.injEq] at h
      obtain ⟨attempts, hu, rfl, rfl⟩ := h
      have hl := locked_locks ht
      refine ⟨t, hl, hc.1, hc.2, rfl, _, _, attempts, ?_, ?_, ?_, ?_, hu, by rw [hl.id]; rfl⟩ <;> rfl
    next => simp at h

theorem requestCancellation_ok {status} (h : requestCancellation db key = .ok (db', some status)) :
    ∃ t, Locks db key t ∧ ((t.queued = true ∧ status = .cancelled) ∨ (t.held = true ∧ status = t.status)) ∧
      db' = db.set t.id fun r => r.requestCancel db.clock := by
  simp only [requestCancellation, bind_eq_ok] at h
  obtain ⟨-, -, h⟩ := h
  split at h
  next => simp at h
  next t ht =>
    split at h
    next hc =>
      simp only [pure_eq_ok, Prod.mk.injEq, Option.some.injEq] at h
      obtain ⟨rfl, rfl⟩ := h
      have hl := locked_locks ht
      refine ⟨t, hl, ?_, by rw [hl.id]⟩
      rcases hc with hq | hh
      · exact .inl ⟨hq, by simp [hq]⟩
      · exact .inr ⟨hh, by simp [Task.not_queued_of_held hh]⟩
    next => simp at h

theorem mem_abandonedTasks (h : t ∈ abandonedTasks db skip) : t ∈ db.tasks ∧ t.abandoned db.clock = true := by
  have hm := mem_of_mem_take h
  rw [mem_insertionSort, mem_filter] at hm
  have hc := of_decide_eq_true hm.2
  exact ⟨hm.1, hc.1⟩

theorem Task.abandoned_iff {clock} : t.abandoned clock = true ↔
    t.taskType = .edgeFunction ∧ t.held = true ∧ t.cancelRequestedAt ≠ none ∧ t.expired clock = true := by
  simp [Task.abandoned]

theorem Task.recoverable_held {projectRef} {taskTypes : List TaskType} (h : t.recoverable now projectRef taskTypes = true) :
    t.held = true ∧ t.expired now = true ∧ t.cancelRequestedAt = none := by
  simp only [Task.recoverable, decide_eq_true_eq] at h
  exact ⟨h.1, h.2.1, h.2.2.1⟩

/-! ## 何も書かずに終わる手続き -/

theorem start_refused (h : start db key duration = .ok (db', false)) : db' = db := by
  simp only [start, bind_eq_ok] at h
  obtain ⟨-, -, -, -, h⟩ := h
  split at h
  next => exact (congrArg Prod.fst (pure_eq_ok.mp h)).symm
  next t ht =>
    split at h
    next =>
      simp only [bind_eq_ok, pure_eq_ok, Prod.mk.injEq, Bool.true_eq_false, and_false, exists_false] at h
    next => exact (congrArg Prod.fst (pure_eq_ok.mp h)).symm

theorem finish_ignored {input} (h : finish db key input = .ok (db', none)) : db' = db := by
  simp only [finish, bind_eq_ok] at h
  obtain ⟨-, -, -, -, h⟩ := h
  split at h
  next => exact (congrArg Prod.fst (pure_eq_ok.mp h)).symm
  next t ht =>
    split at h
    next =>
      simp only [bind_eq_ok, pure_eq_ok, Prod.mk.injEq, reduceCtorEq, and_false, exists_false] at h
    next => exact (congrArg Prod.fst (pure_eq_ok.mp h)).symm

theorem requestCancellation_ignored (h : requestCancellation db key = .ok (db', none)) : db' = db := by
  simp only [requestCancellation, bind_eq_ok] at h
  obtain ⟨-, -, h⟩ := h
  split at h
  next => exact (congrArg Prod.fst (pure_eq_ok.mp h)).symm
  next t ht =>
    split at h
    next => simp at h
    next => exact (congrArg Prod.fst (pure_eq_ok.mp h)).symm

end Supacloud.Tasks
