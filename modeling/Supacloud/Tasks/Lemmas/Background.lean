import Supacloud.Tasks.Lemmas.Store

/-!
# 一つの仕事の不変条件

手続きの記録と、試みの記録の行が、仕事の行と合っている。
-/

namespace Supacloud.Tasks.Background

open Library List

variable {log log' : List Note} {attempts attempts' : List AttemptRow} {t : Task} {clock now : Timestamp}

def Note.id : Note → Uuid
  | .claimed id _ | .started id _ | .dispatched id _ | .finished id _ _ | .cancelRequested id _ _ | .retried id _ => id

def Permits (log : List Note) (id : Uuid) (attempt : Nat) : Prop :=
  Note.started id attempt ∉ log ∨ Note.finished id attempt .retryScheduled ∈ log ∨ Note.retried id attempt ∈ log

def Doomed (log : List Note) (id : Uuid) (attempt : Nat) : Prop :=
  Note.cancelRequested id attempt .leased ∈ log ∨ Note.cancelRequested id attempt .running ∈ log

structure TaskInv (log : List Note) (attempts : List AttemptRow) (t : Task) : Prop where
  held : t.held = true → 1 ≤ t.attempt
  started : ∀ n, Note.started t.id n ∈ log → t.taskType = .edgeFunction ∧ n ≤ t.attempt ∧ (n = t.attempt → t.status ≠ .leased)
  queued : t.queued = true → Permits log t.id t.attempt
  finished : ∀ n s, Note.finished t.id n s ∈ log → n ≤ t.attempt ∧ (n = t.attempt → t.held = false)
  doomed : ∀ n, Doomed log t.id n → n ≤ t.attempt ∧ (n = t.attempt →
    (t.held = true ∧ t.cancelRequestedAt ≠ none) ∨ t.status = .cancelled ∨ t.status = .pending)
  history : ∀ h ∈ attempts, h.taskId = t.id → t.taskType = .edgeFunction ∧ h.projectRef = t.projectRef ∧
    h.attemptNo ≤ t.attempt ∧ (h.attemptNo = t.attempt → t.status ≠ .leased)
  running : t.status = .running → t.taskType = .edgeFunction →
    ∃ h ∈ attempts, h.taskId = t.id ∧ h.attemptNo = t.attempt ∧ h.status = .running
  doomedHistory : ∀ h ∈ attempts, h.taskId = t.id → Doomed log t.id h.attemptNo → h.status = .running ∨ h.status = .cancelled

def Note.concerns (id : Uuid) : Note → Prop
  | .started i _ | .finished i _ _ | .cancelRequested i _ _ | .retried i _ => i = id
  | .claimed .. | .dispatched .. => False

theorem TaskInv.frame (h : TaskInv log attempts t) (hlog : ∀ note, note.concerns t.id → (note ∈ log' ↔ note ∈ log))
    (hatt : ∀ row, row.taskId = t.id → (row ∈ attempts' ↔ row ∈ attempts)) : TaskInv log' attempts' t := by
  have hs : ∀ n, Note.started t.id n ∈ log' ↔ Note.started t.id n ∈ log := fun n => hlog _ rfl
  have hf : ∀ n s, Note.finished t.id n s ∈ log' ↔ Note.finished t.id n s ∈ log := fun n s => hlog _ rfl
  have hr : ∀ n, Note.retried t.id n ∈ log' ↔ Note.retried t.id n ∈ log := fun n => hlog _ rfl
  have hd : ∀ n, Doomed log' t.id n ↔ Doomed log t.id n := fun n => or_congr (hlog _ rfl) (hlog _ rfl)
  refine ⟨h.held, ?_, ?_, ?_, ?_, ?_, ?_, ?_⟩
  · exact fun n hn => h.started n ((hs n).mp hn)
  · intro hq
    have hp := h.queued hq
    rwa [Permits, ← hs, ← hf, ← hr] at hp
  · exact fun n s hn => h.finished n s ((hf n s).mp hn)
  · exact fun n hn => h.doomed n ((hd n).mp hn)
  · exact fun row hrow hid => h.history row ((hatt row hid).mp hrow) hid
  · grind [→ h.running]
  · exact fun row hrow hid hn => h.doomedHistory row ((hatt row hid).mp hrow) hid ((hd _).mp hn)

/-! ## 書き換わる行 -/

theorem TaskInv.create (hlog : ∀ note ∈ log, ¬ note.concerns t.id) (hatt : ∀ row ∈ attempts, row.taskId ≠ t.id)
    (hs : t.status = .pending) : TaskInv log attempts t := by
  have hno : ∀ note, note.concerns t.id → note ∉ log := fun note hid hmem => hlog note hmem hid
  refine ⟨?_, ?_, ?_, ?_, ?_, ?_, ?_, ?_⟩
  · simp [Task.held, hs]
  · exact fun n hn => absurd hn (hno (.started t.id n) rfl)
  · exact fun _ => .inl (hno (.started t.id t.attempt) rfl)
  · exact fun n s hn => absurd hn (hno (.finished t.id n s) rfl)
  · exact fun n hn => absurd hn (not_or.mpr ⟨hno (.cancelRequested t.id n _) rfl, hno (.cancelRequested t.id n _) rfl⟩)
  · exact fun row hrow hid => absurd hid (hatt row hrow)
  · simp [hs]
  · exact fun row hrow hid => absurd hid (hatt row hrow)

theorem TaskInv.claim (h : TaskInv log attempts t) (duration) :
    TaskInv (.claimed t.id (t.attempt + 1) :: log) attempts (t.lease now duration) := by
  have hd : ∀ n, Doomed (.claimed t.id (t.attempt + 1) :: log) t.id n ↔ Doomed log t.id n := by simp [Doomed]
  refine ⟨?_, ?_, ?_, ?_, ?_, ?_, ?_, ?_⟩
  · exact fun _ => Nat.succ_le_succ (Nat.zero_le _)
  · grind [→ h.started, Task.lease]
  · simp [Task.queued, Task.lease]
  · grind [→ h.finished, Task.lease]
  · intro n hn
    obtain ⟨hle, -⟩ := h.doomed n ((hd n).mp hn)
    exact ⟨Nat.le_succ_of_le hle, fun heq => absurd hle (by rw [heq]; exact Nat.not_succ_le_self _)⟩
  · intro row hrow hid
    obtain ⟨hty, href, hle, -⟩ := h.history row hrow hid
    exact ⟨hty, href, Nat.le_succ_of_le hle, fun heq => absurd hle (by rw [heq]; exact Nat.not_succ_le_self _)⟩
  · simp [Task.lease]
  · exact fun row hrow hid hn => h.doomedHistory row hrow hid ((hd _).mp hn)

structure SameAttempt (t t' : Task) : Prop where
  id : t'.id = t.id
  projectRef : t'.projectRef = t.projectRef
  taskType : t'.taskType = t.taskType
  attempt : t'.attempt = t.attempt

theorem TaskInv.ended {t'} (h : TaskInv log attempts t) (hsa : SameAttempt t t') (hhe : t'.held = false)
    (hqu : t'.queued = true → Permits log' t.id t.attempt)
    (hlog : ∀ note, note ∈ log' → note.concerns t.id → note ∈ log ∨ (∃ s, note = .finished t.id t.attempt s) ∨
      note = .retried t.id t.attempt ∨ note = .cancelRequested t.id t.attempt .cancelled)
    (hdo : Doomed log' t.id t.attempt → t'.status = .cancelled ∨ t'.status = .pending)
    (hatt : ∀ row ∈ attempts', row.taskId = t.id → (∃ old ∈ attempts, old.taskId = t.id ∧ old.projectRef = row.projectRef ∧
        old.attemptNo = row.attemptNo ∧ (row.status = old.status ∨ row.status = .cancelled ∨ row.attemptNo = t.attempt)) ∨
      t.taskType = .edgeFunction ∧ row.projectRef = t.projectRef ∧ row.attemptNo = t.attempt)
    (hrow : ∀ row ∈ attempts', row.taskId = t.id → row.attemptNo = t.attempt → Doomed log' t.id t.attempt →
      row.status = .running ∨ row.status = .cancelled) : TaskInv log' attempts' t' := by
  have hnl : t'.status ≠ .leased := fun hs => by simp [Task.held, hs] at hhe
  have hnr : t'.status ≠ .running := fun hs => by simp [Task.held, hs] at hhe
  have hd : ∀ n, Doomed log' t.id n → Doomed log t.id n := by
    intro n hn
    rcases hn with hn | hn
    · rcases hlog _ hn rfl with hn | ⟨s, hn⟩ | hn | hn
      · exact .inl hn
      all_goals simp at hn
    · rcases hlog _ hn rfl with hn | ⟨s, hn⟩ | hn | hn
      · exact .inr hn
      all_goals simp at hn
  refine ⟨fun hh => by simp [hhe] at hh, ?_, ?_, ?_, ?_, ?_, ?_, ?_⟩
  · intro n hn
    rw [hsa.id] at hn
    rw [hsa.taskType, hsa.attempt]
    rcases hlog _ hn rfl with hn | ⟨s, hn⟩ | hn | hn
    · exact ⟨(h.started n hn).1, (h.started n hn).2.1, fun _ => hnl⟩
    all_goals simp at hn
  · intro hq
    rw [hsa.id, hsa.attempt]
    exact hqu hq
  · intro n s hn
    rw [hsa.id] at hn
    rw [hsa.attempt]
    rcases hlog _ hn rfl with hn | ⟨s', hn⟩ | hn | hn
    · exact ⟨(h.finished n s hn).1, fun _ => hhe⟩
    · simp only [Note.finished.injEq, true_and] at hn
      exact ⟨Nat.le_of_eq hn.1, fun _ => hhe⟩
    all_goals simp at hn
  · intro n hn
    rw [hsa.id] at hn
    rw [hsa.attempt]
    refine ⟨(h.doomed n (hd n hn)).1, ?_⟩
    rintro rfl
    exact .inr (hdo hn)
  · grind [hsa.id, hsa.taskType, hsa.projectRef, hsa.attempt, h.history]
  · exact fun hs => absurd hs hnr
  · grind [hsa.id, h.doomedHistory]

theorem TaskInv.not_doomed (h : TaskInv log attempts t) (hhe : t.held = true) (hc : t.cancelRequestedAt = none) :
    ¬ Doomed log t.id t.attempt := by
  intro hd
  rcases (h.doomed _ hd).2 rfl with ⟨-, hne⟩ | hs | hs
  · exact hne hc
  all_goals simp [Task.held, hs] at hhe

theorem Task.recover_same (t now) : SameAttempt t (t.recover now) := by
  simp only [Task.recover]
  split
  · exact ⟨rfl, rfl, rfl, rfl⟩
  · split <;> exact ⟨rfl, rfl, rfl, rfl⟩

theorem Task.recover_status (t : Task) (now) :
    ((t.recover now).status = .deadLettered) ∨ ((t.recover now).status = .retryScheduled ∧ t.unknownOutcome = false) := by
  simp only [Task.recover]
  split
  next => exact .inl rfl
  next h =>
    split
    · exact .inr ⟨rfl, by simpa using h⟩
    · exact .inl rfl

theorem TaskInv.recover (h : TaskInv log attempts t) (hhe : t.held = true) (hc : t.cancelRequestedAt = none) :
    TaskInv log attempts (t.recover now) := by
  refine h.ended (Task.recover_same t now) ?_ ?_ (fun _ hn _ => .inl hn) (fun hd => absurd hd (h.not_doomed hhe hc)) ?_
    (fun row _ _ _ hd => absurd hd (h.not_doomed hhe hc))
  · rcases Task.recover_status t now with hs | ⟨hs, -⟩ <;> simp [Task.held, hs]
  · intro hq
    rcases Task.recover_status t now with hs | ⟨-, hu⟩
    · simp [Task.queued, hs] at hq
    · refine .inl fun hsta => ?_
      obtain ⟨hty, -, hnl⟩ := h.started _ hsta
      rcases Task.held_iff.mp hhe with hs | hs
      · exact hnl rfl hs
      · simp [Task.unknownOutcome, hty, hs] at hu
  · exact fun row hrow hid => .inl ⟨row, hrow, hid, rfl, rfl, .inl rfl⟩

theorem TaskInv.renew (h : TaskInv log attempts t) (u) : TaskInv log attempts { t with leaseUntil := u } :=
  ⟨h.held, h.started, h.queued, h.finished, h.doomed, h.history, h.running, h.doomedHistory⟩

theorem TaskInv.start (h : TaskInv log attempts t) {key : Key} (hid : t.id = key.id) (href : t.projectRef = key.projectRef)
    (hty : t.taskType = .edgeFunction) (hat : t.attempt = key.attempt) (hs : t.status = .leased)
    (hc : t.cancelRequestedAt = none) (duration) :
    TaskInv (.started key.id key.attempt :: log) (key.opening :: attempts) (t.begin clock duration) := by
  have hhe : t.held = true := Task.held_iff.mpr (.inl hs)
  have hd : ∀ n, Doomed (.started key.id key.attempt :: log) t.id n ↔ Doomed log t.id n := by simp [Doomed]
  refine ⟨fun _ => h.held hhe, ?_, ?_, ?_, ?_, ?_, ?_, ?_⟩
  · grind [→ h.started, Task.begin]
  · simp [Task.queued, Task.begin]
  · grind [→ h.finished, Task.begin]
  · intro n hn
    have hn := (hd n).mp hn
    refine ⟨(h.doomed n hn).1, ?_⟩
    rintro rfl
    exact absurd hn (h.not_doomed hhe hc)
  · intro row hrow hrid
    rcases mem_cons.mp hrow with rfl | hrow
    · exact ⟨hty, href.symm, Nat.le_of_eq hat.symm, by simp [Task.begin]⟩
    · obtain ⟨-, hre', hle, -⟩ := h.history row hrow hrid
      exact ⟨hty, hre', hle, by simp [Task.begin]⟩
  · exact fun _ _ => ⟨key.opening, mem_cons_self, hid.symm, hat.symm, rfl⟩
  · intro row hrow hrid hn
    rcases mem_cons.mp hrow with rfl | hrow
    · exact .inl rfl
    · exact h.doomedHistory row hrow hrid ((hd _).mp hn)

theorem Outcome.task_not_held (s : Outcome) : s.task ≠ .leased ∧ s.task ≠ .running := by
  cases s <;> simp [Outcome.task]

theorem mem_upsertAttempt {row} (h : upsertAttempt attempts row = some attempts') {r}
    (hr : r ∈ attempts') : r = row ∨ r ∈ attempts ∨ ∃ old ∈ attempts, old.taskId = row.taskId ∧ old.attemptNo = row.attemptNo ∧
      old.projectRef = r.projectRef ∧ r.taskId = row.taskId ∧ r.attemptNo = row.attemptNo ∧ r.status = row.status := by
  simp only [upsertAttempt] at h
  split at h
  next =>
    rw [Option.some.injEq] at h
    subst h
    exact (mem_cons.mp hr).imp id .inl
  next existing hfi =>
    split at h
    next =>
      rw [Option.some.injEq] at h
      subst h
      obtain ⟨old, hold, rfl⟩ := mem_update.mp hr
      by_cases hk : old.taskId = row.taskId ∧ old.attemptNo = row.attemptNo
      · refine .inr (.inr ⟨old, hold, hk.1, hk.2, ?_⟩)
        simp [hk]
      · simp only [hk, decide_false, Bool.false_eq_true, if_false]
        exact .inr (.inl hold)
    next => simp at h

theorem TaskInv.finish (h : TaskInv log attempts t) {key : Key} {row desired} (hid : t.id = key.id)
    (href : t.projectRef = key.projectRef) (hty : t.taskType = .edgeFunction) (hat : t.attempt = key.attempt)
    (hhe : t.held = true) (hrid : row.taskId = key.id) (hrr : row.projectRef = key.projectRef) (hrat : row.attemptNo = key.attempt)
    (hrs : row.status = (t.decided desired).attempt) (hu : upsertAttempt attempts row = some attempts') (error nextRunAt) :
    TaskInv (.finished key.id key.attempt (t.decided desired) :: log) attempts' (t.finish clock (t.decided desired) error nextRunAt) := by
  have hlog : ∀ n, Doomed (.finished key.id key.attempt (t.decided desired) :: log) t.id n ↔ Doomed log t.id n := by
    simp [Doomed]
  have hca : Doomed log t.id t.attempt → t.decided desired = .cancelled := by grind [→ h.doomed, Task.decided, Task.held]
  refine h.ended ⟨rfl, rfl, rfl, rfl⟩ ?_ ?_ ?_ ?_ ?_ ?_
  · simpa [Task.held, Task.finish] using Outcome.task_not_held (t.decided desired)
  · intro hq
    refine .inr (.inl ?_)
    rw [hid, hat]
    generalize t.decided desired = s at hq ⊢
    cases s <;> simp [Task.queued, Task.finish, Outcome.task] at hq ⊢
  · grind
  · intro hd
    have hs := hca ((hlog _).mp hd)
    exact .inl (by simp [Task.finish, hs, Outcome.task])
  · grind [mem_upsertAttempt]
  · grind [h.doomedHistory, Outcome.attempt, mem_upsertAttempt]

theorem TaskInv.cancelQueued (h : TaskInv log attempts t) (hq : t.queued = true) :
    TaskInv (.cancelRequested t.id t.attempt .cancelled :: log) attempts (t.requestCancel clock) := by
  have hhe := Task.not_held_of_queued hq
  have hd : ∀ n, Doomed (.cancelRequested t.id t.attempt .cancelled :: log) t.id n → Doomed log t.id n := by simp [Doomed]
  refine h.ended ⟨rfl, rfl, rfl, rfl⟩ ?_ ?_ ?_ ?_ ?_ ?_
  · simp [Task.held, Task.requestCancel, hq]
  · grind [Task.requestCancel, Task.queued]
  · grind
  · exact fun _ => .inl (by simp [Task.requestCancel, hq])
  · exact fun row hrow hid => .inl ⟨row, hrow, hid, rfl, rfl, .inl rfl⟩
  · exact fun row hrow hid hno hn => h.doomedHistory row hrow hid (hno ▸ hd _ hn)

theorem Task.requestCancel_held {t : Task} (clock) (hhe : t.held = true) :
    (t.requestCancel clock).status = t.status ∧ (t.requestCancel clock).cancelRequestedAt ≠ none := by
  refine ⟨by simp [Task.requestCancel, Task.not_queued_of_held hhe], ?_⟩
  cases hc : t.cancelRequestedAt <;> simp [Task.requestCancel]

theorem TaskInv.cancelHeld (h : TaskInv log attempts t) (hhe : t.held = true) (hty : t.taskType = .edgeFunction)
    (huni : (attempts.map fun row => (row.taskId, row.attemptNo)).Nodup) :
    TaskInv (.cancelRequested t.id t.attempt t.status :: log) attempts (t.requestCancel clock) := by
  obtain ⟨hs, hc⟩ := Task.requestCancel_held clock hhe
  have hhe' : (t.requestCancel clock).held = true := by
    rw [Task.held, hs]
    exact hhe
  have hd : ∀ n, Doomed (.cancelRequested t.id t.attempt t.status :: log) t.id n → n = t.attempt ∨ Doomed log t.id n := by
    intro n hn
    rcases hn with hn | hn
    · rcases mem_cons.mp hn with hn | hn
      · exact .inl (by simp only [Note.cancelRequested.injEq] at hn; exact hn.2.1)
      · exact .inr (.inl hn)
    · rcases mem_cons.mp hn with hn | hn
      · exact .inl (by simp only [Note.cancelRequested.injEq] at hn; exact hn.2.1)
      · exact .inr (.inr hn)
  refine ⟨fun _ => h.held hhe, ?_, ?_, ?_, ?_, ?_, ?_, ?_⟩
  · intro n hn
    rw [hs]
    exact h.started n (by simpa [Task.requestCancel] using hn)
  · intro hq
    rw [Task.not_queued_of_held hhe'] at hq
    simp at hq
  · grind [→ h.finished, Task.requestCancel]
  · intro n hn
    refine ⟨?_, fun _ => .inl ⟨hhe', hc⟩⟩
    rcases hd n hn with rfl | hn
    · exact Nat.le_refl _
    · exact (h.doomed n hn).1
  · intro row hrow hid
    rw [hs]
    exact h.history row hrow hid
  · intro hrun hty'
    rw [hs] at hrun
    exact h.running hrun hty'
  · intro row hrow hid hn
    rcases hd _ hn with hno | hn
    · -- 受け持ったばかりの試みに記録の行はなく、始めた試みの行は実行中である。
      rcases Task.held_iff.mp hhe with hst | hst
      · exact absurd hst ((h.history row hrow hid).2.2.2 hno)
      · obtain ⟨r, hr, hrid, hrno, hrst⟩ := h.running hst hty
        have hkey : (row.taskId, row.attemptNo) = (r.taskId, r.attemptNo) := by
          rw [hid, hno, hrid, hrno]
          rfl
        rw [eq_of_key huni hrow hr hkey]
        exact .inl hrst
    · exact h.doomedHistory row hrow hid hn

theorem TaskInv.sweep (h : TaskInv log attempts t)
    (hatt : ∀ row ∈ attempts', row.taskId = t.id → ∃ old ∈ attempts, old.taskId = t.id ∧ old.projectRef = row.projectRef ∧
      old.attemptNo = row.attemptNo ∧ (row.status = old.status ∨ row.status = .cancelled)) :
    TaskInv log attempts' (t.sweepCancelled clock) := by
  refine h.ended ⟨rfl, rfl, rfl, rfl⟩ rfl (by simp [Task.queued, Task.sweepCancelled]) (fun _ hn _ => .inl hn)
    (fun _ => .inl rfl) ?_ ?_
  · grind
  · grind [h.doomedHistory]

theorem TaskInv.reopen (h : TaskInv log attempts t) : TaskInv (.retried t.id t.attempt :: log) attempts (t.reopen now) := by
  refine h.ended ⟨rfl, rfl, rfl, rfl⟩ rfl (fun _ => .inr (.inr mem_cons_self)) ?_ (fun _ => .inr rfl) ?_ ?_
  · grind
  · exact fun row hrow hid => .inl ⟨row, hrow, hid, rfl, rfl, .inl rfl⟩
  · intro row hrow hid hno hd
    exact h.doomedHistory row hrow hid (by rw [hno]; simpa [Doomed] using hd)

end Supacloud.Tasks.Background

/-! ## 関数の試みの走行の不変条件 -/

namespace Supacloud.Tasks.Background

open Library

def AttemptRow.key (row : AttemptRow) : Uuid × Nat := (row.taskId, row.attemptNo)

inductive Change (w : World) (e : Event) (log' : List Note) (attempts' : List AttemptRow) (t : Task) : Task → Prop where
  | frame : (∀ note : Note, note.concerns t.id → (note ∈ log' ↔ note ∈ w.log)) →
      (∀ row : AttemptRow, row.taskId = t.id → (row ∈ attempts' ↔ row ∈ w.db.attempts)) → Change w e log' attempts' t t
  | claim {now duration} : t.runnable now = true → log' = .claimed t.id (t.attempt + 1) :: w.log →
      attempts' = w.db.attempts → Change w e log' attempts' t (t.lease now duration)
  | recover {started projectRef} {taskTypes : List TaskType} :
      e = .recoverExpiredLeases started projectRef taskTypes →
      t.recoverable (min started w.db.clock) projectRef taskTypes = true → log' = w.log → attempts' = w.db.attempts →
      Change w e log' attempts' t (t.recover (min started w.db.clock))
  | renew {u} : log' = w.log → attempts' = w.db.attempts → Change w e log' attempts' t { t with leaseUntil := u }
  | start {key duration} : Locks w.db key t → t.status = .leased → t.cancelRequestedAt = none →
      log' = .started key.id key.attempt :: w.log → attempts' = key.opening :: w.db.attempts →
      Change w e log' attempts' t (t.begin w.db.clock duration)
  | finish {key completion row error} :
      e = .finish key completion → Locks w.db key t → t.held = true → t.live w.db.clock = true →
      row.taskId = key.id → row.projectRef = key.projectRef → row.attemptNo = key.attempt →
      row.status = (t.decided completion.status).attempt → upsertAttempt w.db.attempts row = some attempts' →
      log' = .finished key.id key.attempt (t.decided completion.status) :: w.log →
      Change w e log' attempts' t (t.finish w.db.clock (t.decided completion.status) error completion.nextRunAt)
  | cancelQueued {key} : e = .requestCancellation key → t.queued = true →
      log' = .cancelRequested t.id t.attempt .cancelled :: w.log → attempts' = w.db.attempts →
      Change w e log' attempts' t (t.requestCancel w.db.clock)
  | cancelHeld : t.held = true → t.taskType = .edgeFunction → log' = .cancelRequested t.id t.attempt t.status :: w.log →
      attempts' = w.db.attempts → Change w e log' attempts' t (t.requestCancel w.db.clock)
  | sweep {skip} : e = .recoverCancelled skip → t ∈ abandonedTasks w.db skip → log' = w.log →
      attempts' = (Tasks.recoverCancelled w.db skip).attempts → Change w e log' attempts' t (t.sweepCancelled w.db.clock)
  | reopen {now} : t.retriable = true → log' = .retried t.id t.attempt :: w.log → attempts' = w.db.attempts →
      Change w e log' attempts' t (t.reopen now)

structure Created (w w' : World) (t : Task) : Prop where
  id : t.id = w.db.uuid
  uuid : w.db.uuid < w'.db.uuid
  status : t.status = .pending
  attempt : t.attempt = 0
  log : w'.log = w.log
  attempts : w'.db.attempts = w.db.attempts

structure Turns (w : World) (e : Event) (w' : World) : Prop where
  rows : ∃ φ : Task → Task, ∃ news : List Task, w'.db.tasks = w.db.tasks.map φ ++ news ∧
    (∀ t ∈ w.db.tasks, (φ t).id = t.id ∧ Change w e w'.log w'.db.attempts t (φ t)) ∧
    (news = [] ∨ ∃ t, news = [t] ∧ Created w w' t)
  uuid : w.db.uuid ≤ w'.db.uuid

structure Sound (w : World) : Prop where
  rows : (w.db.tasks.map Task.id).Nodup
  fresh : ∀ t ∈ w.db.tasks, t.id < w.db.uuid
  known : ∀ note ∈ w.log, ∀ id, note.concerns id → id < w.db.uuid
  owner : ∀ row ∈ w.db.attempts, ∃ t ∈ w.db.tasks, t.id = row.taskId
  unique : (w.db.attempts.map AttemptRow.key).Nodup

theorem Change.id {w e log' attempts' t t'} (h : Change w e log' attempts' t t') : t'.id = t.id := by
  cases h with
  | recover _ hr => exact (Task.recover_same t _).id
  | _ => rfl

/-! ## 一歩の分解 -/

theorem Turns.stay (w e) : Turns w e w :=
  ⟨⟨id, [], by simp, fun _ _ => ⟨rfl, .frame (fun _ _ => Iff.rfl) fun _ _ => Iff.rfl⟩, .inl rfl⟩, Nat.le_refl _⟩

variable {w : World}

variable {e : Event}

theorem Turns.replace {w' φ} (ht : w'.db.tasks = w.db.tasks.map φ) (hu : w'.db.uuid = w.db.uuid)
    (h : ∀ t ∈ w.db.tasks, Change w e w'.log w'.db.attempts t (φ t)) : Turns w e w' :=
  ⟨⟨φ, [], by rw [ht, List.append_nil], fun t ht => ⟨(h t ht).id, h t ht⟩, .inl rfl⟩, Nat.le_of_eq hu.symm⟩

theorem Turns.note {w'} (hro : (w.db.tasks.map Task.id).Nodup) (t note) {f} (ht : t ∈ w.db.tasks)
    (hnt : note.id = t.id) (htas : w'.db.tasks = update (fun r => r.id = t.id) f w.db.tasks) (hu : w'.db.uuid = w.db.uuid)
    (hlog : w'.log = note :: w.log) (hatt : ∀ row, row.taskId ≠ t.id → (row ∈ w'.db.attempts ↔ row ∈ w.db.attempts))
    (hrow : Change w e w'.log w'.db.attempts t (f t)) : Turns w e w' := by
  apply Turns.replace htas hu
  intro r hr
  by_cases hid : r.id = t.id
  · rw [eq_of_key hro hr ht hid]
    simpa using hrow
  · simp only [hid, decide_false, Bool.false_eq_true, if_false]
    refine .frame ?_ fun row hrow => hatt row fun h' => hid (hrow.symm.trans h')
    intro x hx
    rw [hlog, List.mem_cons]
    refine ⟨?_, .inr⟩
    rintro (rfl | hx')
    · -- 足した記録は、ほかの仕事のものである。
      have hxid : x.id = r.id := by cases x <;> simp_all [Note.concerns, Note.id]
      exact absurd (hxid.symm.trans hnt) hid
    · exact hx'

theorem createTask_cases (tasks id now input) : createTask tasks id now input = tasks ∨
      ∃ t, createTask tasks id now input = tasks ++ [t] ∧ t.id = id ∧ t.status = .pending ∧ t.attempt = 0 ∧ t.leaseUntil = none := by
  simp only [createTask]
  split
  · exact .inl rfl
  · exact .inr ⟨_, rfl, rfl, rfl, rfl, rfl⟩

theorem create_turns (w input) : Turns w (.createTask input) (step w (.createTask input)) := by
  rcases createTask_cases w.db.tasks w.db.uuid w.db.clock input with hc | ⟨t, hc, hid, hs, hat, -⟩
  · refine ⟨⟨id, [], by simp [step, hc], ?_, .inl rfl⟩, Nat.le_succ _⟩
    exact fun _ _ => ⟨rfl, .frame (fun _ _ => Iff.rfl) fun _ _ => Iff.rfl⟩
  · refine ⟨⟨id, [t], by simp [step, hc], ?_, .inr ⟨t, rfl, ?_⟩⟩, Nat.le_succ _⟩
    · exact fun _ _ => ⟨rfl, .frame (fun _ _ => Iff.rfl) fun _ _ => Iff.rfl⟩
    · exact ⟨hid, Nat.lt_succ_self _, hs, hat, rfl, rfl⟩

theorem claim_turns (h : (w.db.tasks.map Task.id).Nodup) (options snapshot started)
    (skip) : Turns w e (w.claim options snapshot started skip) := by
  simp only [World.claim]
  split
  next => exact .stay w e
  next leased tasks hc =>
    obtain ⟨t, ht, duration, hrun, rfl, rfl⟩ := claimNextTask_some h hc
    exact .note h t (.claimed t.id (t.attempt + 1)) ht rfl rfl rfl rfl (fun _ _ => Iff.rfl) (.claim hrun rfl rfl)

theorem recover_turns (w started projectRef) (taskTypes : List TaskType) : Turns w (.recoverExpiredLeases started projectRef taskTypes)
      (step w (.recoverExpiredLeases started projectRef taskTypes)) := by
  refine Turns.replace rfl rfl ?_
  intro t _
  dsimp only
  split
  next hr => exact .recover rfl hr rfl rfl
  next => exact .frame (fun _ _ => Iff.rfl) fun _ _ => Iff.rfl

theorem renew_turns (w key duration) : Turns w (.renew key duration) (step w (.renew key duration)) := by
  simp only [step]
  split
  next db b hok =>
    rcases renew_ok hok with rfl | ⟨t, -, -, -, -, rfl⟩
    · exact .stay w _
    · refine Turns.replace rfl rfl ?_
      intro r _
      dsimp only
      split
      · exact .renew rfl rfl
      · exact .frame (fun _ _ => Iff.rfl) fun _ _ => Iff.rfl
  next => exact .stay w _

theorem start_turns (h : (w.db.tasks.map Task.id).Nodup) (key duration acknowledged) : Turns w e (w.start key duration acknowledged) := by
  simp only [World.start]
  split
  next db hok =>
    obtain ⟨t, hl, -, hs, hc, -, -, rfl⟩ := start_ok hok
    refine .note h t (.started key.id key.attempt) hl.mem hl.id.symm rfl rfl rfl ?_ (.start hl hs hc rfl rfl)
    intro row hne
    refine ⟨fun hr => (List.mem_cons.mp hr).resolve_left ?_, List.mem_cons_of_mem _⟩
    rintro rfl
    exact hne hl.id.symm
  next => exact .stay w e

theorem dispatch_turns (w e key) : Turns w e (w.dispatch key) := by
  simp only [World.dispatch]
  split
  next =>
    refine ⟨⟨id, [], by simp, ?_, .inl rfl⟩, Nat.le_refl _⟩
    refine fun t _ => ⟨rfl, .frame ?_ fun _ _ => Iff.rfl⟩
    intro note hc
    rw [List.mem_cons]
    refine ⟨?_, .inr⟩
    rintro (rfl | hn)
    · exact hc.elim
    · exact hn
  next => exact .stay w e

theorem upsertAttempt_other {attempts attempts' row r}
    (hu : upsertAttempt attempts row = some attempts') (hne : AttemptRow.key r ≠ AttemptRow.key row) : r ∈ attempts' ↔ r ∈ attempts := by
  have hk : ¬ (r.taskId = row.taskId ∧ r.attemptNo = row.attemptNo) := fun hk => hne (Prod.ext hk.1 hk.2)
  constructor
  · grind [mem_upsertAttempt]
  · intro hr
    simp only [upsertAttempt] at hu
    split at hu
    next =>
      rw [Option.some.injEq] at hu
      exact hu ▸ List.mem_cons_of_mem _ hr
    next =>
      split at hu
      next =>
        rw [Option.some.injEq] at hu
        subst hu
        exact mem_update.mpr ⟨r, hr, by simp [hk]⟩
      next => simp at hu

theorem finish_turns (h : (w.db.tasks.map Task.id).Nodup) (key completion) :
    Turns w (.finish key completion) (w.finish key completion) := by
  simp only [World.finish]
  split
  next db status hok =>
    obtain ⟨t, hl, hhe, hli, rfl, row, error, attempts, hrid, hrr, hrat, hrs, hu, rfl⟩ := finish_ok hok
    refine .note h t (.finished key.id key.attempt (t.decided completion.status)) hl.mem hl.id.symm rfl rfl rfl ?_
      (.finish rfl hl hhe hli hrid hrr hrat hrs hu rfl)
    exact fun r hne => upsertAttempt_other hu fun hk => hne ((congrArg Prod.fst hk).trans (hrid.trans hl.id.symm))
  next => exact .stay w _

theorem requestCancellation_turns (h : (w.db.tasks.map Task.id).Nodup) (key) :
    Turns w (.requestCancellation key) (w.requestCancellation key) := by
  simp only [World.requestCancellation]
  split
  next db status hok =>
    obtain ⟨t, hl, hst, rfl⟩ := requestCancellation_ok hok
    refine .note h t (.cancelRequested key.id key.attempt status) hl.mem hl.id.symm rfl rfl rfl (fun _ _ => Iff.rfl) ?_
    rw [← hl.id, ← hl.attempt]
    rcases hst with ⟨hq, rfl⟩ | ⟨hhe, rfl⟩
    · exact .cancelQueued rfl hq rfl rfl
    · exact .cancelHeld hhe hl.edge rfl rfl
  next => exact .stay w _

theorem recoverCancelled_turns (h : (w.db.tasks.map Task.id).Nodup) (skip) :
    Turns w (.recoverCancelled skip) (step w (.recoverCancelled skip)) := by
  refine Turns.replace rfl rfl ?_
  intro t ht
  dsimp only
  split
  next hany =>
    obtain ⟨r, hr, hid⟩ := List.any_eq_true.mp hany
    have heq : r = t := eq_of_key h (mem_abandonedTasks hr).1 ht (of_decide_eq_true hid)
    exact .sweep rfl (heq ▸ hr) rfl rfl
  next hnot =>
    refine .frame (fun _ _ => Iff.rfl) ?_
    intro row hid
    -- この仕事の記録は、見回りの対象ではない。
    have hsk : ∀ old : AttemptRow, old.taskId = t.id → (old.status = .running ∧ (abandonedTasks w.db skip).any fun r =>
        r.id = old.taskId ∧ r.projectRef = old.projectRef ∧ r.attempt = old.attemptNo) = False := by
      intro old hoid
      rw [eq_iff_iff, iff_false]
      rintro ⟨-, hany⟩
      obtain ⟨r, hr, hrid⟩ := List.any_eq_true.mp hany
      apply hnot
      exact List.any_eq_true.mpr ⟨r, hr, by simpa [hoid] using (of_decide_eq_true hrid).1⟩
    constructor
    · intro hr
      obtain ⟨old, hold, rfl⟩ := mem_update.mp hr
      have hoid : old.taskId = t.id := by
        split at hid <;> exact hid
      simp only [hsk old hoid, decide_false, Bool.false_eq_true, if_false]
      exact hold
    · intro hr
      refine mem_update.mpr ⟨row, hr, ?_⟩
      simp only [hsk row hid, decide_false, Bool.false_eq_true, if_false]

theorem retry_cases (h : (w.db.tasks.map Task.id).Nodup) (id projectRef) :
    w.retry id projectRef = w ∨ ∃ t ∈ w.db.tasks, t.retriable = true ∧ w.retry id projectRef = { w with
      db := { w.db with tasks := update (fun r => r.id = t.id) (fun r => r.reopen w.db.clock) w.db.tasks }
      log := .retried t.id t.attempt :: w.log } := by
  by_cases hex : ∃ t ∈ w.db.tasks, t.id = id ∧ t.projectRef = projectRef ∧ t.retriable = true
  · obtain ⟨t, ht, rfl, rfl, hr⟩ := hex
    refine .inr ⟨t, ht, hr, ?_⟩
    have hpr : ∀ r ∈ w.db.tasks, (decide (r.id = t.id ∧ r.projectRef = t.projectRef ∧ r.retriable = true)) = decide (r.id = t.id) := by
      intro r hmem
      by_cases hid : r.id = t.id
      · rw [eq_of_key h hmem ht hid]
        simp [hr]
      · simp [hid]
    have htas : retryTask w.db.tasks w.db.clock t.id t.projectRef =
        update (fun r => r.id = t.id) (fun r => r.reopen w.db.clock) w.db.tasks := by
      rw [retryTask, update, update]
      apply List.map_congr_left
      intro r hmem
      rw [hpr r hmem]
    have hone : w.db.tasks.filter (fun r => decide (r.id = t.id)) = [t] := by
      have hnd := (List.Nodup.of_map _ h).filter fun r => decide (r.id = t.id)
      refine List.perm_singleton.mp ((List.perm_ext_iff_of_nodup hnd (List.nodup_singleton t)).mpr ?_)
      intro r
      rw [List.mem_filter, List.mem_singleton, decide_eq_true_eq]
      constructor
      · exact fun hr' => eq_of_key h hr'.1 ht hr'.2
      · rintro rfl
        exact ⟨ht, rfl⟩
    have hnos : (w.db.tasks.filter fun r => r.id = t.id ∧ r.projectRef = t.projectRef ∧ r.retriable) = [t] := by
      rw [List.filter_congr hpr, hone]
    simp only [World.retry, htas, hnos]
    rfl
  · have hnn : ∀ r ∈ w.db.tasks, decide (r.id = id ∧ r.projectRef = projectRef ∧ r.retriable = true) = false := by
      intro r hmem
      simpa using fun hid hp hr => hex ⟨r, hmem, hid, hp, hr⟩
    have htas : retryTask w.db.tasks w.db.clock id projectRef = w.db.tasks := by
      rw [retryTask, update]
      refine (List.map_congr_left fun r hmem => ?_).trans (List.map_id _)
      rw [hnn r hmem]
      rfl
    have hnos : (w.db.tasks.filter fun r => r.id = id ∧ r.projectRef = projectRef ∧ r.retriable) = [] := by
      rw [List.filter_eq_nil_iff]
      intro r hmem
      simpa using hnn r hmem
    refine .inl ?_
    simp only [World.retry, htas, hnos]
    rfl

theorem retry_turns (h : (w.db.tasks.map Task.id).Nodup) (id projectRef) : Turns w e (w.retry id projectRef) := by
  rcases retry_cases h id projectRef with heq | ⟨t, ht, hr, heq⟩
  · rw [heq]
    exact .stay w e
  · rw [heq]
    exact .note h t (.retried t.id t.attempt) ht rfl rfl rfl rfl (fun _ _ => Iff.rfl) (.reopen hr rfl rfl)

theorem step_turns (h : (w.db.tasks.map Task.id).Nodup) (e) : Turns w e (step w e) := by
  cases e with
  | tick elapsed =>
    refine ⟨⟨id, [], by simp [step], ?_, .inl rfl⟩, Nat.le_refl _⟩
    exact fun _ _ => ⟨rfl, .frame (fun _ _ => Iff.rfl) fun _ _ => Iff.rfl⟩
  | createTask input => exact create_turns w input
  | claimNextTask options snapshot started skip => exact claim_turns h options snapshot started skip
  | recoverExpiredLeases started projectRef taskTypes => exact recover_turns w started projectRef taskTypes
  | renew key duration => exact renew_turns w key duration
  | start key duration acknowledged => exact start_turns h key duration acknowledged
  | dispatch key => exact dispatch_turns w _ key
  | finish key completion => exact finish_turns h key completion
  | requestCancellation key => exact requestCancellation_turns h key
  | recoverCancelled skip => exact recoverCancelled_turns h skip
  | retryTask id projectRef => exact retry_turns h id projectRef

/-! ## 行の不変条件 -/

theorem Change.taskInv {log' attempts' t t'} (hu : (w.db.attempts.map AttemptRow.key).Nodup)
    (h : TaskInv w.log w.db.attempts t) (hc : Change w e log' attempts' t t') : TaskInv log' attempts' t' := by
  cases hc with
  | frame hlog hatt => exact h.frame hlog hatt
  | claim hrun hlog hatt =>
    subst hlog hatt
    exact h.claim _
  | recover he hr hlog hatt =>
    subst hlog hatt
    obtain ⟨hhe, -, hca⟩ := Task.recoverable_held hr
    exact h.recover hhe hca
  | renew hlog hatt =>
    subst hlog hatt
    exact h.renew _
  | start hl hs hca hlog hatt =>
    subst hlog hatt
    exact h.start hl.id hl.projectRef hl.edge hl.attempt hs hca _
  | finish he hl hhe hli hrid hrr hrat hrs hup hlog =>
    subst hlog
    exact h.finish hl.id hl.projectRef hl.edge hl.attempt hhe hrid hrr hrat hrs hup _ _
  | cancelQueued he hq hlog hatt =>
    subst hlog hatt
    exact h.cancelQueued hq
  | cancelHeld hhe hty hlog hatt =>
    subst hlog hatt
    exact h.cancelHeld hhe hty hu
  | sweep he hab hlog hatt =>
    subst hlog hatt
    refine h.sweep ?_
    intro row hr hid
    obtain ⟨old, hold, rfl⟩ := mem_update.mp hr
    refine ⟨old, hold, ?_⟩
    revert hid
    split
    · exact fun hid => ⟨hid, rfl, rfl, .inr rfl⟩
    · exact fun hid => ⟨hid, rfl, rfl, .inl rfl⟩
  | reopen hr hlog hatt =>
    subst hlog hatt
    exact h.reopen

end Supacloud.Tasks.Background
