import Supacloud.Tasks.Lemmas.Background

/-!
# 走行の全体で成り立つこと

表の整合、行の不変条件、記録の性質を合わせて、一歩ごとに保つ。
-/

namespace Supacloud.Tasks.Background

open Library List

structure Recorded (w : World) : Prop where
  starts : ∀ id n, w.log.count (.started id n) ≤ 1
  dispatches : ∀ id n, w.log.count (.dispatched id n) + w.ready.countP (fun k => k.id = id ∧ k.attempt = n) ≤ w.log.count (.started id n)
  claims : Since (fun earlier note => ∀ id n, note = .claimed id (n + 1) → Permits earlier id n) w.log
  cancelled : ∀ id n s, Doomed w.log id n → .finished id n s ∈ w.log → s = .cancelled

structure Inv (w : World) : Prop where
  sound : Sound w
  tasks : ∀ t ∈ w.db.tasks, TaskInv w.log w.db.attempts t
  recorded : Recorded w

theorem inv_empty (clock projects) : Inv (World.empty clock projects) where
  sound := by constructor <;> simp [World.empty]
  tasks := by simp [World.empty]
  recorded := by constructor <;> simp [World.empty, Since]

variable {w : World}

variable {w' : World}

/-! ## 表の整合 -/

theorem Turns.mem_cases {e} (h : Turns w e w') {t'} (ht' : t' ∈ w'.db.tasks) :
    (∃ t ∈ w.db.tasks, t'.id = t.id ∧ Change w e w'.log w'.db.attempts t t') ∨ Created w w' t' := by
  obtain ⟨φ, news, htas, hφ, hnw⟩ := h.rows
  rw [htas, mem_append, mem_map] at ht'
  rcases ht' with ⟨t, ht, rfl⟩ | hn
  · exact .inl ⟨t, ht, hφ t ht⟩
  · grind

theorem Turns.mem_image {e} (h : Turns w e w') {t} (ht : t ∈ w.db.tasks) :
    ∃ t' ∈ w'.db.tasks, t'.id = t.id ∧ Change w e w'.log w'.db.attempts t t' := by
  obtain ⟨φ, news, htas, hφ, -⟩ := h.rows
  exact ⟨φ t, htas ▸ mem_append_left _ (mem_map_of_mem ht), hφ t ht⟩

theorem Turns.nodup {e} (h : Turns w e w') (hs : Sound w) : (w'.db.tasks.map Task.id).Nodup := by
  obtain ⟨φ, news, htas, hφ, hnw⟩ := h.rows
  have hmap : (w.db.tasks.map φ).map Task.id = w.db.tasks.map Task.id := by
    rw [map_map]
    exact map_congr_left fun t ht => (hφ t ht).1
  rw [htas, map_append, hmap]
  rcases hnw with rfl | ⟨t, rfl, hnew⟩
  · simpa using hs.rows
  · refine nodup_append.mpr ⟨hs.rows, by simp, ?_⟩
    intro a ha b hb heq
    obtain ⟨r, hr, rfl⟩ := mem_map.mp ha
    simp only [map_cons, map_nil, mem_singleton] at hb
    exact absurd (heq.trans (hb.trans hnew.id)) (Nat.ne_of_lt (hs.fresh r hr))

theorem Turns.fresh {w w' e} (h : Turns w e w') (hs : Sound w) : ∀ t ∈ w'.db.tasks, t.id < w'.db.uuid := by
  intro t' ht'
  rcases h.mem_cases ht' with ⟨t, ht, hid, -⟩ | hnew
  · rw [hid]
    exact Nat.lt_of_lt_of_le (hs.fresh t ht) h.uuid
  · rw [hnew.id]
    exact hnew.uuid

theorem Turns.sound {e} (h : Turns w e w') (hs : Sound w)
    (hlog : ∀ note ∈ w'.log, note ∈ w.log ∨ ∀ id, note.concerns id → ∃ t ∈ w.db.tasks, t.id = id)
    (hatt : ∀ row ∈ w'.db.attempts, ∃ t ∈ w.db.tasks, t.id = row.taskId) (huni : (w'.db.attempts.map AttemptRow.key).Nodup) : Sound w' where
  rows := h.nodup hs
  fresh := h.fresh hs
  known := by
    intro note hn id hc
    rcases hlog note hn with hn | hn
    · exact Nat.lt_of_lt_of_le (hs.known note hn id hc) h.uuid
    · obtain ⟨t, ht, rfl⟩ := hn id hc
      exact Nat.lt_of_lt_of_le (hs.fresh t ht) h.uuid
  owner := by
    intro row hr
    obtain ⟨t, ht, hid⟩ := hatt row hr
    obtain ⟨t', ht', hid', -⟩ := h.mem_image ht
    exact ⟨t', ht', hid'.trans hid⟩
  unique := huni

theorem note_known {t note} (ht : t ∈ w.db.tasks) (hid : note.id = t.id) :
    ∀ x ∈ note :: w.log, x ∈ w.log ∨ ∀ id, x.concerns id → ∃ t ∈ w.db.tasks, t.id = id := by
  intro x hx
  rcases mem_cons.mp hx with rfl | hx
  · refine .inr fun id hc => ⟨t, ht, ?_⟩
    rw [← hid]
    cases x <;> simp_all [Note.concerns, Note.id]
  · exact .inl hx

theorem start_sound (hs : Sound w) (e : Event) (key duration acknowledged) : Sound (w.start key duration acknowledged) := by
  have htu : Turns w e (w.start key duration acknowledged) := start_turns hs.rows key duration acknowledged
  revert htu
  simp only [World.start]
  split
  next db hok =>
    intro htu
    obtain ⟨t, hl, -, -, -, -, hnew, rfl⟩ := start_ok hok
    refine htu.sound hs (note_known hl.mem hl.id.symm) ?_ ?_
    · intro row hr
      rcases mem_cons.mp hr with rfl | hr
      · exact ⟨t, hl.mem, hl.id⟩
      · exact hs.owner row hr
    · grind [hs.unique, AttemptRow.key, Key.opening, Db.recorded]
  next => exact fun _ => hs

theorem upsertAttempt_nodup {attempts attempts' row}
    (hu : upsertAttempt attempts row = some attempts') (h : (attempts.map AttemptRow.key).Nodup) :
    (attempts'.map AttemptRow.key).Nodup := by
  simp only [upsertAttempt] at hu
  split at hu
  next hfi =>
    rw [Option.some.injEq] at hu
    subst hu
    simp only [map_cons, nodup_cons]
    refine ⟨?_, h⟩
    intro hin
    obtain ⟨r, hr, hk⟩ := mem_map.mp hin
    simp only [AttemptRow.key, Prod.mk.injEq] at hk
    exact find?_eq_none.mp hfi r hr (by simp [hk])
  next =>
    split at hu
    next =>
      rw [Option.some.injEq] at hu
      subst hu
      have hkey : ∀ r, AttemptRow.key { r with
          status := row.status, completedAt := row.completedAt, error := row.error } = AttemptRow.key r := fun _ => rfl
      rw [map_update fun r _ => hkey r]
      exact h
    next => simp at hu

theorem finish_sound (hs : Sound w) (key completion) : Sound (w.finish key completion) := by
  have htu := finish_turns hs.rows key completion
  revert htu
  simp only [World.finish]
  split
  next db status hok =>
    intro htu
    obtain ⟨t, hl, -, -, rfl, row, error, attempts, hrid, -, -, -, hu, rfl⟩ := finish_ok hok
    refine htu.sound hs (note_known hl.mem hl.id.symm) ?_ (upsertAttempt_nodup hu hs.unique)
    intro r hr
    rcases mem_upsertAttempt hu hr with rfl | hr | ⟨-, -, -, -, -, hrt, -⟩
    · exact ⟨t, hl.mem, hl.id.trans hrid.symm⟩
    · exact hs.owner r hr
    · exact ⟨t, hl.mem, hl.id.trans (hrid.symm.trans hrt.symm)⟩
  next => exact fun _ => hs

theorem recoverCancelled_sound (hs : Sound w) (skip) : Sound (step w (.recoverCancelled skip)) := by
  refine (recoverCancelled_turns hs.rows skip).sound hs (fun _ hn => .inl hn) ?_ ?_
  · intro row hr
    obtain ⟨old, hold, rfl⟩ := mem_update.mp hr
    obtain ⟨t, ht, hid⟩ := hs.owner old hold
    refine ⟨t, ht, ?_⟩
    split <;> exact hid
  · have hke : (step w (.recoverCancelled skip)).db.attempts.map AttemptRow.key = w.db.attempts.map AttemptRow.key :=
      map_update fun _ _ => rfl
    rw [hke]
    exact hs.unique

theorem step_sound (hs : Sound w) (e) : Sound (step w e) := by
  cases e with
  | tick elapsed => exact (step_turns hs.rows (.tick elapsed)).sound hs (fun _ hn => .inl hn) hs.owner hs.unique
  | createTask input => exact (create_turns w input).sound hs (fun _ hn => .inl hn) hs.owner hs.unique
  | claimNextTask options snapshot started skip =>
    have htu := step_turns hs.rows (.claimNextTask options snapshot started skip)
    revert htu
    simp only [step, World.claim]
    split
    next => exact fun _ => hs
    next hc =>
      intro htu
      obtain ⟨t, ht, duration, -, rfl, rfl⟩ := claimNextTask_some hs.rows hc
      exact htu.sound hs (note_known ht rfl) hs.owner hs.unique
  | recoverExpiredLeases started projectRef taskTypes =>
    exact (recover_turns w started projectRef taskTypes).sound hs (fun _ hn => .inl hn) hs.owner hs.unique
  | renew key duration =>
    have htu := renew_turns w key duration
    revert htu
    simp only [step]
    split
    next hok =>
      rcases renew_ok hok with rfl | ⟨t, -, -, -, -, rfl⟩
      · exact fun _ => hs
      · exact fun htu => htu.sound hs (fun _ hn => .inl hn) hs.owner hs.unique
    next => exact fun _ => hs
  | start key duration acknowledged => exact start_sound hs (.start key duration acknowledged) key duration acknowledged
  | dispatch key =>
    have htu := dispatch_turns w (.dispatch key) key
    revert htu
    simp only [step, World.dispatch]
    split
    next =>
      refine fun htu => htu.sound hs ?_ hs.owner hs.unique
      intro note hn
      rcases mem_cons.mp hn with rfl | hn
      · exact .inr fun _ hc => hc.elim
      · exact .inl hn
    next => exact fun _ => hs
  | finish key completion => exact finish_sound hs key completion
  | requestCancellation key =>
    have htu := requestCancellation_turns hs.rows key
    revert htu
    simp only [step, World.requestCancellation]
    split
    next hok =>
      intro htu
      obtain ⟨t, hl, -, rfl⟩ := requestCancellation_ok hok
      exact htu.sound hs (note_known hl.mem hl.id.symm) hs.owner hs.unique
    next => exact fun _ => hs
  | recoverCancelled skip => exact recoverCancelled_sound hs skip
  | retryTask id projectRef =>
    have htu : Turns w (.retryTask id projectRef) (w.retry id projectRef) := retry_turns hs.rows id projectRef
    rcases retry_cases hs.rows id projectRef with heq | ⟨t, ht, -, heq⟩
    · simp only [step, heq]
      exact hs
    · simp only [step, heq]
      rw [heq] at htu
      exact htu.sound hs (note_known ht rfl) hs.owner hs.unique

/-! ## 行の不変条件 -/

theorem step_taskInv (h : Inv w) (e) : ∀ t ∈ (step w e).db.tasks, TaskInv (step w e).log (step w e).db.attempts t := by
  intro t' ht'
  have htu := step_turns h.sound.rows e
  rcases htu.mem_cases ht' with ⟨t, ht, -, hc⟩ | hnew
  · exact hc.taskInv h.sound.unique (h.tasks t ht)
  · -- 登録したばかりの仕事には、まだ何の記録もない。
    rw [hnew.log, hnew.attempts]
    refine .create ?_ ?_ hnew.status
    · intro note hn hc
      exact absurd (h.sound.known note hn t'.id hc) (by rw [hnew.id]; exact Nat.lt_irrefl _)
    · intro row hr heq
      obtain ⟨t, ht, htid⟩ := h.sound.owner row hr
      exact absurd (h.sound.fresh t ht) (by rw [htid, heq, hnew.id]; exact Nat.lt_irrefl _)

/-! ## 記録の性質 -/

theorem Recorded.of_log (h : Recorded w) (hlog : w'.log = w.log) (hre : w'.ready = w.ready) : Recorded w' := by
  refine ⟨?_, ?_, ?_, ?_⟩
  · rw [hlog]
    exact h.starts
  · rw [hlog, hre]
    exact h.dispatches
  · rw [hlog]
    exact h.claims
  · rw [hlog]
    exact h.cancelled

theorem Recorded.claim {w} (h : Inv w) {options snapshot started skip} : Recorded (w.claim options snapshot started skip) := by
  simp only [World.claim]
  split
  next => exact h.recorded
  next hc =>
    obtain ⟨t, ht, duration, hrun, rfl, rfl⟩ := claimNextTask_some h.sound.rows hc
    refine ⟨?_, ?_, ?_, ?_⟩
    · simpa using h.recorded.starts
    · simpa using h.recorded.dispatches
    · refine h.recorded.claims.cons ?_
      intro id n hn
      simp only [Task.lease, Note.claimed.injEq, Nat.add_right_cancel_iff] at hn
      obtain ⟨rfl, rfl⟩ := hn
      exact (h.tasks t ht).queued (Task.runnable_iff.mp hrun).1
    · simpa [Doomed] using h.recorded.cancelled

theorem Recorded.start {w} (h : Inv w) {key duration acknowledged} : Recorded (w.start key duration acknowledged) := by
  simp only [World.start]
  split
  next db hok =>
    obtain ⟨t, hl, -, hs, -, -, -, rfl⟩ := start_ok hok
    have hfr : Note.started key.id key.attempt ∉ w.log := by
      intro hin
      rw [← hl.id, ← hl.attempt] at hin
      exact ((h.tasks t hl.mem).started _ hin).2.2 rfl hs
    refine ⟨?_, ?_, ?_, ?_⟩
    · intro id n
      rw [count_cons]
      by_cases hk : Note.started key.id key.attempt = .started id n
      · have hz : w.log.count (.started id n) = 0 := count_eq_zero.mpr (hk ▸ hfr)
        simp [hk, hz]
      · simpa [hk] using h.recorded.starts id n
    · intro id n
      have hd := h.recorded.dispatches id n
      by_cases hk : key.id = id ∧ key.attempt = n
      · obtain ⟨rfl, rfl⟩ := hk
        cases acknowledged <;> simp at hd ⊢ <;> omega
      · cases acknowledged <;> simp [hk] at hd ⊢ <;> omega
    · exact h.recorded.claims.cons (by simp)
    · simpa [Doomed] using h.recorded.cancelled
  next => exact h.recorded

theorem Recorded.dispatch {w} (h : Recorded w) (key) : Recorded (w.dispatch key) := by
  simp only [World.dispatch]
  split
  next hin =>
    refine ⟨by simpa [count_cons] using h.starts, ?_, h.claims.cons (by simp), by simpa [Doomed] using h.cancelled⟩
    intro id n
    have hd := h.dispatches id n
    have her : (w.ready.erase key).countP (fun k => k.id = id ∧ k.attempt = n) +
        (if key.id = id ∧ key.attempt = n then 1 else 0) = w.ready.countP fun k => k.id = id ∧ k.attempt = n := by
      have hpe := (perm_cons_erase hin).countP_eq fun k : Key => decide (k.id = id ∧ k.attempt = n)
      rw [hpe, countP_cons]
      simp
    rw [count_cons, count_cons]
    by_cases hk : key.id = id ∧ key.attempt = n
    · grind
    · grind
  next => exact h

theorem Recorded.finish {w} (h : Inv w) {key completion} : Recorded (w.finish key completion) := by
  simp only [World.finish]
  split
  next db status hok =>
    obtain ⟨t, hl, hhe, -, rfl, -, -, -, -, -, -, -, -, rfl⟩ := finish_ok hok
    refine ⟨by simpa using h.recorded.starts, by simpa using h.recorded.dispatches, h.recorded.claims.cons (by simp), ?_⟩
    intro id n s hd hf
    have hd : Doomed w.log id n := by simpa [Doomed] using hd
    rcases mem_cons.mp hf with hf | hf
    · simp only [Note.finished.injEq] at hf
      obtain ⟨rfl, rfl, rfl⟩ := hf
      rw [← hl.id, ← hl.attempt] at hd
      rcases ((h.tasks t hl.mem).doomed _ hd).2 rfl with ⟨-, hne⟩ | hs | hs
      · simp [Task.decided, hne]
      all_goals simp [Task.held, hs] at hhe
    · exact h.recorded.cancelled id n s hd hf
  next => exact h.recorded

theorem Recorded.requestCancellation {w} (h : Inv w) {key} : Recorded (w.requestCancellation key) := by
  simp only [World.requestCancellation]
  split
  next db status hok =>
    obtain ⟨t, hl, hst, rfl⟩ := requestCancellation_ok hok
    refine ⟨by simpa using h.recorded.starts, by simpa using h.recorded.dispatches, h.recorded.claims.cons (by simp), ?_⟩
    intro id n s hd hf
    have hf : .finished id n s ∈ w.log := by simpa using hf
    by_cases hold : Doomed w.log id n
    · exact h.recorded.cancelled id n s hold hf
    · -- 願いが届いた試みは進行中で、まだ終わっていない。
      have hkey : key.id = id ∧ key.attempt = n ∧ t.held = true := by
        have hd' : (Note.cancelRequested id n .leased = .cancelRequested key.id key.attempt status) ∨
            (Note.cancelRequested id n .running = .cancelRequested key.id key.attempt status) := by
          rcases hd with hd | hd
          · exact .inl ((mem_cons.mp hd).resolve_right fun h' => hold (.inl h'))
          · exact .inr ((mem_cons.mp hd).resolve_right fun h' => hold (.inr h'))
        simp only [Note.cancelRequested.injEq] at hd'
        rcases hst with ⟨-, rfl⟩ | ⟨hhe, -⟩
        · simp at hd'
        · grind
      obtain ⟨rfl, rfl, hhe⟩ := hkey
      rw [← hl.id, ← hl.attempt] at hf
      have hne := ((h.tasks t hl.mem).finished _ s hf).2 rfl
      simp [hne] at hhe
  next => exact h.recorded

theorem Recorded.retry {w} (h : Inv w) {id projectRef} : Recorded (w.retry id projectRef) := by
  rcases retry_cases h.sound.rows id projectRef with heq | ⟨t, ht, -, heq⟩
  · rw [heq]
    exact h.recorded
  · rw [heq]
    exact ⟨by simpa using h.recorded.starts, by simpa using h.recorded.dispatches,
      h.recorded.claims.cons (by simp), by simpa [Doomed] using h.recorded.cancelled⟩

theorem step_recorded (h : Inv w) (e) : Recorded (step w e) := by
  cases e with
  | tick elapsed | createTask input | recoverExpiredLeases started projectRef taskTypes | recoverCancelled skip => exact h.recorded.of_log rfl rfl
  | claimNextTask options snapshot started skip => exact .claim h
  | renew key duration =>
    simp only [step]
    split <;> exact h.recorded.of_log rfl rfl
  | start key duration acknowledged => exact .start h
  | dispatch key => exact h.recorded.dispatch key
  | finish key completion => exact .finish h
  | requestCancellation key => exact .requestCancellation h
  | retryTask id projectRef => exact .retry h

theorem step_inv (h : Inv w) (e) : Inv (step w e) :=
  ⟨step_sound h.sound e, step_taskInv h e, step_recorded h e⟩

theorem inv_reached (clock projects es) : Inv (reached clock projects es) :=
  run_invariant (fun _ e h => step_inv h e) (inv_empty clock projects)

/-! ## 試みの終わり -/

def Ending : TaskStatus → Prop
  | .succeeded | .retryScheduled | .deadLettered | .cancelled => True
  | .pending | .leased | .running | .failed => False

inductive EndedBy (w : World) (e : Event) (t : Task) : Prop where
  | own {completion} : e = .finish ⟨t.id, t.projectRef, t.attempt⟩ completion → t.held = true →
      t.live w.db.clock = true → EndedBy w e t
  | swept : (∃ started projectRef taskTypes, e = .recoverExpiredLeases started projectRef taskTypes) ∨
      (∃ skip, e = .recoverCancelled skip) → t.held = true → t.expired w.db.clock = true → EndedBy w e t
  | unclaimed {key} : e = .requestCancellation key → t.queued = true → EndedBy w e t

theorem Change.endedBy {e log' attempts' t t'} (hc : Change w e log' attempts' t t')
    (hne : t'.status ≠ t.status) (hend : Ending t'.status) : EndedBy w e t := by
  cases hc with
  | frame | renew => exact absurd rfl hne
  | claim | start | reopen => exact hend.elim
  | recover he hr =>
    obtain ⟨hhe, hexp, -⟩ := Task.recoverable_held hr
    exact .swept (.inl ⟨_, _, _, he⟩) hhe (Task.expired_mono hexp (Nat.min_le_right _ _))
  | @finish key completion row error he hl hhe hli =>
    refine @EndedBy.own w e t completion ?_ hhe hli
    rw [he, hl.id, hl.projectRef, hl.attempt]
  | cancelQueued he hq => exact .unclaimed he hq
  | cancelHeld hhe => exact absurd (Task.requestCancel_held w.db.clock hhe).1 hne
  | sweep he hab =>
    obtain ⟨-, hhe, -, hexp⟩ := Task.abandoned_iff.mp (mem_abandonedTasks hab).2
    exact .swept (.inr ⟨_, he⟩) hhe hexp

theorem step_endedBy (h : Inv w) {e t t'} (ht : t ∈ w.db.tasks) (ht' : t' ∈ (step w e).db.tasks) (hid : t'.id = t.id)
    (hne : t'.status ≠ t.status) (hend : Ending t'.status) : EndedBy w e t := by
  obtain ⟨r', hr', hrid, hc⟩ := (step_turns h.sound.rows e).mem_image ht
  have heq : r' = t' := eq_of_key (step_sound h.sound e).rows hr' ht' (hrid.trans hid.symm)
  subst heq
  exact hc.endedBy hne hend

end Supacloud.Tasks.Background

/-! ## 試みの記録と仕事の行の一致 -/

namespace Supacloud.Tasks.Background

open Library

structure Agree (db : Db) : Prop where
  running : ∀ row ∈ db.attempts, row.status = .running →
    ∃ t ∈ db.tasks, t.id = row.taskId ∧ t.status = .running ∧ t.attempt = row.attemptNo
  ended : ∀ t ∈ db.tasks, t.taskType = .edgeFunction → ∀ n, 1 ≤ n → n ≤ t.attempt → (n = t.attempt → t.held = false) →
    ∃ row ∈ db.attempts, row.taskId = t.id ∧ row.attemptNo = n ∧ row.status ≠ .running

def Clean (w : World) : Event → Prop
  | .recoverExpiredLeases started projectRef taskTypes => ∀ t ∈ w.db.tasks, t.taskType = .edgeFunction →
      t.recoverable (min started w.db.clock) projectRef taskTypes = false
  | .recoverCancelled skip => ∀ t ∈ abandonedTasks w.db skip, t.status = .running
  | _ => True

structure TaskAgree (attempts : List AttemptRow) (t : Task) : Prop where
  running : ∀ row ∈ attempts, row.taskId = t.id → row.status = .running → t.status = .running ∧ row.attemptNo = t.attempt
  ended : t.taskType = .edgeFunction → ∀ n, 1 ≤ n → n ≤ t.attempt → (n = t.attempt → t.held = false) →
    ∃ row ∈ attempts, row.taskId = t.id ∧ row.attemptNo = n ∧ row.status ≠ .running

theorem agree_iff {w} (h : Sound w) : Agree w.db ↔ ∀ t ∈ w.db.tasks, TaskAgree w.db.attempts t := by
  constructor
  · intro ha t ht
    refine ⟨?_, ha.ended t ht⟩
    intro row hr hid hs
    obtain ⟨t', ht', hid', hs', hat⟩ := ha.running row hr hs
    rw [eq_of_key h.rows ht' ht (hid'.trans hid)] at hs' hat
    exact ⟨hs', hat.symm⟩
  · intro ha
    refine ⟨?_, fun t ht => (ha t ht).ended⟩
    intro row hr hs
    obtain ⟨t, ht, hid⟩ := h.owner row hr
    obtain ⟨hs', hat⟩ := (ha t ht).running row hr hid.symm hs
    exact ⟨t, ht, hid, hs', hat.symm⟩

variable {t' : Task} {attempts attempts' : List AttemptRow} {t : Task}

theorem TaskAgree.frame (h : TaskAgree attempts t) (hatt : ∀ row, row.taskId = t.id → (row ∈ attempts' ↔ row ∈ attempts)) : TaskAgree attempts' t := by
  refine ⟨fun row hr hid => h.running row ((hatt row hid).mp hr) hid, ?_⟩
  intro hty n hpos hle hhe
  obtain ⟨row, hr, hid, hres⟩ := h.ended hty n hpos hle hhe
  exact ⟨row, (hatt row hid).mpr hr, hid, hres⟩

theorem TaskAgree.idle (h : TaskAgree attempts t) (hsa : SameAttempt t t') (hhe : t.held = false) : TaskAgree attempts t' := by
  refine ⟨?_, ?_⟩
  · grind [h.running, hsa.id, Task.held]
  · grind [hsa.id, h.ended, hsa.taskType, hsa.attempt]

theorem Outcome.attempt_ne_running (s : Outcome) : s.attempt ≠ .running := by
  cases s <;> simp [Outcome.attempt]

theorem mem_upsertAttempt_self {row} (hu : upsertAttempt attempts row = some attempts') :
    ∃ r ∈ attempts', r.taskId = row.taskId ∧ r.attemptNo = row.attemptNo ∧ r.status = row.status := by
  simp only [upsertAttempt] at hu
  split at hu
  next =>
    rw [Option.some.injEq] at hu
    exact ⟨row, hu ▸ List.mem_cons_self, rfl, rfl, rfl⟩
  next existing hfi =>
    have hk := List.find?_some hfi
    simp only [decide_eq_true_eq] at hk
    split at hu
    next =>
      rw [Option.some.injEq] at hu
      subst hu
      exact ⟨_, mem_update.mpr ⟨existing, List.mem_of_find?_eq_some hfi, rfl⟩, by simp [hk]⟩
    next => simp at hu

theorem TaskAgree.finish {row} (h : TaskAgree attempts t) (huni : (attempts'.map AttemptRow.key).Nodup)
    (hsa : SameAttempt t t') (hrid : row.taskId = t.id) (hrat : row.attemptNo = t.attempt) (hrs : row.status ≠ .running)
    (hu : upsertAttempt attempts row = some attempts') : TaskAgree attempts' t' := by
  obtain ⟨mine, hmi, hmid, hmno, hmst⟩ := mem_upsertAttempt_self hu
  refine ⟨?_, ?_⟩
  · intro r hr hid hs
    exfalso
    rw [hsa.id] at hid
    by_cases hno : r.attemptNo = t.attempt
    · have hkey : AttemptRow.key r = AttemptRow.key mine := Prod.ext (hid.trans (hrid.symm.trans hmid.symm))
        (hno.trans (hrat.symm.trans hmno.symm))
      rw [eq_of_key huni hr hmi hkey, hmst] at hs
      exact hrs hs
    · have hne : AttemptRow.key r ≠ AttemptRow.key row := fun hk => hno ((congrArg Prod.snd hk).trans hrat)
      exact hno (h.running r ((upsertAttempt_other hu hne).mp hr) hid hs).2
  · intro hty n hpos hle _
    rw [hsa.id]
    rw [hsa.attempt] at hle
    by_cases hn : n = t.attempt
    · exact ⟨mine, hmi, hmid.trans hrid, hmno.trans (hrat.trans hn.symm), hmst ▸ hrs⟩
    · obtain ⟨r, hr, hid, hno, hst⟩ := h.ended (hsa.taskType ▸ hty) n hpos hle fun heq => absurd heq hn
      have hne : AttemptRow.key r ≠ AttemptRow.key row := fun hk =>
        hn (hno.symm.trans ((congrArg Prod.snd hk).trans hrat))
      exact ⟨r, (upsertAttempt_other hu hne).mpr hr, hid, hno, hst⟩

theorem TaskAgree.sweep {w : World} {skip} (hi : TaskInv w.log w.db.attempts t) (h : TaskAgree w.db.attempts t)
    (hab : t ∈ abandonedTasks w.db skip) (hrun : t.status = .running) :
    TaskAgree (Tasks.recoverCancelled w.db skip).attempts (t.sweepCancelled w.db.clock) := by
  have hty := (Task.abandoned_iff.mp (mem_abandonedTasks hab).2).1
  -- この仕事の実行中の記録は、見回りの対象である。
  have hma : ∀ row ∈ w.db.attempts, row.taskId = t.id → row.status = .running →
      (row.status = .running ∧ (abandonedTasks w.db skip).any fun r =>
        r.id = row.taskId ∧ r.projectRef = row.projectRef ∧ r.attempt = row.attemptNo) := by
    intro row hr hid hs
    refine ⟨hs, List.any_eq_true.mpr ⟨t, hab, ?_⟩⟩
    simp [hid, (hi.history row hr hid).2.1, (h.running row hr hid hs).2]
  refine ⟨?_, ?_⟩
  · intro row' hr' hid hs
    exfalso
    obtain ⟨row, hr, rfl⟩ := mem_update.mp hr'
    revert hid hs
    split
    · simp
    next hp => exact fun hid hs => hp (decide_eq_true (hma row hr hid hs))
  · intro _ n hpos hle _
    have hrow : ∃ row ∈ w.db.attempts, row.taskId = t.id ∧ row.attemptNo = n := by
      by_cases hn : n = t.attempt
      · obtain ⟨row, hr, hid, hno, -⟩ := hi.running hrun hty
        exact ⟨row, hr, hid, hno.trans hn.symm⟩
      · obtain ⟨row, hr, hid, hno, -⟩ := h.ended hty n hpos hle fun heq => absurd heq hn
        exact ⟨row, hr, hid, hno⟩
    obtain ⟨row, hr, hid, hno⟩ := hrow
    refine ⟨_, mem_update.mpr ⟨row, hr, rfl⟩, ?_⟩
    split
    · exact ⟨hid, hno, by simp⟩
    next hp => exact ⟨hid, hno, fun hs => hp (decide_eq_true (hma row hr hid hs))⟩

theorem Change.taskAgree {e w log'} (ht : t ∈ w.db.tasks) (hu : (attempts'.map AttemptRow.key).Nodup)
    (hi : TaskInv w.log w.db.attempts t) (h : TaskAgree w.db.attempts t) (hcl : Clean w e) (hc : Change w e log' attempts' t t') : TaskAgree attempts' t' := by
  cases hc with
  | frame hlog hatt => exact h.frame hatt
  | claim hrun hlog hatt =>
    subst hatt
    have hhe := Task.not_held_of_queued (Task.runnable_iff.mp hrun).1
    refine ⟨?_, ?_⟩
    · intro row hr hid hs
      have hst := (h.running row hr hid hs).1
      simp [Task.held, hst] at hhe
    · grind [h.ended, Task.held, Task.lease]
  | recover he hr hlog hatt =>
    subst he hatt
    have hne : t.taskType ≠ .edgeFunction := by
      intro hty
      rw [hcl t ht hty] at hr
      simp at hr
    refine ⟨?_, ?_⟩
    · intro row hr hid _
      exact absurd (hi.history row hr (hid.trans (Task.recover_same t _).id)).1 hne
    · intro hty
      exact absurd ((Task.recover_same t _).taskType ▸ hty) hne
  | renew hlog hatt =>
    subst hatt
    exact ⟨h.running, h.ended⟩
  | start hl hs hca hlog hatt =>
    subst hatt
    refine ⟨?_, ?_⟩
    · intro row hr hid hrs
      rcases List.mem_cons.mp hr with rfl | hr
      · exact ⟨rfl, hl.attempt.symm⟩
      · rw [(h.running row hr hid hrs).1] at hs
        cases hs
    · grind [h.ended, Task.held, Task.begin]
  | finish he hl hhe hli hrid hrr hrat hrs hup hlog =>
    refine h.finish hu ⟨rfl, rfl, rfl, rfl⟩ (hrid.trans hl.id.symm) (hrat.trans hl.attempt.symm) ?_ hup
    rw [hrs]
    exact Outcome.attempt_ne_running _
  | cancelQueued he hq hlog hatt =>
    subst hatt
    exact h.idle ⟨rfl, rfl, rfl, rfl⟩ (Task.not_held_of_queued hq)
  | cancelHeld hhe hty hlog hatt =>
    subst hatt
    have hs := (Task.requestCancel_held w.db.clock hhe).1
    refine ⟨?_, ?_⟩
    · intro row hr hid hrs
      rw [hs]
      exact h.running row hr hid hrs
    · intro hty' n hpos hle hn
      refine h.ended hty' n hpos hle fun heq => ?_
      have := hn heq
      rwa [Task.held, hs] at this
  | sweep he hab hlog hatt =>
    subst he hatt
    exact h.sweep hi hab (hcl t hab)
  | reopen hr hlog hatt =>
    subst hatt
    refine h.idle ⟨rfl, rfl, rfl, rfl⟩ ?_
    simp only [Task.retriable, decide_eq_true_eq] at hr
    rcases hr with hs | hs | hs <;> simp [Task.held, hs]

theorem step_agree {e w} (h : Inv w) (ha : Agree w.db) (hcl : Clean w e) : Agree (step w e).db := by
  rw [agree_iff h.sound] at ha
  rw [agree_iff (step_sound h.sound e)]
  intro t' ht'
  rcases (step_turns h.sound.rows e).mem_cases ht' with ⟨t, ht, -, hc⟩ | hnew
  · exact hc.taskAgree ht (step_sound h.sound e).unique (h.tasks t ht) (ha t ht) hcl
  · refine ⟨?_, ?_⟩
    · intro row hr hid _
      rw [hnew.attempts] at hr
      obtain ⟨t, ht, htid⟩ := h.sound.owner row hr
      exact absurd (h.sound.fresh t ht) (by rw [htid, hid, hnew.id]; exact Nat.lt_irrefl _)
    · intro _ n hpos hle _
      rw [hnew.attempt] at hle
      omega

/-! ## 見回りが残す食い違い -/

theorem recover_disagrees {w} (h : Inv w) {started projectRef} {taskTypes : List TaskType}
    (ht : t ∈ w.db.tasks) (hty : t.taskType = .edgeFunction) (hr : t.recoverable (min started w.db.clock) projectRef taskTypes = true) :
    ¬ Agree (step w (.recoverExpiredLeases started projectRef taskTypes)).db := by
  intro ha
  have hi := h.tasks t ht
  obtain ⟨hhe, -, -⟩ := Task.recoverable_held hr
  have hmem : t.recover (min started w.db.clock) ∈ (step w (.recoverExpiredLeases started projectRef taskTypes)).db.tasks :=
    mem_update.mpr ⟨t, ht, by simp [hr]⟩
  rw [agree_iff (step_sound h.sound _)] at ha
  have hsa := Task.recover_same t (min started w.db.clock)
  have hnot : (t.recover (min started w.db.clock)).held = false := by
    rcases Task.recover_status t (min started w.db.clock) with hs | ⟨hs, -⟩ <;> simp [Task.held, hs]
  rcases Task.held_iff.mp hhe with hs | hs
  · -- 始めていない試みには、記録の行がない。
    obtain ⟨row, hrow, hid, hno, -⟩ := (ha _ hmem).ended (hsa.taskType.trans hty) t.attempt (hi.held hhe)
      (Nat.le_of_eq hsa.attempt.symm) fun _ => hnot
    exact (hi.history row hrow (hid.trans hsa.id)).2.2.2 hno hs
  · -- 始めた試みの記録は、実行中のまま残る。
    obtain ⟨row, hrow, hid, -, hst⟩ := hi.running hs hty
    have hrun := ((ha _ hmem).running row hrow (hid.trans hsa.id.symm) hst).1
    simp [Task.held, hrun] at hnot

theorem recoverCancelled_disagrees {w} (h : Inv w) {skip} (hab : t ∈ abandonedTasks w.db skip)
    (hs : t.status ≠ .running) : ¬ Agree (step w (.recoverCancelled skip)).db := by
  intro ha
  obtain ⟨ht, hab'⟩ := mem_abandonedTasks hab
  obtain ⟨hty, hhe, -, -⟩ := Task.abandoned_iff.mp hab'
  have hi := h.tasks t ht
  have hls : t.status = .leased := (Task.held_iff.mp hhe).resolve_right hs
  have hmem : t.sweepCancelled w.db.clock ∈ (step w (.recoverCancelled skip)).db.tasks := by
    have hany : (abandonedTasks w.db skip).any (fun r => r.id = t.id) = true :=
      List.any_eq_true.mpr ⟨t, hab, by simp⟩
    exact mem_update.mpr ⟨t, ht, by simp [hany]⟩
  rw [agree_iff (step_sound h.sound _)] at ha
  obtain ⟨row', hr', hid, hno, -⟩ := (ha _ hmem).ended hty t.attempt (hi.held hhe) (Nat.le_refl _) fun _ => rfl
  obtain ⟨row, hr, rfl⟩ := mem_update.mp hr'
  have hkey : row.taskId = t.id ∧ row.attemptNo = t.attempt := by
    revert hid hno
    split <;> exact fun hid hno => ⟨hid, hno⟩
  exact (hi.history row hr hkey.1).2.2.2 hkey.2 hls

theorem clean_of_agree {e w} (h : Inv w) (ha : Agree (step w e).db) : Clean w e := by
  cases e with
  | recoverExpiredLeases started projectRef taskTypes =>
    intro t ht hty
    by_contra hr
    exact recover_disagrees h ht hty (by simpa using hr) ha
  | recoverCancelled skip =>
    intro t hab
    by_contra hs
    exact recoverCancelled_disagrees h hab hs ha
  | _ => trivial

end Supacloud.Tasks.Background
