import Supacloud.PostgresUpgrade.Workers

/-!
# 状態の移り先と行の書き換え
-/

namespace Supacloud.PostgresUpgrade

open Library PostgresUpgradeStatus Thread List

variable {now : Timestamp} {row row' : Upgrade} {goal : Goal} {a b : PostgresUpgradeStatus} {log log' : List Entry}

namespace PostgresUpgradeStatus

def early : PostgresUpgradeStatus → Bool
  | draft | preflightRunning | preflightFailed | awaitingApproval | backupRunning | failed | cancelled => true
  | upgradeRunning | validating | succeeded | rollbackRequested | rollbackRunning | rolledBack | manualRecoveryRequired => false

def rewinding : PostgresUpgradeStatus → Bool
  | rollbackRequested | rollbackRunning | rolledBack | manualRecoveryRequired => true
  | _ => false

end PostgresUpgradeStatus

section

variable (h : canTransitionPostgresUpgrade a b = true)

include h

theorem mem_transitions : b ∈ a.transitions := by
  simpa [canTransitionPostgresUpgrade] using h

theorem late_closed (ha : a.early = false) : b.early = false ∧ b ≠ .upgradeRunning := by
  have hb := mem_transitions h
  cases a <;> simp [early, transitions] at ha hb
  case manualRecoveryRequired => exact ⟨by rw [hb]; rfl, by rw [hb]; decide⟩
  all_goals
    rcases hb with rfl | hb
    · exact ⟨rfl, by decide⟩
    · first
        | exact ⟨by rw [hb]; rfl, by rw [hb]; decide⟩
        | (rcases hb with rfl | rfl <;> exact ⟨rfl, by decide⟩)

theorem rewinding_closed (ha : a.rewinding = true) : b.rewinding = true := by
  have hb := mem_transitions h
  cases a <;> simp [rewinding, transitions] at ha hb
  case manualRecoveryRequired => rw [hb]; rfl
  all_goals
    rcases hb with rfl | rfl
    · rfl
    · rfl

end

theorem upgradeRunning_from (h : canTransitionPostgresUpgrade a .upgradeRunning = true) : a = .backupRunning := by
  have hb := mem_transitions h
  cases a <;> simp [transitions] at hb
  rfl

theorem terminal_stuck (h : canTransitionPostgresUpgrade a b = true) : a.terminal = false := by
  have hb := mem_transitions h
  cases a <;> first | rfl | simp [transitions] at hb

structure Moved (row row' : Upgrade) : Prop where
  id : row'.id = row.id
  targetMajor : row'.targetMajor = row.targetMajor
  status : row'.status = row.status ∨ canTransitionPostgresUpgrade row.status row'.status = true
  scope : row'.scopeSnapshot = row.scopeSnapshot ∨ (row'.status = .upgradeRunning ∧ row.status = .backupRunning)

theorem Moved.refl (row) : Moved row row := ⟨rfl, rfl, .inl rfl, .inl rfl⟩

theorem Moved.late (h : Moved row row') (hl : row.status.early = false) :
    row'.status.early = false ∧ row'.scopeSnapshot = row.scopeSnapshot := by
  have hsc : row'.scopeSnapshot = row.scopeSnapshot := by
    rcases h.scope with hs | ⟨-, hs⟩
    · exact hs
    · rw [hs] at hl
      cases hl
  rcases h.status with hs | hs
  · exact ⟨hs ▸ hl, hsc⟩
  · exact ⟨(late_closed hs hl).1, hsc⟩

theorem Moved.rewinding (h : Moved row row') (hr : row.status.rewinding = true) : row'.status.rewinding = true := by
  rcases h.status with hs | hs
  · rw [hs]
    exact hr
  · exact rewinding_closed hs hr

theorem Moved.terminal (h : Moved row row') (ht : row.status.terminal = true) : row'.status = row.status := by
  rcases h.status with hs | hs
  · exact hs
  · rw [terminal_stuck hs] at ht
    cases ht

theorem moved_lease (token) : Moved row (row.lease now token) := ⟨rfl, rfl, .inl rfl, .inl rfl⟩

theorem apply_status : (goal.apply now row).status = goal.next := rfl

theorem moved_apply (h : canTransitionPostgresUpgrade row.status goal.next = true) : Moved row (goal.apply now row) := by
  refine ⟨rfl, rfl, .inr h, ?_⟩
  cases goal with
  | upgradeRunning backupId scopeSnapshot => exact .inr ⟨rfl, upgradeRunning_from h⟩
  | preflightRunning | preflightDone _ | backupRunning | rollbackRequested _ _ | validating _ | succeeded _ _ | failed _
  | manualRecoveryRequired _ | rollbackRunning | rolledBack _ _ => exact .inl rfl

/-!
## 引き上げの不変条件
-/

variable {w w' : World} {t : Thread} {stage : Stage} {call : Nat}

/-! ## 呼び出しごとの不変条件 -/

def Goal.Ok (log : List Entry) (row : Upgrade) : Goal → Prop
  | .upgradeRunning backupId _ => Entry.backedUp row.id backupId ∈ log
  | .succeeded _ _ => row.status.early = false ∧ Entry.validated row.id row.targetMajor row.scopeSnapshot ∈ log
  | .rollbackRunning => row.status.rewinding = true
  | _ => True

def Stage.Ok (log : List Entry) (row : Upgrade) : Stage → Prop
  | .reading goal => goal.Ok log row
  | .writing goal previous => goal.Ok log row ∧ canTransitionPostgresUpgrade previous goal.next = true
  | .spawning .execute => Justified log row.id
  | .rereading _ => row.status.early = false
  | .validating _ scopeSnapshot => row.status.early = false ∧ row.scopeSnapshot = scopeSnapshot
  | _ => True

theorem Justified.mono {id} (h : Justified log id) (hsub : log ⊆ log') : Justified log' id := by
  obtain ⟨row, backupId, scopeSnapshot, hrow, hid, hsts, hba, hsc, hbc⟩ := h
  exact ⟨row, backupId, scopeSnapshot, hsub hrow, hid, hsts, hba, hsc, hsub hbc⟩

theorem Goal.Ok.mono (h : goal.Ok log row) (hsub : log ⊆ log') (hmo : Moved row row') : goal.Ok log' row' := by
  cases goal with
  | upgradeRunning backupId scopeSnapshot =>
    rw [Goal.Ok, hmo.id]
    exact hsub h
  | succeeded evidence validation => grind [hmo.late, hmo.id, hmo.targetMajor, Goal.Ok]
  | rollbackRunning => exact hmo.rewinding h
  | preflightRunning | preflightDone _ | backupRunning | rollbackRequested _ _ | validating _ | failed _
  | manualRecoveryRequired _ | rolledBack _ _ => trivial

theorem Stage.Ok.mono (h : stage.Ok log row) (hsub : log ⊆ log') (hmo : Moved row row') : stage.Ok log' row' := by
  cases stage with
  | reading goal => exact Goal.Ok.mono h hsub hmo
  | writing goal previous => exact ⟨Goal.Ok.mono h.1 hsub hmo, h.2⟩
  | spawning action =>
    cases action with
    | execute =>
      rw [Stage.Ok, hmo.id]
      exact Justified.mono h hsub
    | rollback => trivial
  | rereading evidence => exact (hmo.late h).1
  | validating evidence scopeSnapshot =>
    obtain ⟨hla, hsc⟩ := hmo.late h.1
    exact ⟨hla, hsc.trans h.2⟩
  | preflight | backup | executing _ _ | done => trivial

theorem afterFailure_ok (t : Thread) (error goal log row) : (t.afterFailure error goal).Ok log row := by
  cases goal with
  | succeeded evidence validation =>
    simp only [afterFailure, validationFailed]
    split
    · trivial
    · trivial
  | preflightRunning | preflightDone _ | backupRunning | rollbackRequested _ _ | upgradeRunning _ _ | validating _ | failed _
  | manualRecoveryRequired _ | rollbackRunning | rolledBack _ _ => trivial

theorem executorFailed_ok (t : Thread) (error action log row) : (t.executorFailed error action).Ok log row := by
  cases action <;> trivial

theorem executorFinished_ok (t : Thread) (evidence action log row) : (t.executorFinished evidence action).Ok log row := by
  cases action with
  | execute | rollback =>
    rw [executorFinished]
    split
    · trivial
    · exact executorFailed_ok ..

theorem validationFailed_ok (t : Thread) (error log row) : (t.validationFailed error).Ok log row := by
  rw [validationFailed]
  split <;> trivial

theorem raised_ok (t : Thread) (error log row) : (t.raised error).Ok log row := by
  rw [raised]
  cases t.stage with
  | reading goal | writing goal previous => exact afterFailure_ok ..
  | spawning action => exact executorFailed_ok ..
  | validating evidence scopeSnapshot => exact validationFailed_ok ..
  | preflight | backup | executing _ _ | rereading _ | done => trivial

theorem claimedStage_ok (row log) : (claimedStage row).Ok log row := by
  rw [claimedStage]
  cases hsts : row.status with
  | validating => exact ⟨by rw [hsts]; rfl, rfl⟩
  | rollbackRequested =>
    rw [Stage.Ok, Goal.Ok, hsts]
    rfl
  | draft | preflightRunning | preflightFailed | awaitingApproval | backupRunning | upgradeRunning | succeeded | rollbackRunning
  | rolledBack | failed | manualRecoveryRequired | cancelled => trivial

def Stage.Settled (stage : Stage) : Prop := ∀ action, stage ≠ .spawning action

theorem afterFailure_settled (t : Thread) (error goal) : (t.afterFailure error goal).Settled := by
  intro action
  cases goal <;> exact nofun

theorem executorFailed_settled (t : Thread) (error action) : (t.executorFailed error action).Settled := by
  intro action'
  cases action <;> exact nofun

theorem executorFinished_settled (t : Thread) (evidence action) : (t.executorFinished evidence action).Settled := by
  cases action with
  | execute | rollback =>
    rw [executorFinished]
    split
    · exact nofun
    · exact executorFailed_settled t _ _

theorem raised_settled (t : Thread) (error) : (t.raised error).Settled := by
  rw [raised]
  cases t.stage with
  | reading goal | writing goal previous => exact afterFailure_settled t error goal
  | spawning action => exact executorFailed_settled t error action
  | preflight | backup | executing _ _ | rereading _ | done | validating _ _ => exact nofun

theorem claimedStage_settled (row) : (claimedStage row).Settled := by
  rw [claimedStage]
  cases row.status <;> exact nofun

/-! ## 全体の不変条件 -/

def Entry.upgrade : Entry → UpgradeId
  | .backedUp id _ | .accepted id | .started _ id | .validated id .. => id
  | .committed row => row.id

namespace World

def spawning (w : World) (action : ExecutorAction) (id : UpgradeId) : Nat :=
  w.threads.countP fun t => decide (t.row.id = id) && decide (t.stage = .spawning action)

structure Sound (w : World) : Prop where
  ids : (w.rows.map Upgrade.id).Nodup
  idBound : ∀ row ∈ w.rows, row.id < w.nextId
  entries : ∀ e ∈ w.log, ∃ row ∈ w.rows, row.id = e.upgrade
  calls : (w.threads.map Thread.call).Nodup
  callBound : ∀ t ∈ w.threads, t.call < w.nextCall
  threads : ∀ t ∈ w.threads, ∃ row ∈ w.rows, row.id = t.row.id ∧ row.targetMajor = t.row.targetMajor ∧ t.stage.Ok w.log row
  executions : ∀ row ∈ w.rows, w.started .execute row.id + w.spawning .execute row.id + (if row.status.early then 1 else 0) ≤ 1
  rollbacks : ∀ row ∈ w.rows,
    w.started .rollback row.id + w.spawning .rollback row.id + (if row.status = .rollbackRequested then 1 else 0) ≤ w.accepted row.id
  justified : Since (fun earlier e => ∀ id, e = .started .execute id → Justified earlier id) w.log
  succeeded : ∀ row ∈ w.rows, row.status = .succeeded → Entry.validated row.id row.targetMajor row.scopeSnapshot ∈ w.log
  single : ∀ a ∈ w.rows, ∀ b ∈ w.rows, a.status.fenced = true → b.status.fenced = true → a = b

theorem sound_start (now) : (start now).Sound := by
  constructor
  case justified => exact fun later old earlier hspl => by simp [start] at hspl
  all_goals simp [start]

theorem Sound.fresh {id} (h : w.Sound) (hid : w.nextId ≤ id) (action) : w.started action id = 0 ∧ w.spawning action id = 0 := by
  constructor
  · refine count_eq_zero.mpr fun hmem => ?_
    obtain ⟨row, hrow, hroI⟩ := h.entries _ hmem
    have hbo := h.idBound row hrow
    rw [hroI] at hbo
    exact Nat.lt_irrefl _ (Nat.lt_of_lt_of_le hbo hid)
  · refine countP_eq_zero.mpr fun t ht hmi => ?_
    obtain ⟨row, hrow, hroI, -⟩ := h.threads t ht
    have hbo := h.idBound row hrow
    simp only [Bool.and_eq_true, decide_eq_true_eq] at hmi
    rw [hroI, hmi.1] at hbo
    exact Nat.lt_irrefl _ (Nat.lt_of_lt_of_le hbo hid)

theorem thread_mem (ht : w.thread call = some t) : t ∈ w.threads ∧ t.call = call := by
  refine ⟨mem_of_find?_eq_some ht, ?_⟩
  simpa using find?_some ht

/-! ## 一つの呼び出しだけが進む一歩 -/

theorem mem_setStage {t'} (h : t' ∈ (w.setStage call stage).threads) :
    (t' ∈ w.threads ∧ t'.call ≠ call) ∨ ∃ t ∈ w.threads, t.call = call ∧ t' = { t with stage } := by
  obtain ⟨t, ht, rfl⟩ := mem_update.mp h
  by_cases hca : t.call = call
  · exact .inr ⟨t, ht, hca, by simp [hca]⟩
  · exact .inl ⟨by simpa [hca] using ht, by simp [hca]⟩

theorem Sound.spawning_setStage (h : w.Sound) (ht : t ∈ w.threads) (stage action id) :
    (w.setStage t.call stage).spawning action id + (if t.row.id = id ∧ t.stage = .spawning action then 1 else 0) =
      w.spawning action id + (if t.row.id = id ∧ stage = .spawning action then 1 else 0) := by
  have hco := countP_update_key (f := fun t : Thread => { t with stage }) h.calls ht
    (fun t => decide (t.row.id = id) && decide (t.stage = .spawning action))
  simpa [spawning, setStage] using hco

theorem spawning_append (t : Thread) (hse : t.stage.Settled) (action id) :
    (w.threads ++ [t]).countP (fun t => decide (t.row.id = id) && decide (t.stage = .spawning action)) = w.spawning action id := by
  rw [countP_append, spawning]
  simp [hse action]

theorem Sound.setStage (h : w.Sound) (ht : t ∈ w.threads) (hse : stage.Settled)
    (hok : ∀ row ∈ w.rows, row.id = t.row.id → row.targetMajor = t.row.targetMajor → t.stage.Ok w.log row → stage.Ok w.log row) :
    (w.setStage t.call stage).Sound := by
  have hsp : ∀ action id, (w.setStage t.call stage).spawning action id ≤ w.spawning action id := by
    intro action id
    have hco := h.spawning_setStage ht stage action id
    simp only [hse action, and_false, if_false, Nat.add_zero] at hco
    exact hco ▸ Nat.le_add_right _ _
  refine { h with calls := ?_, callBound := ?_, threads := ?_, executions := ?_, rollbacks := ?_ }
  · have hcas : (w.setStage t.call stage).threads.map call = w.threads.map call :=
      map_update fun _ _ => rfl
    rw [hcas]
    exact h.calls
  · intro t' ht'
    rcases mem_setStage ht' with ⟨ht', -⟩ | ⟨u, hu, -, rfl⟩
    · exact h.callBound t' ht'
    · exact h.callBound u hu
  · intro t' ht'
    rcases mem_setStage ht' with ⟨ht', -⟩ | ⟨u, hu, hca, rfl⟩
    · exact h.threads t' ht'
    · cases eq_of_key h.calls hu ht hca
      obtain ⟨row, hrow, hid, hta, hold⟩ := h.threads t ht
      exact ⟨row, hrow, hid, hta, hok row hrow hid hta hold⟩
  · intro row hrow
    have hbu := h.executions row hrow
    have hle := hsp .execute row.id
    have hst : (w.setStage t.call stage).started .execute row.id = w.started .execute row.id := rfl
    rw [hst]
    omega
  · intro row hrow
    have hbu := h.rollbacks row hrow
    have hle := hsp .rollback row.id
    have hst : (w.setStage t.call stage).started .rollback row.id = w.started .rollback row.id := rfl
    have hac : (w.setStage t.call stage).accepted row.id = w.accepted row.id := rfl
    rw [hst, hac]
    omega

/-! ## 記録と新しい呼び出し -/

theorem Sound.record (h : w.Sound) {e} (he : ∃ row ∈ w.rows, row.id = e.upgrade) (hsta : ∀ action id, e ≠ .started action id) :
    (w.record e).Sound := by
  have hst : ∀ action id, (w.record e).started action id = w.started action id := by
    intro action id
    exact count_cons_of_ne (hsta action id)
  have hsub : w.log ⊆ (w.record e).log := subset_cons_self _ _
  refine { h with entries := ?_, threads := ?_, executions := ?_, rollbacks := ?_, justified := ?_, succeeded := ?_ }
  · intro e' he'
    rcases mem_cons.mp he' with rfl | he'
    · exact he
    · exact h.entries e' he'
  · intro t ht
    obtain ⟨row, hrow, hid, hta, hok⟩ := h.threads t ht
    exact ⟨row, hrow, hid, hta, hok.mono hsub (Moved.refl row)⟩
  · intro row hrow
    rw [hst]
    exact h.executions row hrow
  · intro row hrow
    have hac : w.accepted row.id ≤ (w.record e).accepted row.id := count_le_count_cons
    rw [hst]
    exact (h.rollbacks row hrow).trans hac
  · exact h.justified.cons fun id heq => absurd heq (hsta .execute id)
  · exact fun row hrow hsts => hsub (h.succeeded row hrow hsts)

theorem Sound.spawnThread (h : w.Sound) {token} (hse : stage.Settled)
    (hrow : ∃ r ∈ w.rows, r.id = row.id ∧ r.targetMajor = row.targetMajor ∧ stage.Ok w.log r) : (w.spawnThread row token stage).Sound := by
  have hsp : ∀ action id, (w.spawnThread row token stage).spawning action id = w.spawning action id :=
    fun action id => spawning_append _ hse action id
  refine { h with calls := ?_, callBound := ?_, threads := ?_, executions := ?_, rollbacks := ?_ }
  · rw [World.spawnThread, map_append]
    refine nodup_append.mpr ⟨h.calls, nodup_singleton _, ?_⟩
    intro call hca call' hca' heq
    obtain ⟨t, ht, rfl⟩ := mem_map.mp hca
    rw [map_singleton, mem_singleton] at hca'
    exact absurd (h.callBound t ht) (by rw [heq, hca']; exact Nat.lt_irrefl _)
  · intro t ht
    rcases mem_append.mp ht with ht | ht
    · exact Nat.lt_succ_of_lt (h.callBound t ht)
    · rw [mem_singleton.mp ht]
      exact Nat.lt_succ_self _
  · intro t ht
    rcases mem_append.mp ht with ht | ht
    · exact h.threads t ht
    · rw [mem_singleton.mp ht]
      exact hrow
  · intro r hr
    rw [hsp]
    exact h.executions r hr
  · intro r hr
    rw [hsp]
    exact h.rollbacks r hr

end World

end Supacloud.PostgresUpgrade
