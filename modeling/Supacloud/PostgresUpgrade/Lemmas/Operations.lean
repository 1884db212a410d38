import Supacloud.PostgresUpgrade.Lemmas.Soundness

/-!
# 一歩ごとの不変条件の保存
-/

namespace Supacloud.PostgresUpgrade

open Library Moved List

variable {w w' : World} {t : Thread} {row row' : Upgrade} {goal : Goal} {stage : Stage} {previous : PostgresUpgradeStatus}

namespace World

/-! ## 貸し出し -/

theorem Sound.lease {f} (h : w.Sound) (p)
    (hf : ∀ row, (f row).id = row.id ∧ (f row).targetMajor = row.targetMajor ∧ (f row).status = row.status ∧ (f row).scopeSnapshot = row.scopeSnapshot) :
    ({ w with rows := update p f w.rows } : World).Sound := by
  have hmem : ∀ row' ∈ update p f w.rows, ∃ row ∈ w.rows, row'.id = row.id ∧ row'.targetMajor = row.targetMajor ∧
      row'.status = row.status ∧ row'.scopeSnapshot = row.scopeSnapshot := by
    intro row' hro'
    obtain ⟨row, hrow, rfl⟩ := mem_update.mp hro'
    refine ⟨row, hrow, ?_⟩
    split
    · exact hf row
    · exact ⟨rfl, rfl, rfl, rfl⟩
  have hids : (update p f w.rows).map Upgrade.id = w.rows.map Upgrade.id := map_update fun row _ => (hf row).1
  refine { h with
    ids := ?_, idBound := ?_, entries := ?_, threads := ?_, executions := ?_, rollbacks := ?_, succeeded := ?_, single := ?_ }
  · exact hids ▸ h.ids
  · intro row' hro'
    obtain ⟨row, hrow, hid, -⟩ := hmem row' hro'
    exact hid ▸ h.idBound row hrow
  · grind [h.entries, mem_update]
  · intro t ht
    obtain ⟨row, hrow, hid, hta, hok⟩ := h.threads t ht
    refine ⟨if p row then f row else row, mem_update.mpr ⟨row, hrow, rfl⟩, ?_⟩
    split
    · obtain ⟨hid', hta', hsts, hsc⟩ := hf row
      exact ⟨hid'.trans hid, hta'.trans hta, hok.mono (List.Subset.refl _) ⟨hid', hta', .inl hsts, .inl hsc⟩⟩
    · exact ⟨hid, hta, hok⟩
  · intro row' hro'
    obtain ⟨row, hrow, hid, -, hsts, -⟩ := hmem row' hro'
    rw [hid, hsts]
    exact h.executions row hrow
  · intro row' hro'
    obtain ⟨row, hrow, hid, -, hsts, -⟩ := hmem row' hro'
    rw [hid, hsts]
    exact h.rollbacks row hrow
  · grind [h.succeeded]
  · grind [h.single, h.ids, eq_of_key]

theorem Sound.heartbeat (h : w.Sound) (id token) : (w.heartbeat id token).Sound :=
  h.lease _ fun _ => ⟨rfl, rfl, rfl, rfl⟩

theorem candidate_mem {skip} (h : w.candidate skip = some row) : row ∈ w.rows :=
  mem_of_find?_eq_some h

theorem Sound.claim (h : w.Sound) (skip lost) : (w.claim skip lost).Sound := by
  rw [World.claim]
  cases hca : w.candidate skip with
  | none => exact h
  | some row =>
    have hle := h.lease (fun r => r.id = row.id) (f := Upgrade.lease w.now w.nextCall) fun _ => ⟨rfl, rfl, rfl, rfl⟩
    have hmem : row.lease w.now w.nextCall ∈ update (fun r => r.id = row.id) (Upgrade.lease w.now w.nextCall) w.rows :=
      mem_update.mpr ⟨row, candidate_mem hca, by simp⟩
    refine hle.spawnThread ?_ ⟨row.lease w.now w.nextCall, hmem, rfl, rfl, ?_⟩
    · cases lost with
      | true => exact nofun
      | false => exact claimedStage_settled _
    · cases lost with
      | true => trivial
      | false => exact claimedStage_ok _ _

/-! ## 運用者の呼び出し -/

theorem Sound.operate (h : w.Sound) (id requestedRef confirmation) (expected status goal)
    (hok : ∀ row row', (goal row).Ok w.log row') : (w.operate id requestedRef confirmation expected status goal).Sound := by
  rw [World.operate]
  cases hfi : w.find id with
  | none => exact h
  | some row =>
    dsimp only
    split
    · exact h
    · exact h.spawnThread nofun ⟨row, mem_of_find?_eq_some hfi, rfl, rfl, hok row row⟩

theorem Sound.request (h : w.Sound) (ref currentMajor targetMajor) : (w.request ref currentMajor targetMajor).Sound := by
  rw [World.request]
  split
  · exact h
  · rename_i hfe
    simp only [any_eq_true, not_exists, not_and] at hfe
    have hfre := fun action => h.fresh (Nat.le_refl w.nextId) action
    have hins : ({ w with
        rows := w.rows ++ [Upgrade.insert w.nextId ref currentMajor targetMajor], nextId := w.nextId + 1 } : World).Sound := by
      refine { h with
        ids := ?_, idBound := ?_, entries := ?_, threads := ?_, executions := ?_, rollbacks := ?_, succeeded := ?_, single := ?_ }
      · rw [map_append]
        refine nodup_append.mpr ⟨h.ids, nodup_singleton _, ?_⟩
        intro id hid id' hid' heq
        obtain ⟨row, hrow, rfl⟩ := mem_map.mp hid
        rw [map_singleton, mem_singleton] at hid'
        exact absurd (h.idBound row hrow) (by rw [heq, hid']; exact Nat.lt_irrefl _)
      · intro row hrow
        rcases mem_append.mp hrow with hrow | hrow
        · exact Nat.lt_succ_of_lt (h.idBound row hrow)
        · rw [mem_singleton.mp hrow]
          exact Nat.lt_succ_self _
      · grind [h.entries]
      · grind [h.threads]
      · intro row hrow
        rcases mem_append.mp hrow with hrow | hrow
        · exact h.executions row hrow
        · rw [mem_singleton.mp hrow]
          obtain ⟨hst, hsp⟩ := hfre .execute
          have hbu : w.started .execute w.nextId + w.spawning .execute w.nextId + 1 ≤ 1 := by rw [hst, hsp]
          exact hbu
      · intro row hrow
        rcases mem_append.mp hrow with hrow | hrow
        · exact h.rollbacks row hrow
        · rw [mem_singleton.mp hrow]
          obtain ⟨hst, hsp⟩ := hfre .rollback
          have hbu : w.started .rollback w.nextId + w.spawning .rollback w.nextId + 0 ≤ w.accepted w.nextId := by
            rw [hst, hsp]
            exact Nat.zero_le _
          exact hbu
      · intro row hrow hsts
        rcases mem_append.mp hrow with hrow | hrow
        · exact h.succeeded row hrow hsts
        · rw [mem_singleton.mp hrow] at hsts
          cases hsts
      · grind
    exact hins.spawnThread nofun ⟨_, mem_append_right _ (mem_singleton_self _), rfl, rfl, trivial⟩

/-! ## 行の更新 -/

theorem Sound.moveRow (h : w.Sound) (ht : t ∈ w.threads) (hwr : t.stage.Settled) (hrow : row ∈ w.rows) (hid : row.id = t.row.id)
    (p : Upgrade → Bool) (f : Upgrade → Upgrade) (hp : ∀ r ∈ w.rows, p r = true ↔ r = row) (hmo : Moved row (f row))
    (hex : (if stage = .spawning .execute then 1 else 0) + (if (f row).status.early then 1 else 0) ≤
      if row.status.early then 1 else 0)
    (hro : w.started .rollback row.id + w.spawning .rollback row.id + (if stage = .spawning .rollback then 1 else 0) +
      (if (f row).status = .rollbackRequested then 1 else 0) ≤ w.accepted row.id)
    (hsu : (f row).status = .succeeded → Entry.validated row.id row.targetMajor (f row).scopeSnapshot ∈ w.log)
    (hsi : (f row).status.fenced = true → ∀ other ∈ w.rows, other.status.fenced = true → other = row)
    (hok : stage.Ok w.log (f row)) : ({ w with rows := update p f w.rows }.setStage t.call stage).Sound := by
  have hmem : ∀ r ∈ update p f w.rows, r = f row ∨ (r ∈ w.rows ∧ r ≠ row) := by grind [mem_update]
  have hke : ∀ r ∈ w.rows, r = row ∨ r ∈ update p f w.rows := by
    intro r hr
    by_cases heq : r = row
    · exact .inl heq
    · refine .inr (mem_update.mpr ⟨r, hr, ?_⟩)
      rw [if_neg fun hpr => heq ((hp r hr).mp hpr)]
  have hmi : f row ∈ update p f w.rows := mem_update.mpr ⟨row, hrow, if_pos ((hp row hrow).mpr rfl)⟩
  have hids : (update p f w.rows).map Upgrade.id = w.rows.map Upgrade.id := by
    rw [update, map_map]
    refine map_congr_left fun r hr => ?_
    by_cases hpr : p r = true
    · cases (hp r hr).mp hpr
      simp [hpr, hmo.id]
    · simp [hpr]
  have hsp : ∀ action id, ({ w with rows := update p f w.rows }.setStage t.call stage).spawning action id =
      w.spawning action id + (if t.row.id = id ∧ stage = .spawning action then 1 else 0) := by
    intro action id
    have hcn := h.spawning_setStage ht stage action id
    simp only [hwr action, and_false, if_false, Nat.add_zero] at hcn
    exact hcn
  have hst : ∀ action id, ({ w with rows := update p f w.rows }.setStage t.call stage).started action id = w.started action id :=
    fun _ _ => rfl
  have hac : ∀ id, ({ w with rows := update p f w.rows }.setStage t.call stage).accepted id = w.accepted id := fun _ => rfl
  have hot : ∀ r ∈ w.rows, r ≠ row → t.row.id ≠ r.id := by
    intro r hr hne heq
    exact hne (eq_of_key h.ids hr hrow (heq.symm.trans hid.symm))
  refine ⟨hids ▸ h.ids, ?_, ?_, ?_, ?_, ?_, ?_, ?_, h.justified, ?_, ?_⟩
  · intro r hr
    rcases hmem r hr with rfl | ⟨hr, -⟩
    · exact hmo.id ▸ h.idBound row hrow
    · exact h.idBound r hr
  · intro e he
    obtain ⟨r, hr, hrid⟩ := h.entries e he
    rcases hke r hr with rfl | hr'
    · exact ⟨f r, hmi, hmo.id.trans hrid⟩
    · exact ⟨r, hr', hrid⟩
  · have hcas : (w.setStage t.call stage).threads.map Thread.call = w.threads.map Thread.call := map_update fun _ _ => rfl
    exact hcas ▸ h.calls
  · intro t' ht'
    rcases mem_setStage ht' with ⟨ht', -⟩ | ⟨u, hu, -, rfl⟩
    · exact h.callBound t' ht'
    · exact h.callBound u hu
  · intro t' ht'
    rcases mem_setStage ht' with ⟨ht', -⟩ | ⟨u, hu, hcl, rfl⟩
    · obtain ⟨r, hr, hrid, hta, hrok⟩ := h.threads t' ht'
      rcases hke r hr with rfl | hr'
      · exact ⟨f r, hmi, hmo.id.trans hrid, hmo.targetMajor.trans hta, hrok.mono (List.Subset.refl _) hmo⟩
      · exact ⟨r, hr', hrid, hta, hrok⟩
    · cases eq_of_key h.calls hu ht hcl
      obtain ⟨r, hr, hrid, hta, -⟩ := h.threads t ht
      cases eq_of_key h.ids hr hrow (hrid.trans hid.symm)
      exact ⟨f row, hmi, hmo.id.trans hid, hmo.targetMajor.trans hta, hok⟩
  · intro r hr
    rw [hst, hsp]
    rcases hmem r hr with rfl | ⟨hr, hne⟩
    · have hbu := h.executions row hrow
      simp only [hmo.id, hid, true_and] at hbu ⊢
      omega
    · simp only [hot r hr hne, false_and, if_false, Nat.add_zero]
      exact h.executions r hr
  · intro r hr
    rw [hst, hsp, hac]
    rcases hmem r hr with rfl | ⟨hr, hne⟩
    · simp only [hmo.id, hid, true_and, Nat.add_assoc] at hro ⊢
      exact hro
    · simp only [hot r hr hne, false_and, if_false, Nat.add_zero]
      exact h.rollbacks r hr
  · intro r hr hsts
    rcases hmem r hr with rfl | ⟨hr, -⟩
    · rw [hmo.id, hmo.targetMajor]
      exact hsu hsts
    · exact h.succeeded r hr hsts
  · intro a ha b hb hfa hfb
    rcases hmem a ha with rfl | ⟨ha, hane⟩
    · rcases hmem b hb with rfl | ⟨hb, hbne⟩
      · rfl
      · exact absurd (hsi hfa b hb hfb) hbne
    · rcases hmem b hb with rfl | ⟨hb, hbne⟩
      · exact absurd (hsi hfb a ha hfa) hane
      · exact h.single a ha b hb hfa hfb

theorem Goal.early_budget (h : canTransitionPostgresUpgrade row.status goal.next = true) :
    (if goal.afterCommit = .spawning .execute then 1 else 0) + (if goal.next.early then 1 else 0) ≤
      if row.status.early then 1 else 0 := by
  have hba : goal.next.early = true → row.status.early = true := by
    intro hea
    by_contra hla
    rw [(late_closed h (Bool.eq_false_iff.mpr hla)).1] at hea
    cases hea
  cases goal with
  | upgradeRunning backupId scopeSnapshot =>
    have hfr : row.status = .backupRunning := upgradeRunning_from h
    rw [hfr]
    rfl
  | preflightRunning | preflightDone _ | backupRunning | rollbackRequested _ _ | validating _ | succeeded _ _ | failed _
  | manualRecoveryRequired _ | rollbackRunning | rolledBack _ _ =>
    rw [if_neg nofun, Nat.zero_add]
    split
    · rename_i hea
      rw [if_pos (hba hea)]
    · exact Nat.zero_le _

theorem rollbackRunning_from (h : canTransitionPostgresUpgrade row.status .rollbackRunning = true) (hrw : row.status.rewinding = true) :
    row.status = .rollbackRequested := by
  have hb := mem_transitions h
  cases hsts : row.status <;> rw [hsts] at hb hrw <;>
    first | rfl | simp [PostgresUpgradeStatus.transitions, PostgresUpgradeStatus.rewinding] at hb hrw

theorem apply_succeeded {now} (h : (goal.apply now row).status = .succeeded) {log} (hok : goal.Ok log row) :
    Entry.validated row.id row.targetMajor (goal.apply now row).scopeSnapshot ∈ log := by
  cases goal with
  | succeeded evidence validation => exact hok.2
  | preflightDone preflight =>
    rw [apply_status, Goal.next] at h
    split at h <;> cases h
  | preflightRunning | backupRunning | rollbackRequested _ _ | upgradeRunning _ _ | validating _ | failed _
  | manualRecoveryRequired _ | rollbackRunning | rolledBack _ _ => cases h

theorem afterCommit_ok {now log} (hok : goal.Ok log row) (hco : Entry.committed (goal.apply now row) ∈ log) :
    goal.afterCommit.Ok log (goal.apply now row) := by
  cases goal with
  | upgradeRunning backupId scopeSnapshot =>
    exact ⟨_, backupId, scopeSnapshot, hco, rfl, rfl, rfl, rfl, hok⟩
  | validating evidence => exact rfl
  | preflightRunning | preflightDone _ | backupRunning | rollbackRequested _ _ | succeeded _ _ | failed _
  | manualRecoveryRequired _ | rollbackRunning | rolledBack _ _ => trivial

theorem afterCommit_rollback (h : goal.afterCommit = .spawning .rollback) : goal = .rollbackRunning := by
  cases goal with
  | rollbackRunning => rfl
  | preflightRunning | preflightDone _ | backupRunning | rollbackRequested _ _ | upgradeRunning _ _ | validating _ | succeeded _ _
  | failed _ | manualRecoveryRequired _ | rolledBack _ _ => cases h

def logged (w : World) (goal : Goal) (row : Upgrade) : World :=
  if goal.next = .rollbackRequested then (w.record (.committed (goal.apply w.now row))).record (.accepted row.id)
  else w.record (.committed (goal.apply w.now row))

theorem logged_rows (w : World) (goal row) : (w.logged goal row).rows = w.rows := by
  rw [logged]
  split <;> rfl

theorem logged_threads (w : World) (goal row) : (w.logged goal row).threads = w.threads := by
  rw [logged]
  split <;> rfl

theorem logged_children (w : World) (goal row) : (w.logged goal row).children = w.children := by
  rw [logged]
  split <;> rfl

theorem writeStatus_cases (w : World) (t goal previous lost) :
    (∃ error, w.writeStatus t goal previous lost = w.setStage t.call (t.afterFailure error goal)) ∨
      ∃ row ∈ w.rows, t.updates previous row = true ∧
        (goal.next.fenced = true → ∀ other ∈ w.rows, other.status.fenced = true → other.id = row.id) ∧
        w.writeStatus t goal previous lost =
          { w.logged goal row with rows := update (t.updates previous) (goal.apply w.now) w.rows }.setStage t.call
            (match lost with
              | none => goal.afterCommit
              | some error => t.afterFailure error goal) := by
  unfold writeStatus
  cases hfi : w.rows.find? (t.updates previous) with
  | none => exact .inl ⟨_, rfl⟩
  | some row =>
    dsimp only
    split
    · exact .inl ⟨_, rfl⟩
    · rename_i huni
      refine .inr ⟨row, mem_of_find?_eq_some hfi, find?_some hfi, ?_, ?_⟩
      · grind
      · rw [logged]
        split <;> rfl

theorem updates_iff (h : w.Sound) (hrow : row ∈ w.rows) (hups : t.updates previous row = true) :
    row.id = t.row.id ∧ row.status = previous ∧ ∀ r ∈ w.rows, t.updates previous r = true ↔ r = row := by
  have hinv : ∀ r, t.updates previous r = true → r.id = t.row.id ∧ r.status = previous := by
    intro r hr
    simp only [Thread.updates, Bool.and_eq_true, decide_eq_true_eq] at hr
    exact hr.1
  obtain ⟨hid, hprs⟩ := hinv row hups
  refine ⟨hid, hprs, fun r hr => ⟨fun hma => ?_, fun heq => heq ▸ hups⟩⟩
  exact eq_of_key h.ids hr hrow ((hinv r hma).1.trans hid.symm)

theorem Sound.logged (h : w.Sound) (hrow : row ∈ w.rows) : (w.logged goal row).Sound := by
  have hco : (w.record (.committed (goal.apply w.now row))).Sound := h.record ⟨row, hrow, rfl⟩ fun _ _ => nofun
  rw [World.logged]
  split
  · exact hco.record ⟨row, hrow, rfl⟩ fun _ _ => nofun
  · exact hco

theorem logged_log (w : World) (goal row) :
    w.log ⊆ (w.logged goal row).log ∧ Entry.committed (goal.apply w.now row) ∈ (w.logged goal row).log := by
  rw [World.logged]
  split
  · exact ⟨fun e he => mem_cons_of_mem _ (mem_cons_of_mem _ he), mem_cons_of_mem _ mem_cons_self⟩
  · exact ⟨fun e he => mem_cons_of_mem _ he, mem_cons_self⟩

theorem Sound.rollback_budget (h : w.Sound) (hrow : row ∈ w.rows) (hcan : canTransitionPostgresUpgrade row.status goal.next = true)
    (hok : goal.Ok w.log row) {stage : Stage} (hstg : stage = .spawning .rollback → goal = .rollbackRunning) :
    (w.logged goal row).started .rollback row.id + (w.logged goal row).spawning .rollback row.id +
      (if stage = .spawning .rollback then 1 else 0) + (if goal.next = .rollbackRequested then 1 else 0) ≤
        (w.logged goal row).accepted row.id := by
  have hbu := h.rollbacks row hrow
  have hst : (w.logged goal row).started .rollback row.id = w.started .rollback row.id := by
    rw [World.logged]
    split <;> simp [started, World.record]
  have hsp : (w.logged goal row).spawning .rollback row.id = w.spawning .rollback row.id := by
    rw [spawning, logged_threads, spawning]
  rw [hst, hsp]
  by_cases hre : goal.next = .rollbackRequested
  · have hnot : stage ≠ .spawning .rollback := by
      intro hspa
      rw [hstg hspa] at hre
      cases hre
    have hac : (w.logged goal row).accepted row.id = w.accepted row.id + 1 := by
      simp [World.logged, hre, accepted, World.record]
    rw [hac, if_neg hnot, if_pos hre]
    omega
  · have hac : (w.logged goal row).accepted row.id = w.accepted row.id := by
      simp [World.logged, hre, accepted, World.record]
    rw [hac, if_neg hre]
    by_cases hspa : stage = .spawning .rollback
    · rw [hstg hspa] at hcan hok
      rw [if_pos hspa]
      rw [if_pos (rollbackRunning_from hcan hok)] at hbu
      exact hbu
    · rw [if_neg hspa]
      omega

theorem Sound.writeStatus (h : w.Sound) (ht : t ∈ w.threads) (hstg : t.stage = .writing goal previous)
    (lost) : (w.writeStatus t goal previous lost).Sound := by
  rcases writeStatus_cases w t goal previous lost with ⟨error, heq⟩ | ⟨row, hrow, hups, huni, heq⟩
  · grind [h.setStage, afterFailure_settled, afterFailure_ok]
  · obtain ⟨hid, hprs, hon⟩ := updates_iff h hrow hups
    have hwr : t.stage.Settled := by
      rw [hstg]
      exact nofun
    obtain ⟨hok, hcan⟩ : goal.Ok w.log row ∧ canTransitionPostgresUpgrade row.status goal.next = true := by
      obtain ⟨r, hr, hrid, -, hok⟩ := h.threads t ht
      cases eq_of_key h.ids hr hrow (hrid.trans hid.symm)
      rw [hstg] at hok
      exact ⟨hok.1, hprs ▸ hok.2⟩
    obtain ⟨hsub, hco⟩ := logged_log w goal row
    have hlo : (w.logged goal row).Sound := h.logged hrow
    have hsi : goal.next.fenced = true → ∀ other ∈ w.rows, other.status.fenced = true → other = row :=
      fun hfe other hot hfo => eq_of_key h.ids hot hrow (huni hfe other hot hfo)
    rw [heq, ← logged_rows w goal row]
    refine hlo.moveRow ?_ hwr ?_ hid _ _ ?_ (moved_apply hcan) ?_ ?_ ?_ ?_ ?_
    · exact (logged_threads w goal row).symm ▸ ht
    · exact (logged_rows w goal row).symm ▸ hrow
    · rw [logged_rows]
      exact hon
    · refine Nat.le_trans (Nat.add_le_add_right ?_ _) (Goal.early_budget hcan)
      cases lost with
      | none => exact Nat.le_refl _
      | some error =>
        rw [if_neg (afterFailure_settled t error goal .execute)]
        exact Nat.zero_le _
    · refine h.rollback_budget hrow hcan hok ?_
      intro hspa
      cases lost with
      | none => exact afterCommit_rollback hspa
      | some error => exact absurd hspa (afterFailure_settled t error goal .rollback)
    · exact fun hsts => hsub (apply_succeeded hsts hok)
    · rw [logged_rows]
      exact hsi
    · cases lost with
      | none => exact afterCommit_ok (hok.mono hsub (refl row)) hco
      | some error => exact afterFailure_ok t error goal _ _

/-! ## 実行器の始まり -/

theorem Sound.spawn (h : w.Sound) (ht : t ∈ w.threads) {action} (hstg : t.stage = .spawning action) : (w.spawn t action).Sound := by
  let w' : World := { w with
    children := { child := w.nextCall, call := t.call, id := t.row.id, action, running := true } :: w.children
    nextCall := w.nextCall + 1 }.record (.started action t.row.id)
  have hspw : w.spawn t action = w'.setStage t.call (.executing action w.nextCall) := rfl
  obtain ⟨mine, hmi, hid, -, hok⟩ := h.threads t ht
  have hsub : w.log ⊆ w'.log := subset_cons_self _ _
  -- 始めようとしていた呼び出しが一つ減り、始めた記録が一つ増える
  have hcn : ∀ a id, (w'.setStage t.call (.executing action w.nextCall)).started a id +
      (w'.setStage t.call (.executing action w.nextCall)).spawning a id = w.started a id + w.spawning a id := by
    intro a id
    have hsp := h.spawning_setStage ht (.executing action w.nextCall) a id
    simp only [hstg, Stage.spawning.injEq, reduceCtorEq, and_false, if_false, Nat.add_zero] at hsp
    have hst : w'.started a id = w.started a id + (if t.row.id = id ∧ action = a then 1 else 0) := by
      simp only [started, w', World.record, count_cons, beq_iff_eq, Entry.started.injEq]
      congr 1
      simp [and_comm]
    have hgo : w'.started a id + (w.setStage t.call (.executing action w.nextCall)).spawning a id = w.started a id + w.spawning a id := by
      rw [hst]
      omega
    exact hgo
  rw [hspw]
  refine ⟨h.ids, h.idBound, ?_, ?_, ?_, ?_, ?_, ?_, ?_, ?_, h.single⟩
  · intro e he
    rcases mem_cons.mp he with rfl | he
    · exact ⟨mine, hmi, hid⟩
    · exact h.entries e he
  · have hcas : (w'.setStage t.call (.executing action w.nextCall)).threads.map Thread.call = w.threads.map Thread.call :=
      map_update fun _ _ => rfl
    exact hcas ▸ h.calls
  · intro t' ht'
    rcases mem_setStage ht' with ⟨ht', -⟩ | ⟨u, hu, -, rfl⟩
    · exact Nat.lt_succ_of_lt (h.callBound t' ht')
    · exact Nat.lt_succ_of_lt (h.callBound u hu)
  · intro t' ht'
    rcases mem_setStage ht' with ⟨ht', -⟩ | ⟨u, hu, -, rfl⟩
    · obtain ⟨r, hr, hrid, hta, hrok⟩ := h.threads t' ht'
      exact ⟨r, hr, hrid, hta, hrok.mono hsub (Moved.refl r)⟩
    · obtain ⟨r, hr, hrid, hta, -⟩ := h.threads u hu
      exact ⟨r, hr, hrid, hta, trivial⟩
  · intro r hr
    rw [hcn]
    exact h.executions r hr
  · intro r hr
    have hac : (w'.setStage t.call (.executing action w.nextCall)).accepted r.id = w.accepted r.id := by
      simp [accepted, w', World.record, World.setStage]
    rw [hcn, hac]
    exact h.rollbacks r hr
  · refine h.justified.cons fun id heq => ?_
    cases heq
    rw [hstg] at hok
    exact hid ▸ hok
  · exact fun r hr hsts => hsub (h.succeeded r hr hsts)

end World

/-!
## 走行の一歩
-/

namespace World

/-! ## 一歩 -/

section

variable (h : w.Sound) (ht : t ∈ w.threads)

include h ht

theorem Sound.recordStage {e} (he : ∃ row ∈ w.rows, row.id = e.upgrade) (hsta : ∀ action id, e ≠ .started action id) (hse : stage.Settled)
    (hok : ∀ row ∈ w.rows, row.id = t.row.id → row.targetMajor = t.row.targetMajor → t.stage.Ok (e :: w.log) row →
      stage.Ok (e :: w.log) row) : ((w.record e).setStage t.call stage).Sound :=
  (h.record he hsta).setStage (w := w.record e) ht hse hok

theorem Sound.readStatus (hstg : t.stage = .reading goal) : (w.readStatus t goal).Sound := by
  rw [World.readStatus]
  cases hfi : w.find t.row.id with
  | none => exact h.setStage ht (afterFailure_settled t _ goal) fun row _ _ _ _ => afterFailure_ok t _ goal _ row
  | some found =>
    dsimp only
    split
    · rename_i hcan
      refine h.setStage ht nofun fun row _ _ _ hok => ?_
      rw [hstg] at hok
      exact ⟨hok, hcan⟩
    · exact h.setStage ht (afterFailure_settled t _ goal) fun row _ _ _ _ => afterFailure_ok t _ goal _ row

theorem Sound.settle (action child output) : (w.settle t action child output).Sound := by
  cases output with
  | error error => exact h.setStage ht (executorFailed_settled t error action) fun row _ _ _ _ => executorFailed_ok t error action _ row
  | ok evidence => grind [h.setStage, World.settle, executorFinished_settled, executorFinished_ok]

theorem Sound.ownRow : ∃ row ∈ w.rows, row.id = t.row.id := by
  obtain ⟨row, hrow, hid, -⟩ := h.threads t ht
  exact ⟨row, hrow, hid⟩

theorem Sound.validate {evidence scopeSnapshot} (hstg : t.stage = .validating evidence scopeSnapshot) (observation) :
    (w.validate t evidence scopeSnapshot observation).Sound := by
  rw [World.validate]
  cases validateUpgrade t.row.targetMajor scopeSnapshot observation with
  | error error => exact h.setStage ht nofun fun row _ _ _ _ => validationFailed_ok t error _ row
  | ok validation =>
    refine h.recordStage ht (h.ownRow ht) (fun _ _ => nofun) nofun fun row _ hid hta hok => ?_
    rw [hstg] at hok
    refine ⟨hok.1, ?_⟩
    rw [hid, hta, hok.2]
    exact mem_cons_self

theorem Sound.resume (e) : (w.resume t e).Sound := by
  cases e with
  | readStatus call =>
    rw [World.resume]
    split
    · exact h.readStatus ht (by assumption)
    · exact h
  | writeStatus call lost =>
    rw [World.resume]
    split
    · exact h.writeStatus ht (by assumption) lost
    · exact h
  | raise call error => exact h.setStage ht (raised_settled t error) fun row _ _ _ _ => raised_ok t error _ row
  | finishPreflight call checks =>
    rw [World.resume]
    split
    · exact h.setStage ht (fun _ => by simp) fun _ _ _ _ _ => trivial
    · exact h
  | finishBackup call backupId projects =>
    rw [World.resume]
    split
    · refine h.recordStage ht (h.ownRow ht) (fun _ _ => by simp) (fun _ => by simp) fun row _ hid _ _ => ?_
      rw [Stage.Ok, Goal.Ok, hid]
      exact mem_cons_self
    · exact h
  | spawn call =>
    rw [World.resume]
    split
    · exact h.spawn ht (by assumption)
    · exact h
  | settle call output =>
    rw [World.resume]
    split
    · exact h.settle ht _ _ output
    · exact h
  | reread call =>
    rw [World.resume]
    split
    · rename_i evidence hstg
      cases hfi : w.find t.row.id with
      | none => exact h.setStage ht (fun _ => by simp) fun _ _ _ _ _ => trivial
      | some found =>
        refine h.setStage ht (fun _ => by simp) fun row hrow hid _ hok => ?_
        rw [hstg] at hok
        have hfn : found = row :=
          eq_of_key h.ids (mem_of_find?_eq_some hfi) hrow (by simpa [hid] using find?_some hfi)
        exact ⟨hok, by rw [hfn]⟩
    · exact h
  | validate call observation =>
    rw [World.resume]
    split
    · exact h.validate ht (by assumption) observation
    · exact h
  | crash call => exact h.setStage ht (fun _ => by simp) fun _ _ _ _ _ => trivial
  | tick _ | request _ _ _ | approve _ _ _ | rollback _ _ _ | claim _ _ | heartbeat _ _ | childExit _ => exact h

end

theorem step_resumes {P : World → Prop} (h : P w) (e) (hrs : ∀ t ∈ w.threads, e.call? = some t.call → P (w.resume t e)) :
    P (match e.call?.bind w.thread with
      | some t => w.resume t e
      | none => w) := by
  cases hth : e.call?.bind w.thread with
  | none => exact h
  | some t =>
    obtain ⟨call, he, hcl⟩ := Option.bind_eq_some_iff.mp hth
    obtain ⟨ht, rfl⟩ := thread_mem hcl
    exact hrs t ht he

theorem sound_step (h : w.Sound) (e : Event) : (step w e).Sound := by
  have hrs : ∀ e, _ := fun e => step_resumes h e fun t ht _ => h.resume ht e
  cases e with
  | tick elapsed | childExit child => exact { h with }
  | request ref currentMajor targetMajor => exact h.request ref currentMajor targetMajor
  | approve id confirmation requestedRef | rollback id confirmation requestedRef => exact h.operate _ _ _ _ _ _ fun _ _ => trivial
  | claim skip lost => exact h.claim skip lost
  | heartbeat id token => exact h.heartbeat id token
  | readStatus _ | writeStatus _ _ | raise _ _ | finishPreflight _ _ | finishBackup _ _ _ | spawn _ | settle _ _ | reread _ | validate _ _ | crash _ =>
    exact hrs _

/-! ## 行の移り変わり -/

theorem moves_setStage (w : World) (t : Thread) (stage) (hrow : row ∈ w.rows) :
    ∃ row' ∈ (w.setStage t.call stage).rows, Moved row row' := ⟨row, hrow, refl row⟩

theorem Sound.moves_writeStatus (h : w.Sound) (ht : t ∈ w.threads)
    (hstg : t.stage = .writing goal previous) (lost) (hrow : row ∈ w.rows) :
    ∃ row' ∈ (w.writeStatus t goal previous lost).rows, Moved row row' := by
  rcases writeStatus_cases w t goal previous lost with ⟨error, heq⟩ | ⟨mine, hmi, hups, -, heq⟩
  · rw [heq]
    exact moves_setStage w t _ hrow
  · obtain ⟨hid, hprs, hon⟩ := updates_iff h hmi hups
    rw [heq]
    refine ⟨if t.updates previous row then goal.apply w.now row else row, mem_update.mpr ⟨row, hrow, rfl⟩, ?_⟩
    split
    · rename_i hma
      cases (hon row hrow).mp hma
      obtain ⟨r, hr, hrid, -, hok⟩ := h.threads t ht
      rw [hstg] at hok
      exact moved_apply (hprs ▸ hok.2)
    · exact refl row

theorem Sound.moves_resume (h : w.Sound) (ht : t ∈ w.threads) (e) (hrow : row ∈ w.rows) :
    ∃ row' ∈ (w.resume t e).rows, Moved row row' := by
  have hke : (w.resume t e).rows = w.rows → ∃ row' ∈ (w.resume t e).rows, Moved row row' :=
    fun heq => ⟨row, heq ▸ hrow, refl row⟩
  cases e with
  | writeStatus call lost =>
    rw [World.resume]
    split
    · exact h.moves_writeStatus ht (by assumption) lost hrow
    · exact ⟨row, hrow, refl row⟩
  | readStatus call =>
    refine hke ?_
    rw [World.resume]
    split
    · rw [World.readStatus]
      split
      · rfl
      · split <;> rfl
    · rfl
  | settle call output =>
    refine hke ?_
    rw [World.resume]
    split
    · rename_i action child _
      cases output with
      | error error => rfl
      | ok evidence =>
        rw [World.settle]
        split <;> rfl
    · rfl
  | reread call =>
    refine hke ?_
    rw [World.resume]
    split
    · cases w.find t.row.id <;> rfl
    · rfl
  | validate call observation =>
    refine hke ?_
    rw [World.resume]
    split
    · rw [World.validate]
      split <;> rfl
    · rfl
  | finishPreflight _ _ | finishBackup _ _ _ | spawn _ =>
    refine hke ?_
    rw [World.resume]
    split <;> rfl
  | raise _ _ | crash _ | tick _ | request _ _ _ | approve _ _ _ | rollback _ _ _ | claim _ _ | heartbeat _ _ | childExit _ =>
    exact ⟨row, hrow, refl row⟩

theorem moves_lease {f} (rows p) (hf : ∀ row, Moved row (f row)) (hrow : row ∈ rows) : ∃ row' ∈ update p f rows, Moved row row' := by
  refine ⟨if p row then f row else row, mem_update.mpr ⟨row, hrow, rfl⟩, ?_⟩
  split
  · exact hf row
  · exact refl row

theorem moves_step (h : w.Sound) (e : Event) (hrow : row ∈ w.rows) : ∃ row' ∈ (step w e).rows, Moved row row' := by
  have hke : ∃ row' ∈ w.rows, Moved row row' := ⟨row, hrow, refl row⟩
  have hrs : ∀ e, _ := fun e => step_resumes (P := fun w' => ∃ row' ∈ w'.rows, Moved row row') hke e fun t ht _ => h.moves_resume ht e hrow
  have hop : ∀ id requestedRef confirmation expected status goal,
      ∃ row' ∈ (w.operate id requestedRef confirmation expected status goal).rows, Moved row row' := by
    intro id requestedRef confirmation expected status goal
    rw [operate]
    cases w.find id with
    | none => exact ⟨row, hrow, refl row⟩
    | some found =>
      dsimp only
      split <;> exact ⟨row, hrow, refl row⟩
  cases e with
  | request ref currentMajor targetMajor =>
    rw [step, request]
    split
    · exact ⟨row, hrow, refl row⟩
    · exact ⟨row, mem_append_left _ hrow, refl row⟩
  | approve id confirmation requestedRef | rollback id confirmation requestedRef => exact hop _ _ _ _ _ _
  | claim skip lost =>
    rw [step, claim]
    cases w.candidate skip with
    | none => exact ⟨row, hrow, refl row⟩
    | some found => exact moves_lease _ _ (fun _ => moved_lease _) hrow
  | heartbeat id token => exact moves_lease _ _ (fun _ => ⟨rfl, rfl, .inl rfl, .inl rfl⟩) hrow
  | tick _ | childExit _ => exact ⟨row, hrow, refl row⟩
  | readStatus _ | writeStatus _ _ | raise _ _ | finishPreflight _ _ | finishBackup _ _ _ | spawn _ | settle _ _ | reread _ | validate _ _ | crash _ =>
    exact hrs _

/-! ## 守られること -/

theorem Sound.settled (h : w.Sound) (e) : w.Settled e := by
  intro row hrow hte
  obtain ⟨row', hro', hmo⟩ := moves_step h e hrow
  exact ⟨row', hro', hmo.id, hmo.terminal hte⟩

theorem Sound.started_eq_zero (h : w.Sound) {id} (hno : ∀ row ∈ w.rows, row.id ≠ id) (action) : w.started action id = 0 := by
  refine count_eq_zero.mpr fun hmem => ?_
  obtain ⟨row, hrow, hid⟩ := h.entries _ hmem
  exact hno row hrow hid

theorem Sound.safe (h : w.Sound) : w.Safe where
  once id := by
    by_cases hrow : ∃ row ∈ w.rows, row.id = id
    · grind [→ h.executions]
    · rw [h.started_eq_zero fun row hmem hid => hrow ⟨row, hmem, hid⟩]
      exact Nat.zero_le _
  justified later id earlier hspl := h.justified later _ earlier hspl id rfl
  rollbacks id := by
    by_cases hrow : ∃ row ∈ w.rows, row.id = id
    · grind [→ h.rollbacks]
    · rw [h.started_eq_zero fun row hmem hid => hrow ⟨row, hmem, hid⟩]
      exact Nat.zero_le _
  failed row hrow hsts := by
    have hbu := h.executions row hrow
    rw [hsts] at hbu
    simp only [PostgresUpgradeStatus.early, if_true] at hbu
    omega
  succeeded := h.succeeded
  single := h.single

end World

end Supacloud.PostgresUpgrade
