import Supacloud.PostgresUpgrade.Lemmas.Operations

/-!
# 実行器と引換券
-/

namespace Supacloud.PostgresUpgrade

open Library Thread List

variable {w w' : World} {t : Thread} {row row' : Upgrade} {goal : Goal} {stage : Stage} {action : ExecutorAction}

/-! ## 引換券を持たない呼び出し -/

def Goal.operator : Goal → Bool
  | .preflightRunning | .preflightDone _ | .backupRunning | .rollbackRequested .. => true
  | _ => false

def Stage.operator : Stage → Bool
  | .reading goal => goal.operator
  | .writing goal _ => goal.operator
  | .preflight | .done => true
  | _ => false

theorem afterFailure_operator (t : Thread) (error) (h : goal.operator = true) : (t.afterFailure error goal).operator = true := by
  cases goal with
  | preflightRunning | preflightDone _ | backupRunning | rollbackRequested _ _ => rfl
  | upgradeRunning _ _ | validating _ | succeeded _ _ | failed _ | manualRecoveryRequired _ | rollbackRunning | rolledBack _ _ => cases h

theorem afterCommit_operator (h : goal.operator = true) : goal.afterCommit.operator = true := by
  cases goal with
  | preflightRunning | preflightDone _ | backupRunning | rollbackRequested _ _ => rfl
  | upgradeRunning _ _ | validating _ | succeeded _ _ | failed _ | manualRecoveryRequired _ | rollbackRunning | rolledBack _ _ => cases h

theorem raised_operator (t : Thread) (error) (h : t.stage.operator = true) : (t.raised error).operator = true := by
  rw [raised]
  cases hst : t.stage with
  | reading goal | writing goal previous =>
    rw [hst] at h
    exact afterFailure_operator t error h
  | preflight | done => rfl
  | backup | spawning _ | executing _ _ | rereading _ | validating _ _ =>
    rw [hst] at h
    cases h

def ExecutorAction.status : ExecutorAction → PostgresUpgradeStatus
  | .execute => .upgradeRunning
  | .rollback => .rollbackRunning

theorem operator_blocked (action : ExecutorAction) (h : goal.operator = true) : canTransitionPostgresUpgrade action.status goal.next = false := by
  cases goal with
  | preflightDone preflight =>
    rw [Goal.next]
    cases action <;> split <;> rfl
  | preflightRunning | backupRunning | rollbackRequested _ _ => cases action <;> rfl
  | upgradeRunning _ _ | validating _ | succeeded _ _ | failed _ | manualRecoveryRequired _ | rollbackRunning | rolledBack _ _ => cases h

namespace World

structure Held (w : World) : Prop where
  tokens : ∀ t ∈ w.threads, ∀ token, t.token = some token → token = t.call
  operators : ∀ t ∈ w.threads, t.token = none → t.stage.operator = true
  spawning : ∀ t ∈ w.threads, ∀ action, t.stage = .spawning action →
    t.token = some t.call ∧ ∃ row ∈ w.rows, row.id = t.row.id ∧ row.status = action.status ∧ row.leaseToken = some t.call
  running : ∀ c ∈ w.children, c.running = true →
    (∃ row ∈ w.rows, row.id = c.id ∧ row.status = c.action.status ∧ row.leaseToken = some c.call) ∧
      ∃ t ∈ w.threads, t.call = c.call ∧ (t.stage = .executing c.action c.child ∨ t.stage = .done)

theorem held_start (now) : (start now).Held := by
  constructor <;> simp [start]

theorem starts_inv {e id} (h : w.starts e = some id) : ∃ t ∈ w.threads, t.row.id = id ∧ ∃ action, t.stage = .spawning action := by
  unfold starts at h
  split at h
  · grind [thread_mem]
  · cases h

theorem Held.apart (h : w.Held) (hs : w.Sound) (e) : w.Apart e := by
  intro id hsts c hc hcid
  obtain ⟨t, ht, rfl, action, hst⟩ := starts_inv hsts
  refine Bool.eq_false_iff.mpr fun hru => ?_
  obtain ⟨-, row, hrow, hid, -, hto⟩ := h.spawning t ht action hst
  obtain ⟨⟨r, hr, hrid, -, hrt⟩, u, hu, hcl, hus⟩ := h.running c hc hru
  cases eq_of_key hs.ids hr hrow (hrid.trans (hcid.trans hid.symm))
  have hsa : c.call = t.call := Option.some.inj (hrt.symm.trans hto)
  cases eq_of_key hs.calls hu ht (hcl.trans hsa)
  rcases hus with hus | hus
  · rw [hus] at hst
    cases hst
  · rw [hus] at hst
    cases hst

/-! ## 一つの呼び出しだけが進む一歩 -/

theorem Held.setStage (h : w.Held) (hcas : (w.threads.map call).Nodup) (ht : t ∈ w.threads)
    (hsp : ∀ action, stage = .spawning action →
      t.token = some t.call ∧ ∃ row ∈ w.rows, row.id = t.row.id ∧ row.status = action.status ∧ row.leaseToken = some t.call)
    (hope : t.token = none → t.stage.operator = true → stage.operator = true)
    (hru : ∀ c ∈ w.children, c.running = true → c.call = t.call → stage = .executing c.action c.child ∨ stage = .done) :
    (w.setStage t.call stage).Held := by
  refine ⟨?_, ?_, ?_, ?_⟩
  · grind [h.tokens, mem_setStage]
  · grind [h.operators, mem_setStage, eq_of_key]
  · intro t' ht' action hst
    rcases mem_setStage ht' with ⟨ht', -⟩ | ⟨u, hu, hcl, rfl⟩
    · exact h.spawning t' ht' action hst
    · cases eq_of_key hcas hu ht hcl
      exact hsp action hst
  · intro c hc hcr
    obtain ⟨hrow, u, hu, hcl, hus⟩ := h.running c hc hcr
    refine ⟨hrow, ?_⟩
    by_cases hmi : u.call = t.call
    · refine ⟨{ u with stage }, mem_update.mpr ⟨u, hu, by simp [hmi]⟩, hcl, ?_⟩
      exact hru c hc hcr (hcl.symm.trans hmi)
    · exact ⟨u, mem_update.mpr ⟨u, hu, by simp [hmi]⟩, hcl, hus⟩

section

variable (h : w.Held) (hs : w.Sound) (ht : t ∈ w.threads) (hex : ∀ action child, t.stage ≠ .executing action child) (hdo : t.stage ≠ .done)

include h hs ht hex hdo

theorem Held.idle : ∀ c ∈ w.children, c.running = true → c.call ≠ t.call := by
  intro c hc hru hcl
  obtain ⟨-, u, hu, huc, hus⟩ := h.running c hc hru
  cases eq_of_key hs.calls hu ht (huc.trans hcl)
  rcases hus with hus | hus
  · exact hex _ _ hus
  · exact hdo hus

theorem Held.advance (hse : stage.Settled) (hope : t.token = none → t.stage.operator = true → stage.operator = true) :
    (w.setStage t.call stage).Held :=
  h.setStage hs.calls ht (fun action heq => absurd heq (hse action)) hope fun c hc hru hcl =>
    absurd hcl (h.idle hs ht hex hdo c hc hru)

end

/-! ## 行の書き換え -/

section

variable (h : w.Held)

include h

theorem Held.moveRows (rows) (hro : ∀ row ∈ w.rows, ¬ w.Quiet row.id →
      ∃ row' ∈ rows, row'.id = row.id ∧ row'.status = row.status ∧ row'.leaseToken = row.leaseToken) :
    ({ w with rows } : World).Held := by
  have hmv : ∀ (id) (status) (token), ¬ w.Quiet id → (∃ row ∈ w.rows, row.id = id ∧ row.status = status ∧ row.leaseToken = some token) →
      ∃ row ∈ rows, row.id = id ∧ row.status = status ∧ row.leaseToken = some token := by
    rintro id status token hbu ⟨row, hrow, rfl, hstas, hto⟩
    obtain ⟨row', hro', hid, hss', hto'⟩ := hro row hrow hbu
    exact ⟨row', hro', hid, hss'.trans hstas, hto'.trans hto⟩
  refine ⟨h.tokens, h.operators, ?_, ?_⟩
  · intro t ht action hst
    obtain ⟨hto, hrow⟩ := h.spawning t ht action hst
    exact ⟨hto, hmv _ _ _ (fun hqu => hqu.2 t ht rfl action hst) hrow⟩
  · intro c hc hru
    obtain ⟨hrow, hth⟩ := h.running c hc hru
    refine ⟨hmv _ _ _ (fun hqu => ?_) hrow, hth⟩
    rw [hqu.1 c hc rfl] at hru
    cases hru

theorem Held.busy (hs : w.Sound) (hrow : row ∈ w.rows) (hbu : ¬ w.Quiet row.id) :
    ∃ action token, row.status = ExecutorAction.status action ∧ row.leaseToken = some token ∧
      ((∃ t ∈ w.threads, t.call = token ∧ t.stage = .spawning action) ∨
        ∃ t ∈ w.threads, t.call = token ∧ ∃ child, t.stage = .executing action child ∨ t.stage = .done) := by
  have hsa : ∀ (id) (status) (token), id = row.id →
      (∃ r ∈ w.rows, r.id = id ∧ r.status = status ∧ r.leaseToken = some token) → row.status = status ∧ row.leaseToken = some token := by
    rintro id status token hid ⟨r, hr, hrid, hstas, hto⟩
    cases eq_of_key hs.ids hr hrow (hrid.trans hid)
    exact ⟨hstas, hto⟩
  rw [Quiet, not_and_or] at hbu
  rcases hbu with hch | hth
  · simp only [not_forall] at hch
    obtain ⟨c, hc, hid, hru⟩ := hch
    obtain ⟨hhe, t, ht, hcl, hst⟩ := h.running c hc (by simpa using hru)
    obtain ⟨hstas, hto⟩ := hsa _ _ _ hid hhe
    exact ⟨c.action, c.call, hstas, hto, .inr ⟨t, ht, hcl, c.child, hst⟩⟩
  · simp only [not_forall, not_not] at hth
    obtain ⟨t, ht, hid, action, hst⟩ := hth
    obtain ⟨-, hhe⟩ := h.spawning t ht action hst
    obtain ⟨hstas, hto⟩ := hsa _ _ _ hid hhe
    exact ⟨action, t.call, hstas, hto, .inl ⟨t, ht, rfl, hst⟩⟩

theorem Held.heartbeat (id token) : (w.heartbeat id token).Held := by
  refine h.moveRows _ fun row hrow _ => ⟨_, mem_update.mpr ⟨row, hrow, rfl⟩, ?_⟩
  split <;> exact ⟨rfl, rfl, rfl⟩

theorem Held.spawnThread {token : Option Token} (hse : stage.Settled) (hto : ∀ k, token = some k → k = w.nextCall)
    (hope : token = none → stage.operator = true) : (w.spawnThread row token stage).Held := by
  refine ⟨?_, ?_, ?_, ?_⟩
  · intro t ht
    rcases mem_append.mp ht with ht | ht
    · exact h.tokens t ht
    · rw [mem_singleton.mp ht]
      exact hto
  · intro t ht
    rcases mem_append.mp ht with ht | ht
    · exact h.operators t ht
    · rw [mem_singleton.mp ht]
      exact hope
  · intro t ht action hst
    rcases mem_append.mp ht with ht | ht
    · exact h.spawning t ht action hst
    · rw [mem_singleton.mp ht] at hst
      exact absurd hst (hse action)
  · intro c hc hru
    obtain ⟨hrow, t, ht, hth⟩ := h.running c hc hru
    exact ⟨hrow, t, mem_append_left _ ht, hth⟩

theorem Held.claim (hs : w.Sound) {skip lost} (hco : w.Contained (.claim skip lost)) : (w.claim skip lost).Held := by
  rw [World.claim]
  cases hca : w.candidate skip with
  | none => exact h
  | some row =>
    have hrow := candidate_mem hca
    have hsl := find?_some hca
    simp only [Bool.and_eq_true, decide_eq_true_eq] at hsl
    obtain ⟨⟨-, hexp⟩, hsk⟩ := hsl
    have hqu : w.Quiet row.id := by
      by_contra hbu
      obtain ⟨action, -, hstas, -⟩ := h.busy hs hrow hbu
      refine hbu (hco row hrow ?_ hexp hsk)
      cases action with
      | execute => exact .inl hstas
      | rollback => exact .inr hstas
    have hmo := h.moveRows (update (fun r => r.id = row.id) (Upgrade.lease w.now w.nextCall) w.rows) fun r hr hbu => by
      refine ⟨r, mem_update.mpr ⟨r, hr, if_neg ?_⟩, rfl, rfl, rfl⟩
      simp only [decide_eq_true_eq]
      exact fun hid => hbu (hid ▸ hqu)
    refine hmo.spawnThread ?_ ?_ (by simp)
    · cases lost with
      | true => exact fun _ => by simp
      | false => exact claimedStage_settled _
    · intro k hk
      exact (Option.some.inj hk).symm

theorem Held.operate (id requestedRef confirmation) (expected status goal) (hgo : ∀ row, (goal row).operator = true) :
    (w.operate id requestedRef confirmation expected status goal).Held := by
  rw [World.operate]
  cases w.find id with
  | none => exact h
  | some row =>
    dsimp only
    split
    · exact h
    · exact h.spawnThread (fun _ => by simp) (by simp) fun _ => hgo row

theorem Held.request (ref currentMajor targetMajor) : (w.request ref currentMajor targetMajor).Held := by
  rw [World.request]
  split
  · exact h
  · have hmo := h.moveRows (w.rows ++ [Upgrade.insert w.nextId ref currentMajor targetMajor]) fun row hrow _ =>
      ⟨row, mem_append_left _ hrow, rfl, rfl, rfl⟩
    exact Held.spawnThread (w := { w with
      rows := w.rows ++ [Upgrade.insert w.nextId ref currentMajor targetMajor], nextId := w.nextId + 1 })
      { hmo with } (fun _ => by simp) (by simp) fun _ => rfl

/-! ## 更新と実行器 -/

theorem Held.readStatus (hs : w.Sound) (ht : t ∈ w.threads) (hst : t.stage = .reading goal) : (w.readStatus t goal).Held := by
  have had : ∀ stage, stage.Settled → (goal.operator = true → stage.operator = true) → (w.setStage t.call stage).Held := by
    intro stage hse hope
    refine h.advance hs ht (by simp [hst]) (by simp [hst]) hse fun _ hop => ?_
    rw [hst] at hop
    exact hope hop
  rw [World.readStatus]
  cases w.find t.row.id with
  | none => exact had _ (afterFailure_settled t _ goal) (afterFailure_operator t _)
  | some found =>
    dsimp only
    split
    · exact had _ (fun _ => by simp) id
    · exact had _ (afterFailure_settled t _ goal) (afterFailure_operator t _)

theorem Held.quiet (hs : w.Sound) (ht : t ∈ w.threads) {previous}
    (hst : t.stage = .writing goal previous) (hrow : row ∈ w.rows) (hups : t.updates previous row = true) : w.Quiet row.id := by
  by_contra hbu
  obtain ⟨hid, hprs, -⟩ := updates_iff hs hrow hups
  obtain ⟨action, token, hstas, hto, hho⟩ := h.busy hs hrow hbu
  have hcan : canTransitionPostgresUpgrade action.status goal.next = true := by
    obtain ⟨r, -, -, -, hok⟩ := hs.threads t ht
    rw [hst] at hok
    rw [← hstas, hprs]
    exact hok.2
  cases hmi : t.token with
  | none =>
    have hope := h.operators t ht hmi
    rw [hst] at hope
    rw [operator_blocked action hope] at hcan
    cases hcan
  | some k => grind [h.tokens, hs.calls, updates, eq_of_key]

end

theorem afterCommit_spawning (h : goal.afterCommit = .spawning action) :
    goal.next = action.status ∧ goal.clearLease = false ∧ goal.operator = false := by
  cases goal with
  | upgradeRunning _ _ =>
    cases h
    exact ⟨rfl, rfl, rfl⟩
  | rollbackRunning =>
    cases h
    exact ⟨rfl, rfl, rfl⟩
  | preflightRunning | preflightDone _ | backupRunning | rollbackRequested _ _ | validating _ | succeeded _ _ | failed _
  | manualRecoveryRequired _ | rolledBack _ _ => cases h

theorem apply_lease {now} (h : goal.clearLease = false) : (goal.apply now row).leaseToken = row.leaseToken :=
  if_neg (by rw [h]; exact Bool.false_ne_true)

theorem Held.logged (h : w.Held) (goal row) : (w.logged goal row).Held := by
  rw [World.logged]
  split <;> exact { h with }

section

variable (h : w.Held) (hs : w.Sound) (ht : t ∈ w.threads)

include h hs ht

theorem Held.writeStatus {previous} (hst : t.stage = .writing goal previous) (lost) : (w.writeStatus t goal previous lost).Held := by
  have hex : ∀ action child, t.stage ≠ .executing action child := by
    rw [hst]
    exact nofun
  have hdo : t.stage ≠ .done := by
    rw [hst]
    exact nofun
  rcases writeStatus_cases w t goal previous lost with ⟨error, heq⟩ | ⟨row, hrow, hups, -, heq⟩
  · rw [heq]
    refine h.advance hs ht hex hdo (afterFailure_settled t error goal) fun _ hop => ?_
    rw [hst] at hop
    exact afterFailure_operator t error hop
  · have hqu : w.Quiet row.id := h.quiet hs ht hst hrow hups
    obtain ⟨hid, -, hon⟩ := updates_iff hs hrow hups
    have hlo : (w.logged goal row).Held := h.logged goal row
    have hmo := hlo.moveRows (update (t.updates previous) (goal.apply w.now) w.rows) fun r hr hbu => by
      rw [logged_rows] at hr
      refine ⟨r, mem_update.mpr ⟨r, hr, if_neg fun hma => ?_⟩, rfl, rfl, rfl⟩
      rw [(hon r hr).mp hma, Quiet, logged_children, logged_threads] at hbu
      exact hbu hqu
    rw [heq]
    refine hmo.setStage ?_ ?_ ?_ ?_ ?_
    · exact (logged_threads w goal row).symm ▸ hs.calls
    · exact (logged_threads w goal row).symm ▸ ht
    · intro action hspa
      cases lost with
      | some error => exact absurd hspa (afterFailure_settled t error goal action)
      | none =>
        obtain ⟨hstas, hle, hwo⟩ := afterCommit_spawning hspa
        cases hmi : t.token with
        | none =>
          have hope := h.operators t ht hmi
          rw [hst] at hope
          exact absurd (hwo.symm.trans hope) Bool.false_ne_true
        | some k =>
          have hk : k = t.call := h.tokens t ht k hmi
          have hle' : row.leaseToken = some t.call := by grind [updates]
          refine ⟨by rw [hk], goal.apply w.now row, mem_update.mpr ⟨row, hrow, if_pos hups⟩, hid, hstas, ?_⟩
          exact (apply_lease hle).trans hle'
    · intro _ hop
      rw [hst] at hop
      cases lost with
      | none => exact afterCommit_operator hop
      | some error => exact afterFailure_operator t error hop
    · intro c hc hru hcl
      have hc' : c ∈ w.children := logged_children w goal row ▸ hc
      exact absurd hcl (h.idle hs ht hex hdo c hc' hru)

theorem Held.spawn (hst : t.stage = .spawning action) : (w.spawn t action).Held := by
  obtain ⟨hto, hrow⟩ := h.spawning t ht action hst
  have hidl := h.idle hs ht (by rw [hst]; exact nofun) (by rw [hst]; exact nofun)
  refine ⟨?_, ?_, ?_, ?_⟩
  · intro t' ht'
    rcases mem_setStage ht' with ⟨ht', -⟩ | ⟨u, hu, -, rfl⟩
    · exact h.tokens t' ht'
    · exact h.tokens u hu
  · intro t' ht' hno
    rcases mem_setStage ht' with ⟨ht', -⟩ | ⟨u, hu, hcl, rfl⟩
    · exact h.operators t' ht' hno
    · cases eq_of_key hs.calls hu ht hcl
      rw [hto] at hno
      cases hno
  · intro t' ht' action' hst'
    rcases mem_setStage ht' with ⟨ht', -⟩ | ⟨u, hu, -, rfl⟩
    · exact h.spawning t' ht' action' hst'
    · cases hst'
  · intro c hc hru
    rcases mem_cons.mp hc with rfl | hc
    · exact ⟨hrow, { t with stage := .executing action w.nextCall }, mem_update.mpr ⟨t, ht, by simp⟩, rfl, .inl rfl⟩
    · obtain ⟨hcro, u, hu, hcl, hus⟩ := h.running c hc hru
      refine ⟨hcro, u, mem_update.mpr ⟨u, hu, if_neg ?_⟩, hcl, hus⟩
      simp only [decide_eq_true_eq]
      exact fun heq => hidl c hc hru (hcl.symm.trans heq)

theorem Held.settle {child} (hst : t.stage = .executing action child) (output)
    (hco : w.Contained (.settle t.call output)) : (w.settle t action child output).Held := by
  have hwo : ∀ {stage : Stage}, t.token = none → t.stage.operator = true → stage.operator = true := by
    intro stage _ hop
    rw [hst] at hop
    cases hop
  cases output with
  | error error =>
    refine h.setStage hs.calls ht (fun action' heq => absurd heq (executorFailed_settled t error action action')) hwo ?_
    intro c hc hru hcl
    rw [hco c hc hcl] at hru
    cases hru
  | ok evidence =>
    rw [World.settle]
    split
    · exact h
    · rename_i hexi
      refine h.setStage hs.calls ht (fun action' heq => absurd heq (executorFinished_settled t evidence action action')) hwo ?_
      intro c hc hru hcl
      obtain ⟨-, u, hu, huc, hus⟩ := h.running c hc hru
      cases eq_of_key hs.calls hu ht (huc.trans hcl)
      rcases hus with hus | hus
      · cases hst.symm.trans hus
        refine absurd (any_eq_true.mpr ⟨c, hc, ?_⟩) hexi
        simp [hru]
      · cases hst.symm.trans hus

/-! ## 一歩 -/

theorem Held.resume (e) (he : e.call? = some t.call) (hco : w.Contained e) : (w.resume t e).Held := by
  have had : ∀ {w' : World}, w'.Held → w'.Sound → t ∈ w'.threads → ∀ stage, t.stage ≠ .done →
      (∀ action child, t.stage ≠ .executing action child) → t.stage.operator = false → stage.Settled → (w'.setStage t.call stage).Held :=
    fun h' hs' ht' stage hdo hex hwo hse =>
      h'.advance hs' ht' hex hdo hse fun _ hop => absurd (hwo.symm.trans hop) Bool.false_ne_true
  have hrc : ∀ entry, (w.record entry).Held := fun _ => { h with }
  cases e with
  | readStatus call =>
    rw [World.resume]
    split
    · exact h.readStatus hs ht (by assumption)
    · exact h
  | writeStatus call lost =>
    rw [World.resume]
    split
    · exact h.writeStatus hs ht (by assumption) lost
    · exact h
  | raise call error =>
    refine h.setStage hs.calls ht (fun action heq => absurd heq (raised_settled t error action)) (fun _ => raised_operator t error) ?_
    intro c hc hru hcl
    obtain ⟨-, u, hu, huc, hus⟩ := h.running c hc hru
    cases eq_of_key hs.calls hu ht (huc.trans hcl)
    rw [raised]
    rcases hus with hus | hus
    · rw [hus]
      exact .inl rfl
    · rw [hus]
      exact .inr rfl
  | finishPreflight call checks =>
    rw [World.resume]
    split
    · rename_i hst
      exact h.advance hs ht (by simp [hst]) (by simp [hst]) (fun _ => by simp) fun _ _ => rfl
    · exact h
  | finishBackup call backupId projects =>
    rw [World.resume]
    split
    · rename_i hst
      have hso : (w.record (.backedUp t.row.id backupId)).Sound := hs.record (hs.ownRow ht) fun _ _ => by simp
      exact had (hrc _) hso ht _ (by simp [hst]) (by simp [hst]) (by rw [hst]; rfl) fun _ => by simp
    · exact h
  | spawn call =>
    rw [World.resume]
    split
    · exact h.spawn hs ht (by assumption)
    · exact h
  | settle call output =>
    rw [World.resume]
    split
    · cases he
      exact h.settle hs ht (by assumption) output hco
    · exact h
  | reread call =>
    rw [World.resume]
    split
    · rename_i evidence hst
      have hne : ∀ stage, stage.Settled → (w.setStage t.call stage).Held := fun stage =>
        had h hs ht stage (by simp [hst]) (by simp [hst]) (by rw [hst]; rfl)
      cases w.find t.row.id with
      | none | some row => exact hne _ fun _ => by simp
    · exact h
  | validate call observation =>
    rw [World.resume]
    split
    · rename_i evidence scopeSnapshot hst
      have hdo : t.stage ≠ .done := by simp [hst]
      have hex : ∀ action child, t.stage ≠ .executing action child := by simp [hst]
      have hwo : t.stage.operator = false := by rw [hst]; rfl
      rw [World.validate]
      split
      · have hso : (w.record (.validated t.row.id t.row.targetMajor scopeSnapshot)).Sound :=
          hs.record (hs.ownRow ht) fun _ _ => by simp
        exact had (hrc _) hso ht _ hdo hex hwo fun _ => by simp
      · exact had h hs ht _ hdo hex hwo fun _ => by simp
    · exact h
  | crash call =>
    exact h.setStage hs.calls ht (fun _ => by simp) (fun _ _ => rfl) fun _ _ _ _ => .inr rfl
  | tick _ | request _ _ _ | approve _ _ _ | rollback _ _ _ | claim _ _ | heartbeat _ _ | childExit _ => exact h

end

theorem held_step (h : w.Held) (hs : w.Sound) (e) (hco : w.Contained e) : (step w e).Held := by
  have hre : ∀ e, w.Contained e → _ := fun e hco => step_resumes h e fun t ht he => h.resume hs ht e he hco
  cases e with
  | tick elapsed => exact { h with }
  | request ref currentMajor targetMajor => exact h.request ref currentMajor targetMajor
  | approve id confirmation requestedRef | rollback id confirmation requestedRef => exact h.operate _ _ _ _ _ _ fun _ => rfl
  | claim skip lost => exact h.claim hs hco
  | heartbeat id token => exact h.heartbeat id token
  | childExit child =>
    refine ⟨h.tokens, h.operators, h.spawning, fun c hc hru => ?_⟩
    obtain ⟨c₀, hc₀, rfl⟩ := mem_update.mp hc
    by_cases hch : c₀.child = child
    · simp [hch] at hru
    · simp only [hch, decide_false, Bool.false_eq_true, if_false] at hru ⊢
      exact h.running c₀ hc₀ hru
  | readStatus call => exact hre (.readStatus call) hco
  | writeStatus call lost => exact hre (.writeStatus call lost) hco
  | raise call error => exact hre (.raise call error) hco
  | finishPreflight call checks => exact hre (.finishPreflight call checks) hco
  | finishBackup call backupId projects => exact hre (.finishBackup call backupId projects) hco
  | spawn call => exact hre (.spawn call) hco
  | settle call output => exact hre (.settle call output) hco
  | reread call => exact hre (.reread call) hco
  | validate call observation => exact hre (.validate call observation) hco
  | crash call => exact hre (.crash call) hco

end World

end Supacloud.PostgresUpgrade
