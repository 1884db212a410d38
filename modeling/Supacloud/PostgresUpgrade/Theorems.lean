import Supacloud.PostgresUpgrade.Lemmas.Executors

/-!
# 主版の引き上げの安全
-/

namespace Supacloud.PostgresUpgrade

open Library World

/-- どの走行のどの時点でも、引き上げは安全であり、終わりの状態は次の一歩で変わらない。 -/
theorem upgrade_safe (now : Timestamp) (before : List Event) (e : Event) :
    (run step (.start now) before).Safe ∧ (run step (.start now) before).Settled e := by
  have hso : (run step (.start now) before).Sound := run_invariant (fun w e h => sound_step h e) (sound_start now)
  exact ⟨hso.safe, hso.settled e⟩

/-! ## 実行器の重なり -/

/-- 実行器の途中で受け持ち直されず、途中であきらめもしない走行では、実行器は重ならない。 -/
theorem executors_apart (now : Timestamp) (events : List Event) (h : Along step World.Contained (.start now) events) :
    ∀ before e after, events = before ++ e :: after → (run step (.start now) before).Apart e := by
  intro before e after hsp
  rw [hsp, Along.append] at h
  obtain ⟨hso, hhe⟩ := h.1.invariant (I := fun w => w.Sound ∧ w.Held)
    (fun w e hw hco => ⟨sound_step hw.1 e, held_step hw.2 hw.1 e hco⟩)
    ⟨sound_start now, held_start now⟩
  exact hhe.apart hso e

def launch : List Event :=
  [.request "alpha" 15 16, .readStatus 0, .writeStatus 0 none, .finishPreflight 0 [], .readStatus 0, .writeStatus 0 none,
    .approve 0 "UPGRADE POSTGRES CLUSTER 15 TO 16:0" none, .readStatus 1, .writeStatus 1 none,
    .claim [] false, .finishBackup 2 "full" [], .readStatus 2, .writeStatus 2 none, .spawn 2]

def takeover : List Event :=
  [.tick 30001, .claim [] false, .readStatus 4, .writeStatus 4 none, .rollback 0 "ROLLBACK POSTGRES CLUSTER:0" none,
    .readStatus 5, .writeStatus 5 none, .claim [] false, .readStatus 6, .writeStatus 6 none]

def handover : List Event :=
  [.childExit 3, .settle 2 (.error ⟨"postgres_upgrade_execute_failed", ""⟩), .readStatus 2, .writeStatus 2 none,
    .rollback 0 "ROLLBACK POSTGRES CLUSTER:0" none, .readStatus 4, .writeStatus 4 none, .claim [] false, .readStatus 5,
    .writeStatus 5 none, .spawn 5]

def Stage.starting : Stage → Bool
  | .spawning _ => true
  | .reading _ | .writing _ _ | .preflight | .backup | .executing _ _ | .rereading _ | .validating _ _ | .done => false

theorem Stage.starting_iff (stage : Stage) : stage.starting = false ↔ ∀ action, stage ≠ .spawning action := by
  cases stage <;> simp [starting]

instance (stage : Stage) : Decidable (∀ action, stage ≠ .spawning action) := decidable_of_iff _ stage.starting_iff

instance (w : World) (id : UpgradeId) : Decidable (w.Quiet id) :=
  inferInstanceAs (Decidable ((∀ c ∈ w.children, c.id = id → c.running = false) ∧
    ∀ t ∈ w.threads, t.row.id = id → ∀ action, t.stage ≠ .spawning action))

instance (w : World) (e : Event) : Decidable (w.Contained e) :=
  match e with
  | .claim skip _ =>
    inferInstanceAs (Decidable (∀ row ∈ w.rows, row.status = .upgradeRunning ∨ row.status = .rollbackRunning →
      row.leaseExpiresAt.all (· < w.now) = true → row.id ∉ skip → w.Quiet row.id))
  | .settle call (.error _) => inferInstanceAs (Decidable (∀ c ∈ w.children, c.call = call → c.running = false))
  | .settle _ (.ok _) | .tick _ | .request _ _ _ | .approve _ _ _ | .rollback _ _ _ | .heartbeat _ _ | .readStatus _ | .writeStatus _ _
  | .raise _ _ | .finishPreflight _ _ | .finishBackup _ _ _ | .spawn _ | .childExit _ | .reread _ | .validate _ _ | .crash _ =>
    isTrue trivial

theorem executors_apart_handover : (run step (.start 0) (launch ++ handover.dropLast)).starts (.spawn 5) = some 0 ∧
      (run step (.start 0) (launch ++ handover.dropLast)).Apart (.spawn 5) :=
  ⟨by decide, executors_apart 0 (launch ++ handover) (by decide) (launch ++ handover.dropLast) (.spawn 5) [] rfl⟩

/-- 期限の切れた実行器は走り続け、その間に巻き戻しの実行器が始まる。 -/
theorem executors_overlap : ¬ ∀ now before e, (run step (.start now) before).Apart e := by
  intro h
  have hsts : (run step (.start 0) (launch ++ takeover)).starts (.spawn 6) = some 0 := by decide
  have hru : ∃ c ∈ (run step (.start 0) (launch ++ takeover)).children, c.id = 0 ∧ c.running = true := by decide
  obtain ⟨c, hc, hid, hc'⟩ := hru
  rw [h 0 (launch ++ takeover) (.spawn 6) 0 hsts c hc hid] at hc'
  cases hc'

/-- どの走行の続きでも、引き上げの行は残り、身元も目標の版も変えず、状態は許された移り先だけをたどる。 -/
theorem statuses_follow (now : Timestamp) (before after : List Event) :
    ((run step (.start now) before).rows.map Upgrade.id).Nodup ∧
      ∀ row ∈ (run step (.start now) before).rows, ∃ row' ∈ (run step (.start now) (before ++ after)).rows,
        row'.id = row.id ∧ row'.targetMajor = row.targetMajor ∧
          Relation.ReflTransGen (canTransitionPostgresUpgrade · · = true) row.status row'.status := by
  have hso : (run step (.start now) before).Sound := run_invariant (fun w e h => sound_step h e) (sound_start now)
  refine ⟨hso.ids, fun row hrow => ?_⟩
  rw [run_append]
  refine (run_invariant (I := fun w : World => w.Sound ∧ ∃ row' ∈ w.rows, row'.id = row.id ∧ row'.targetMajor = row.targetMajor ∧
    Relation.ReflTransGen (canTransitionPostgresUpgrade · · = true) row.status row'.status) ?_ ⟨hso, row, hrow, rfl, rfl, .refl⟩).2
  rintro w e ⟨hw, row₁, hrow₁, hid, hma, hst⟩
  obtain ⟨row₂, hrow₂, hmo⟩ := moves_step hw e hrow₁
  refine ⟨sound_step hw e, row₂, hrow₂, hmo.id.trans hid, hmo.targetMajor.trans hma, ?_⟩
  rcases hmo.status with hsa | hnext
  · rwa [hsa]
  · exact hst.tail hnext

end Supacloud.PostgresUpgrade
