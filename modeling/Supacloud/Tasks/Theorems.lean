import Supacloud.Tasks.Lemmas.BackgroundRuns
import Supacloud.Tasks.Lemmas.Concurrency
import Supacloud.Tasks.Lemmas.Saga

/-!
# 仕事の表の性質
-/

namespace Supacloud.Tasks

open Library

/-! ## 関数の試み -/

namespace Background

structure Fenced (w : World) : Prop where
  startedOnce : ∀ id n, w.log.count (.started id n) ≤ 1
  dispatchedOnce : ∀ id n, w.log.count (.dispatched id n) ≤ 1
  /-- 次の試みを受け持つのは、前の試みが始まらなかったか、自らやり直しを書いたか、運用の人が戻したときだけである。 -/
  claimed : ∀ later earlier id n, w.log = later ++ .claimed id (n + 1) :: earlier →
    .started id n ∉ earlier ∨ .finished id n .retryScheduled ∈ earlier ∨ .retried id n ∈ earlier
  outcome : ∀ e, ∀ t ∈ w.db.tasks, ∀ t' ∈ (step w e).db.tasks, t'.id = t.id → t'.status ≠ t.status → Ending t'.status → EndedBy w e t
  cancelled : ∀ id n status, .cancelRequested id n status ∈ w.log → status = .leased ∨ status = .running →
    (∀ s, .finished id n s ∈ w.log → s = .cancelled) ∧
    (∀ t ∈ w.db.tasks, t.id = id → t.attempt = n → t.status ≠ .succeeded ∧ t.status ≠ .retryScheduled) ∧
    ∀ row ∈ w.db.attempts, row.taskId = id → row.attemptNo = n → row.status ≠ .succeeded ∧ row.status ≠ .retryScheduled

theorem TaskInv.doomed_status {log attempts t} (h : TaskInv log attempts t)
    (hd : Doomed log t.id t.attempt) : t.status ≠ .succeeded ∧ t.status ≠ .retryScheduled := by
  rcases (h.doomed _ hd).2 rfl with ⟨hhe, -⟩ | hs | hs
  · rcases Task.held_iff.mp hhe with hs | hs <;> simp [hs]
  · simp [hs]
  · simp [hs]

/-- どんな順で受け持ち、始め、終え、取りやめ、見回り、戻しても、試みは番号で囲われている。 -/
theorem attempts_fenced (clock : Timestamp) (projects : List Project) (es : List Event) : Fenced (reached clock projects es) := by
  have h := inv_reached clock projects es
  refine ⟨h.recorded.starts, ?_, ?_, ?_, ?_⟩
  · intro id n
    have hd := h.recorded.dispatches id n
    have hs := h.recorded.starts id n
    omega
  · exact fun later earlier id n hsp => h.recorded.claims later _ earlier hsp id n rfl
  · exact fun e t ht t' ht' hid hne hend => step_endedBy h ht ht' hid hne hend
  · intro id n status hin hst
    have hd : Doomed (reached clock projects es).log id n := by
      rcases hst with rfl | rfl
      · exact .inl hin
      · exact .inr hin
    refine ⟨fun s hf => h.recorded.cancelled id n s hd hf, ?_, ?_⟩
    · rintro t ht rfl rfl
      exact (h.tasks t ht).doomed_status hd
    · rintro row hr rfl rfl
      obtain ⟨t, ht, hid⟩ := h.sound.owner row hr
      rw [← hid] at hd
      rcases (h.tasks t ht).doomedHistory row hr hid.symm hd with hs | hs <;> simp [hs]

/-! ## 試みの記録 -/

/-- 走行のどの状態でも記録が仕事の行と合うのは、見回りが、記録を書かずに試みを終わらせることのない走行に限る。 -/
theorem agree_iff_clean (clock : Timestamp) (projects : List Project) (es : List Event) :
    (∀ before after, es = before ++ after → Agree (reached clock projects before).db) ↔
      Along step Clean (World.empty clock projects) es := by
  constructor
  · intro h
    rw [along_iff]
    intro before e after hsp
    have ha := h (before ++ [e]) after (by simpa using hsp)
    rw [reached, run_append, run_cons, run_nil] at ha
    exact clean_of_agree (inv_reached clock projects before) ha
  · rintro h before after rfl
    rw [Along.append] at h
    have hem : Agree (World.empty clock projects).db := by constructor <;> simp [World.empty]
    refine (h.1.invariant (I := fun w => Inv w ∧ Agree w.db) ?_ ⟨inv_empty clock projects, hem⟩).2
    exact fun w e hw hc => ⟨step_inv hw.1 e, step_agree hw.1 hw.2 hc⟩

def demoProjects : List Project := [⟨"p", none⟩]

def demoCreate : List Event := [.createTask ⟨"p", .edgeFunction, 3, none, none⟩]

def demoClaim : List Event :=
  demoCreate ++ [.claimNextTask ⟨[.edgeFunction], 900, 30⟩ (reached 0 demoProjects demoCreate).db.tasks 0 []]

def expiredRunning : List Event :=
  demoClaim ++ [.start ⟨0, "p", 1⟩ 60 true, .tick (seconds 61), .recoverExpiredLeases (seconds 61) none [.edgeFunction]]

def expiredLeased : List Event :=
  demoClaim ++ [.tick (seconds 900), .recoverExpiredLeases (seconds 900) none [.edgeFunction]]

theorem history_left_running : ¬ Agree (reached 0 demoProjects expiredRunning).db ∧
    ¬ Agree (reached 0 demoProjects expiredLeased).db := by
  constructor
  · intro h
    have hrow : ∃ row ∈ (reached 0 demoProjects expiredRunning).db.attempts, row.status = .running ∧
        ∀ t ∈ (reached 0 demoProjects expiredRunning).db.tasks, t.status = .deadLettered := by decide
    obtain ⟨row, hr, hs, hall⟩ := hrow
    obtain ⟨t, ht, -, hrun, -⟩ := h.running row hr hs
    rw [hall t ht] at hrun
    cases hrun
  · intro h
    have hta : ∃ t ∈ (reached 0 demoProjects expiredLeased).db.tasks, t.taskType = .edgeFunction ∧ t.attempt = 1 ∧
        t.held = false ∧ (reached 0 demoProjects expiredLeased).db.attempts = [] := by decide
    obtain ⟨t, ht, hty, hat, hhe, hno⟩ := hta
    obtain ⟨row, hr, -⟩ := h.ended t ht hty 1 (Nat.le_refl _) (Nat.le_of_eq hat.symm) fun _ => hhe
    rw [hno] at hr
    cases hr

end Background

namespace Concurrency

/-- 重なった受け持ちの文が空きを超えない走行では、期限の来ていない受け持ちの数は、決めた上限を超えない。 -/
theorem active_le_limit (limit : String → TaskType → Nat) (clock : Timestamp) (projects : List Project) (es : List Event)
    (hconf : Along step (Configured limit) (World.empty clock projects) es)
    (hspare : Along step (Spare limit) (World.empty clock projects) es) (ref : String) (type : TaskType) :
    activeCount (reached clock projects es).db.tasks ref type (reached clock projects es).db.clock ≤ limit ref type := by
  have hinv : Inv limit (reached clock projects es) := by
    have hbo : Along step (fun w e => Configured limit w e ∧ Spare limit w e) (World.empty clock projects) es := by grind [along_iff]
    exact hbo.invariant (fun w e h hc => step_inv h e hc.1 hc.2) (inv_empty limit clock projects)
  exact hinv.bound ref type

def demoTasks : List Event := [.createTask ⟨"p", .provisionDb, 3, none, none⟩, .createTask ⟨"p", .provisionDb, 3, none, none⟩]

def demoClaim : Claim := .next ⟨[.provisionDb], 600, 1⟩

def inTurn : List Event := demoTasks ++ [.begin demoClaim, .commit 0 [], .begin demoClaim, .commit 1 []]

def overlapping : List Event := demoTasks ++ [.begin demoClaim, .begin demoClaim, .commit 0 [], .commit 1 []]

theorem active_le_limit_inTurn : activeCount (reached 0 Background.demoProjects inTurn).db.tasks "p" .provisionDb 0 = 1 ∧
    activeCount (reached 0 Background.demoProjects inTurn).db.tasks "p" .provisionDb
      (reached 0 Background.demoProjects inTurn).db.clock ≤ 1 := by
  refine ⟨by decide, active_le_limit (fun _ _ => 1) 0 Background.demoProjects inTurn ?_ (by decide) "p" .provisionDb⟩
  exact ⟨trivial, trivial, fun p _ type _ => Nat.min_le_left _ _, trivial, fun p _ type _ => Nat.min_le_left _ _, trivial, trivial⟩

theorem overlapping_exceeds : ¬ ∀ es, Along step (Configured fun _ _ => 1) (World.empty 0 Background.demoProjects) es →
    ∀ ref type, activeCount (reached 0 Background.demoProjects es).db.tasks ref type
      (reached 0 Background.demoProjects es).db.clock ≤ 1 := by
  intro h
  have hconf : Along step (Configured fun _ _ => 1) (World.empty 0 Background.demoProjects) overlapping :=
    ⟨trivial, trivial, fun p _ type _ => Nat.min_le_left _ _, fun p _ type _ => Nat.min_le_left _ _, trivial, trivial, trivial⟩
  exact absurd (h overlapping hconf "p" .provisionDb) (by decide)

end Concurrency

/-! ## 案件の用意の連鎖 -/

namespace Saga

/-- 途切れない走行では、動くものがなければ、案件は動き始めたか、失敗の補いが済んでいる。 -/
theorem settled_of_uninterrupted (clock : Timestamp) (project : Project) (es : List Event)
    (h : Along step Uninterrupted (World.provisionResources clock project) es) :
    ((∀ p ∈ (reached clock project es).polls, p.point.unfinished = false) → (reached clock project es).Quiet →
      (reached clock project es).Settled) ∧ ∀ id n type, (reached clock project es).enqueued id n type ≤ 1 := by
  refine ⟨?_, (counted_reached clock project es).once⟩
  intro hpos hqu
  rcases (progress_reached clock project es h).settled with hs | ⟨t, ht, hact⟩ | ⟨pid, task, ending, rest, hin⟩
  · exact hs
  · rw [hqu t ht] at hact
    cases hact
  · cases hpos _ hin

/-- 途切れる走行でも、二つの過程が同じ試みを進めることはなく、一つの試みは、どの段階も重ねて登録しない。 -/
theorem attempts_exclusive (clock : Timestamp) (project : Project) (es : List Event) :
    let w := reached clock project es
    (∀ p ∈ w.polls, ∀ q ∈ w.polls, ∀ t u, p.point.task = some t → q.point.task = some u → t.id = u.id → t.attempt = u.attempt →
      p.pid = q.pid) ∧ ∀ id n type, w.enqueued id n type ≤ 1 :=
  ⟨(counted_reached clock project es).distinct, (counted_reached clock project es).once⟩

def demoProject : Project := ⟨"p", none⟩

def demoTask (pid : Nat) (success : Bool) : List Event :=
  [.poll pid, .begin pid, .claim pid [], .markTaskRunning pid, .executeTask pid success]

def provisioned : List Event := (List.replicate 7 (demoTask 0 true ++ [.followUp 0 true])).flatten

set_option maxRecDepth 4000 in
theorem settled_provisioned : (reached 0 demoProject provisioned).polls = [] ∧ (reached 0 demoProject provisioned).Quiet ∧
    (reached 0 demoProject provisioned).Settled :=
  ⟨by decide, by decide, (settled_of_uninterrupted 0 demoProject provisioned (by decide)).1 (by decide) (by decide)⟩

def interrupted : List Event := demoTask 0 true ++ [.crash 0]

def exhausted : List Event :=
  demoTask 0 false ++ [.tick (seconds 5)] ++ demoTask 0 false ++ [.tick (seconds 10)] ++
    [.poll 0, .begin 0, .claim 0 [], .crash 0, .tick (seconds 600), .poll 0, .begin 0, .claim 0 []]

def unlocked : List Event :=
  (List.replicate 6 (demoTask 0 true ++ [.followUp 0 true])).flatten ++ demoTask 0 true ++ [.followUp 0 false]

def World.Stalls (w : World) : Prop := w.polls = [] ∧ ¬ (w.Quiet → w.Settled)

theorem stalls_of_log {w : World} (hpos : w.polls = []) (hqu : w.Quiet) (hact : w.activated = false)
    (hlog : w.log.all (fun e => match e with | .ended _ .failed => false | _ => true) = true) : w.Stalls := by
  refine ⟨hpos, fun h => ?_⟩
  rcases h hqu with hs | ⟨task, -, hen, -⟩
  · rw [hact] at hs
    cases hs
  · cases List.all_eq_true.mp hlog _ hen

set_option maxRecDepth 4000 in
theorem interrupted_stalls : (reached 0 demoProject interrupted).Stalls ∧ (reached 0 demoProject exhausted).Stalls ∧
    (reached 0 demoProject unlocked).Stalls := by
  refine ⟨?_, ?_, ?_⟩
  all_goals exact stalls_of_log (by decide) (by decide) (by decide) (by decide)

end Saga

end Supacloud.Tasks
