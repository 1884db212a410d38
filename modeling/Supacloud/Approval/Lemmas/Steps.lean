import Mathlib.Logic.Relation
import Supacloud.Approval.Events

/-! # 取引を作る小さな動き -/

namespace Supacloud.Approval

open Library List

variable {db db' db'' : Db} {r c : Run} {s : RunStatus} {kernel : Core} {env : Env}
  {tenant actor key entity reason subject : String} {version expected : Nat} {request run run' : Uuid}
  {snapshot : Option Snapshot} {action : TaskAction} {decision : TaskStatus}

/-! ## 帳簿 -/

def Run.ended (r : Run) : Prop := r.status ≠ .pending ∧ r.graphParentId = none

instance (r : Run) : Decidable r.ended := inferInstanceAs (Decidable (_ ∧ _))

def Run.core (r : Run) : Uuid × String × Option Uuid × Bool := (r.id, r.tenant, r.graphParentId, Decidable.decide r.ended)

structure Frame (db db' : Db) : Prop where
  clock : db'.clock = db.clock
  seed : db.seed ≤ db'.seed
  runs : db'.runs.map Run.core = db.runs.map Run.core
  outcomes : db'.outcomes = db.outcomes

structure FreshOutcome (r : Run) (o : Outcome) : Prop where
  tenant : o.tenant = r.tenant
  runId : o.runId = r.id
  payload : o.payload.runId = r.id
  attempts : o.attempts = 0
  leaseToken : o.leaseToken = none
  leaseUntil : o.leaseUntil = none
  acknowledgedAt : o.acknowledgedAt = none
  deadLetteredAt : o.deadLetteredAt = none

inductive Move (db : Db) : Db → Prop where
  | frame {db' : Db} : Frame db db' → Move db db'
  | insert {r : Run} : r.id = db.seed → r.status = .pending → Move db { db with seed := db.seed + 1, runs := db.runs ++ [r] }
  | adopt {c : Run} (parent : Uuid) : c ∈ db.runs → c.status = .pending →
      Move db (db.updateRun c.id fun x => { x with graphParentId := some parent })
  | close {r : Run} {s o} : r ∈ db.runs → r.status = .pending → r.graphParentId = none → s ≠ .pending →
      FreshOutcome r o →
      Move db { db.updateRun r.id (fun x => { x with status := s }) with outcomes := db.outcomes ++ [o] }

abbrev Path : Db → Db → Prop := Relation.ReflTransGen Move

theorem mem_of_map_eq {α β : Type} {g : α → β} {l l' : List α} (h : l'.map g = l.map g) {a} (ha : a ∈ l') : ∃ b ∈ l, g b = g a := by
  have hmem : g a ∈ l'.map g := mem_map_of_mem ha
  rw [h, mem_map] at hmem
  exact hmem

theorem core_eq {a b : Run} (h : a.core = b.core) :
    a.id = b.id ∧ a.tenant = b.tenant ∧ a.graphParentId = b.graphParentId ∧ (a.ended ↔ b.ended) := by
  simpa [Run.core] using h

theorem Frame.refl (db) : Frame db db := ⟨rfl, le_rfl, rfl, rfl⟩

theorem Frame.trans (h : Frame db db') (h' : Frame db' db'') : Frame db db'' :=
  ⟨h'.clock.trans h.clock, h.seed.trans h'.seed, h'.runs.trans h.runs, h'.outcomes.trans h.outcomes⟩

theorem Frame.path (h : Frame db db') : Path db db' := .single (.frame h)

theorem pure_path (h : (pure db : Except ApprovalError Db) = .ok db') : Path db db' := pure_eq_ok.mp h ▸ .refl

theorem frame_seed (db : Db) (n : Nat) : Frame db { db with seed := db.seed + n } :=
  { Frame.refl db with seed := Nat.le_add_right _ _ }

theorem frame_updateRun {f} (h : ∀ x ∈ db.runs, x.id = run → (f x).core = x.core) : Frame db (db.updateRun run f) := by
  refine { Frame.refl db with runs := ?_ }
  rw [Db.updateRun, update, map_map]
  apply map_congr_left
  intro x hx
  by_cases hid : x.id = run
  · simp [hid, h x hx hid]
  · simp [hid]

/-! ## 番号 -/

structure Base (db : Db) : Prop where
  ids : (db.runs.map Run.id).Nodup
  fresh : ∀ r ∈ db.runs, r.id < db.seed

theorem Base.eq_of_id (hb : Base db) {a b} (ha : a ∈ db.runs) (hb' : b ∈ db.runs) (h : a.id = b.id) : a = b :=
  eq_of_key hb.ids ha hb' h

theorem Frame.base (h : Frame db db') (hb : Base db) : Base db' := by
  have hids : db'.runs.map Run.id = db.runs.map Run.id := by
    have hmap := congrArg (map Prod.fst) h.runs
    rw [map_map, map_map] at hmap
    exact hmap
  refine ⟨hids ▸ hb.ids, fun r hr => ?_⟩
  obtain ⟨x, hx, hcr⟩ := mem_of_map_eq h.runs hr
  rw [← (core_eq hcr).1]
  exact (hb.fresh x hx).trans_le h.seed

theorem Base.updateRun (hb : Base db) {f} (hf : ∀ x, (f x).id = x.id) : Base (db.updateRun run f) := by
  have hids : (db.updateRun run f).runs.map Run.id = db.runs.map Run.id := map_update fun x _ => hf x
  refine ⟨hids ▸ hb.ids, fun x' hx' => ?_⟩
  obtain ⟨x, hx, rfl⟩ := mem_update.mp hx'
  split
  · rw [hf]
    exact hb.fresh x hx
  · exact hb.fresh x hx

theorem Base.move (hb : Base db) (h : Move db db') : Base db' := by
  cases h with
  | frame h => exact h.base hb
  | @insert r hid _ =>
    constructor
    · rw [map_append, nodup_append]
      refine ⟨hb.ids, by simp, fun a ha b hb' => ?_⟩
      obtain ⟨x, hx, rfl⟩ := mem_map.mp ha
      rw [map_singleton, mem_singleton] at hb'
      rw [hb', hid]
      exact Nat.ne_of_lt (hb.fresh x hx)
    · grind [→ hb.fresh]
  | adopt _ _ _ => exact hb.updateRun fun _ => rfl
  | @close r s o _ _ _ _ _ =>
    have hu : Base (db.updateRun r.id fun x => { x with status := s }) := hb.updateRun fun _ => rfl
    exact { hu with }

theorem Base.path (hb : Base db) (h : Path db db') : Base db' := by
  induction h with
  | refl => exact hb
  | tail _ h ih => exact ih.move h

theorem findRun_mem (h : db.findRun tenant run = some r) : r ∈ db.runs ∧ r.tenant = tenant ∧ r.id = run := by
  refine ⟨mem_of_find?_eq_some h, ?_⟩
  simpa using find?_some h

/-! ## 知らせと受け取り -/

theorem frame_scheduleWait (db tenant run) : Frame db (scheduleWait db tenant run) := by
  rw [scheduleWait]
  split
  · exact Frame.refl db
  · split
    · exact Frame.refl db
    · exact (frame_seed db 2).trans (frame_updateRun fun _ _ _ => rfl)

theorem insertWakeup_frame {w} (h : insertWakeup db w = .ok db') : Frame db db' ∧ db'.runs = db.runs := by
  simp only [insertWakeup, bind_eq_ok, require_eq_ok, pure_eq_ok, exists_const] at h
  obtain ⟨-, rfl⟩ := h
  exact ⟨{ Frame.refl db with }, rfl⟩

theorem enqueueWakeup_frame {target} (h : enqueueWakeup db tenant request run target = .ok db') : Frame db db' :=
  (frame_seed db 1).trans (insertWakeup_frame h).1

theorem graphChildOutcome_frame (h : graphChildOutcome db r = .ok db') : Frame db db' := by
  rw [graphChildOutcome] at h
  split at h
  · simp only [pure_eq_ok] at h
    exact h ▸ Frame.refl db
  · exact (frame_seed db 2).trans (insertWakeup_frame h).1

theorem saveReceipt_frame {command} (h : saveReceipt db tenant request command run = .ok db') : Frame db db' ∧ db'.runs = db.runs := by
  simp only [saveReceipt, bind_eq_ok, require_eq_ok, pure_eq_ok, exists_const] at h
  obtain ⟨-, rfl⟩ := h
  exact ⟨{ Frame.refl db with }, rfl⟩

theorem idempotent_path {command body}
    (h : idempotent db tenant request command body = .ok (db', run)) (hbo : ∀ db₁, body = .ok (db₁, run) → Path db db₁) :
    Path db db' := by
  simp only [idempotent, bind_eq_ok] at h
  obtain ⟨o, -, h⟩ := h
  cases o with
  | some r =>
    simp only [pure_eq_ok, Prod.mk.injEq] at h
    exact h.1 ▸ .refl
  | none =>
    simp only [bind_eq_ok, pure_eq_ok, Prod.mk.injEq, Prod.exists] at h
    obtain ⟨db₁, r, hb, db₂, hs, rfl, rfl⟩ := h
    exact (hbo db₁ hb).trans (saveReceipt_frame hs).1.path

/-! ## 承認の終わり -/

theorem updateStatusWith_cases {terminal} (h : updateStatusWith terminal db r s = .ok db') :
    ∃ db₁ db₂, Frame (db.updateRun r.id fun x => { x with status := s, rowVersion := x.rowVersion + 1 }) db₁ ∧
      terminal db₁ { r with status := s, rowVersion := r.rowVersion + 1 } = .ok db₂ ∧
      emitOutcome db₂ { r with status := s, rowVersion := r.rowVersion + 1 } = .ok db' := by
  simp only [updateStatusWith, bind_eq_ok] at h
  obtain ⟨db₁, h₁, db₂, h₂, h₃⟩ := h
  exact ⟨db₁, db₂, graphChildOutcome_frame h₁, h₂, h₃⟩

theorem emitOutcome_child (h : emitOutcome db r = .ok db') (hp : r.graphParentId.isSome = true) : db' = db := by
  simp only [emitOutcome, hp, if_true, pure_eq_ok] at h
  exact h.symm

theorem emitOutcome_root (h : emitOutcome db r = .ok db') (hp : r.graphParentId = none) :
    db' = { db with outcomes := db.outcomes ++ [newOutcome db r] } := by
  simp only [emitOutcome, hp, Option.isSome_none, Bool.false_eq_true, if_false, bind_eq_ok, require_eq_ok, pure_eq_ok, exists_const] at h
  exact h.2.symm

structure Kid (db : Db) (c : Run) : Prop where
  child : c.graphParentId.isSome = true
  rows : ∀ x ∈ db.runs, x.id = c.id → x.graphParentId.isSome = true

theorem Kid.frame (hk : Kid db c) (h : Frame db db') : Kid db' c := by
  refine ⟨hk.child, fun x hx hid => ?_⟩
  obtain ⟨y, hy, hcr⟩ := mem_of_map_eq h.runs hx
  obtain ⟨hyid, -, hpr, -⟩ := core_eq hcr
  exact hpr ▸ hk.rows y hy (hyid.trans hid)

theorem Base.kid (hb : Base db) (hc : c ∈ db.runs) (hp : c.graphParentId.isSome = true) : Kid db c :=
  ⟨hp, fun _ hx hid => hb.eq_of_id hx hc hid ▸ hp⟩

theorem Base.kids (hb : Base db) : ∀ c ∈ pendingChildren db r, Kid db c := by
  intro c hc
  rw [pendingChildren, mem_insertionSort, mem_filter, decide_eq_true_eq] at hc
  exact hb.kid hc.1 (by simp [hc.2.2.1])

theorem Kid.status (hk : Kid db c) (s) :
    Frame db (db.updateRun c.id fun x => { x with status := s, rowVersion := x.rowVersion + 1 }) := by
  apply frame_updateRun
  intro x hx hid
  obtain ⟨parent, hpr⟩ := Option.isSome_iff_exists.mp (hk.rows x hx hid)
  simp [Run.core, Run.ended, hpr]

theorem cancelTasks_frame (db tenant run) : Frame db (cancelTasks db tenant run) := { Frame.refl db with }

theorem cancelChildren_frame {kids} (h : cancelChildren kids db = .ok db') (hki : ∀ c ∈ kids, Kid db c) : Frame db db' := by
  induction kids generalizing db with
  | nil =>
    simp only [cancelChildren, pure_eq_ok] at h
    exact h ▸ Frame.refl db
  | cons c rest ih =>
    simp only [cancelChildren, bind_eq_ok] at h
    obtain ⟨db₁, h₁, db₂, h₂, h₃⟩ := h
    obtain ⟨db₀, _, hwr, hpu, hem⟩ := updateStatusWith_cases h₁
    have hkid := hki c mem_cons_self
    cases pure_eq_ok.mp hpu
    cases emitOutcome_child hem hkid.child
    have hone : Frame db db₂ :=
      (((hkid.status _).trans hwr).trans (cancelTasks_frame _ _ _)).trans ((frame_seed _ 1).trans (enqueueWakeup_frame h₂))
    exact hone.trans (ih h₃ fun x hx => (hki x (mem_cons_of_mem _ hx)).frame hone)

theorem graphTerminal_frame (hb : Base db) (h : graphTerminal db r = .ok db') : Frame db db' := by
  rw [graphTerminal] at h
  split at h
  · simp only [pure_eq_ok] at h
    exact h ▸ Frame.refl db
  · simp only [bind_eq_ok] at h
    obtain ⟨db₁, h₁, h₂⟩ := h
    have hca : Frame db db₁ := { cancelChildren_frame h₁ (Base.kids { hb with }) with }
    exact hca.trans ((frame_seed _ 1).trans (enqueueWakeup_frame h₂))

theorem updateStatus_path (hb : Base db) (hr : r ∈ db.runs) (hp : r.status = .pending) (h : updateStatus db r s = .ok db')
    (hs : s ≠ .pending) : Path db db' := by
  obtain ⟨db₁, db₂, hwr, hte, hem⟩ := updateStatusWith_cases h
  have hfr : Frame db₁ db₂ := graphTerminal_frame (hwr.base (hb.updateRun fun _ => rfl)) hte
  cases hpr : r.graphParentId with
  | some parent =>
    have hch : r.graphParentId.isSome = true := by rw [hpr]; rfl
    cases emitOutcome_child hem hch
    exact (((hb.kid hr hch).status s).trans (hwr.trans hfr)).path
  | none =>
    cases emitOutcome_root hem hpr
    have hrs := hwr.trans hfr
    have hcl : Move db _ := .close (o := newOutcome db₂ { r with status := s, rowVersion := r.rowVersion + 1 }) hr hp hpr hs
      ⟨rfl, rfl, rfl, rfl, rfl, rfl, rfl, rfl⟩
    refine (Relation.ReflTransGen.single hcl).trans (Frame.path ⟨hrs.clock, hrs.seed, hrs.runs.trans ?_, ?_⟩)
    · rw [Db.updateRun, Db.updateRun, update, update, map_map, map_map]
      apply map_congr_left
      intro x _
      by_cases hid : x.id = r.id <;> simp [hid, Run.core, Run.ended]
    · exact congrArg (· ++ [newOutcome db₂ { r with status := s, rowVersion := r.rowVersion + 1 }]) hrs.outcomes

theorem finish_path (hb : Base db) (hr : r ∈ db.runs) (hp : r.status = .pending) (h : finish db r s = .ok db') (hs : s ≠ .pending) :
    Path db db' := by
  simp only [finish, bind_eq_ok, pure_eq_ok] at h
  obtain ⟨db₁, h, rfl⟩ := h
  exact (updateStatus_path hb hr hp h hs).trans (cancelTasks_frame _ _ _).path

/-! ## 承認の始まり -/

theorem insertDefinition_frame {d} (h : insertDefinition db tenant key version d = .ok db') : Frame db db' ∧ db'.runs = db.runs := by
  simp only [insertDefinition, bind_eq_ok, require_eq_ok, pure_eq_ok, exists_const] at h
  obtain ⟨_, -, -, -, rfl⟩ := h
  exact ⟨{ Frame.refl db with }, rfl⟩

theorem publish_frame {d} (h : publish db tenant actor request key version d = .ok db') : Frame db db' := by
  simp only [publish, bind_eq_ok, require_eq_ok, exists_const] at h
  obtain ⟨-, h⟩ := h
  split at h
  · simp only [bind_eq_ok, require_eq_ok, pure_eq_ok, exists_const] at h
    exact h.2 ▸ Frame.refl db
  · simp only [bind_eq_ok, require_eq_ok, exists_const] at h
    obtain ⟨-, h⟩ := h
    split at h
    · simp only [bind_eq_ok, require_eq_ok, pure_eq_ok, exists_const] at h
      obtain ⟨-, -, -, rfl⟩ := h
      exact { Frame.refl db with }
    · simp only [bind_eq_ok, pure_eq_ok] at h
      obtain ⟨db₁, h₁, rfl⟩ := h
      exact { (insertDefinition_frame h₁).1 with }

theorem insertRun_ok (h : insertRun env db r = .ok db') :
    ∃ y, y.id = r.id ∧ y.status = r.status ∧ db' = { db with seed := db.seed + 1, runs := db.runs ++ [y] } := by
  simp only [insertRun, bind_eq_ok, require_eq_ok, pure_eq_ok, exists_const] at h
  obtain ⟨y, hs, -, -, -, -, rfl⟩ := h
  refine ⟨y, ?_⟩
  simp only [protectSubject, bind_eq_ok] at hs
  obtain ⟨d, -, hs⟩ := hs
  split at hs
  · simp only [bind_eq_ok, pure_eq_ok] at hs
    obtain ⟨x, -, _, -, rfl⟩ := hs
    exact ⟨rfl, rfl, rfl⟩
  · simp only [bind_eq_ok, pure_eq_ok] at hs
    obtain ⟨_, -, rfl⟩ := hs
    exact ⟨rfl, rfl, rfl⟩

theorem insertTasks_frame {step actors} (h : insertTasks db tenant run step actors = .ok db') : Frame db db' ∧ db'.runs = db.runs := by
  simp only [insertTasks, bind_eq_ok, require_eq_ok, pure_eq_ok, exists_const] at h
  obtain ⟨-, rfl⟩ := h
  exact ⟨{ Frame.refl db with }, rfl⟩

theorem openTasks_frame (h : openTasks kernel env db tenant run = .ok db') : Frame db db' ∧ db'.runs = db.runs := by
  simp only [openTasks, bind_eq_ok] at h
  obtain ⟨_, -, _, -, _, -, h⟩ := h
  split at h
  · simp only [bind_eq_ok] at h
    obtain ⟨_, -, _, -, _, -, _, -, db₁, h₁, h₂⟩ := h
    simp only [insertAssignment, bind_eq_ok, require_eq_ok, pure_eq_ok, exists_const] at h₁
    obtain ⟨-, rfl⟩ := h₁
    obtain ⟨hfr, hru⟩ := insertTasks_frame h₂
    exact ⟨{ hfr with }, hru⟩
  · exact insertTasks_frame h

structure Opened (db db' : Db) : Prop where
  mem : ∃ c ∈ db'.runs, c.id = db.seed ∧ c.status = .pending
  old : ∀ r ∈ db.runs, r ∈ db'.runs

theorem mem_scheduleWait (tenant run) (hr : r ∈ db.runs) : ∃ c ∈ (scheduleWait db tenant run).runs, c.id = r.id ∧ c.status = r.status ∧
    (r.id ≠ run → c = r) := by
  rw [scheduleWait]
  split
  · exact ⟨r, hr, rfl, rfl, fun _ => rfl⟩
  · split
    · exact ⟨r, hr, rfl, rfl, fun _ => rfl⟩
    · refine ⟨_, mem_update.mpr ⟨r, hr, rfl⟩, ?_⟩
      split
      · rename_i hid
        exact ⟨rfl, rfl, fun hne => absurd (of_decide_eq_true hid) hne⟩
      · exact ⟨rfl, rfl, fun _ => rfl⟩

theorem insertOpen_path {db₁ db₂} (hb : Base db) (h₁ : insertRun env db r = .ok db₁) (h₂ : Frame db₁ db₂ ∧ db₂.runs = db₁.runs)
    (hid : r.id = db.seed) (hs : r.status = .pending) :
    Path db (scheduleWait db₂ tenant db.seed) ∧ Opened db (scheduleWait db₂ tenant db.seed) := by
  obtain ⟨y, hyid, hys, rfl⟩ := insertRun_ok h₁
  have hmo : Move db { db with seed := db.seed + 1, runs := db.runs ++ [y] } := .insert (hyid.trans hid) (hys.trans hs)
  refine ⟨(Relation.ReflTransGen.single hmo).trans (h₂.1.trans (frame_scheduleWait db₂ tenant db.seed)).path, ?_, fun x hx => ?_⟩
  · have hmem : y ∈ db₂.runs := h₂.2 ▸ mem_append_right _ (mem_singleton_self y)
    obtain ⟨c, hc, hcid, hcs, -⟩ := mem_scheduleWait tenant db.seed hmem
    exact ⟨c, hc, hcid.trans (hyid.trans hid), hcs.trans (hys.trans hs)⟩
  · have hmem : x ∈ db₂.runs := h₂.2 ▸ mem_append_left _ hx
    obtain ⟨c, hc, -, -, hsm⟩ := mem_scheduleWait tenant db.seed hmem
    exact hsm (Nat.ne_of_lt (hb.fresh x hx)) ▸ hc

theorem startBody_path (hb : Base db) (h : startBody kernel env db tenant actor key version entity snapshot = .ok (db', run)) :
    run = db.seed ∧ Path db db' ∧ Opened db db' := by
  simp only [startBody, bind_eq_ok, require_eq_ok, pure_eq_ok, exists_const, Prod.mk.injEq] at h
  obtain ⟨-, _, -, -, _, -, db₁, h₁, db₂, h₂, rfl, rfl⟩ := h
  exact ⟨rfl, insertOpen_path hb h₁ (openTasks_frame h₂) rfl rfl⟩

/-! ## 段の進行 -/

theorem openNextStep_frame {next} (h : openNextStep kernel env db r next = .ok db') : Frame db db' := by
  simp only [openNextStep, bind_eq_ok, pure_eq_ok] at h
  obtain ⟨db₁, h₁, rfl⟩ := h
  refine (Frame.trans ?_ (openTasks_frame h₁).1).trans (frame_scheduleWait _ _ _)
  exact frame_updateRun fun _ _ _ => rfl

theorem advanceCore_path (hb : Base db) (h : advanceCore kernel env db tenant run = .ok db') : Path db db' := by
  simp only [advanceCore, bind_eq_ok, fetch_eq_ok] at h
  obtain ⟨r, hfi, h⟩ := h
  have hr := (findRun_mem hfi).1
  split at h
  · exact pure_path h
  · rename_i hp
    have hp : r.status = .pending := Decidable.not_not.mp hp
    simp only [bind_eq_ok] at h
    obtain ⟨d, -, step, -, h⟩ := h
    have hdr : Frame db (cancelStepTasks db tenant run r.stepIndex) := { Frame.refl db with }
    split at h
    · exact finish_path hb hr hp h (by decide)
    · split at h
      · split at h
        · exact hdr.path.trans (finish_path (hdr.base hb) hr hp h (by decide))
        · exact (hdr.trans (openNextStep_frame h)).path
      · split at h
        · exact finish_path hb hr hp h (by decide)
        · exact pure_path h

theorem resumeWaitCore_path {token} (hb : Base db) (h : resumeWaitCore kernel env db tenant run token = .ok db') : Path db db' := by
  rw [resumeWaitCore] at h
  split at h
  · exact pure_path h
  · split at h
    · exact pure_path h
    · split at h
      · exact advanceCore_path hb h
      · simp only [pure_eq_ok] at h
        exact h ▸ (frame_scheduleWait db tenant run).path

/-! ## 決定、受け渡し、取り消しと差し戻し -/

theorem wakeAfterDecision_frame (h : wakeAfterDecision db r request = .ok db') : Frame db db' := by
  rw [wakeAfterDecision] at h
  split at h
  · exact enqueueWakeup_frame h
  · simp only [pure_eq_ok] at h
    exact h ▸ Frame.refl db

theorem decideTask_frame (h : decideTask env db r actor decision = .ok db') : Frame db db' := by
  simp only [decideTask, bind_eq_ok, pure_eq_ok] at h
  obtain ⟨_, -, _, -, _, -, rfl⟩ := h
  exact { Frame.refl db with }

theorem decideCore_path (hb : Base db)
    (h : decideCore kernel env db tenant actor request run expected decision reason snapshot = .ok (db', run')) : Path db db' := by
  refine idempotent_path h fun db₄ hbo => ?_
  simp only [bind_eq_ok, pure_eq_ok, Prod.mk.injEq] at hbo
  obtain ⟨_, -, r, -, _, -, _, -, _, -, db₁, h₁, db₂, h₂, db₃, h₃, rfl, -⟩ := hbo
  have hwr : Frame db (db₁.updateRun run fun row => { row with rowVersion := row.rowVersion + 1 }) :=
    (decideTask_frame h₁).trans (frame_updateRun fun _ _ _ => rfl)
  exact hwr.path.trans ((advanceCore_path (hwr.base hb) h₂).trans (wakeAfterDecision_frame h₃).path)

theorem decide_path (hb : Base db)
    (h : decide env db tenant actor request run expected decision reason snapshot = .ok (db', run')) : Path db db' := by
  simp only [decide, bind_eq_ok] at h
  obtain ⟨r, -, h⟩ := h
  split at h
  · exact decideCore_path hb h
  · exact decideCore_path hb h

variable {target : Option String}

theorem changeTask_frame {x} (h : changeTask env db x action target = .ok db') : Frame db db' := by
  simp only [changeTask, bind_eq_ok] at h
  obtain ⟨target, -, _, -, _, -, _, -, h⟩ := h
  split at h
  · simp only [delegateTask, pure_eq_ok] at h
    exact h ▸ { Frame.refl db with }
  · split at h
    · simp only [transferClaim, bind_eq_ok, pure_eq_ok] at h
      obtain ⟨_, -, rfl⟩ := h
      exact { Frame.refl db with }
    · simp only [assignTask, bind_eq_ok, pure_eq_ok] at h
      obtain ⟨_, -, _, -, rfl⟩ := h
      split <;> exact { Frame.refl db with }

theorem performAction_frame {x} (h : performAction env db x action target = .ok db') : Frame db db' := by
  cases action with
  | claim =>
    simp only [performAction, claimTask, bind_eq_ok, pure_eq_ok] at h
    obtain ⟨_, -, _, -, _, -, rfl⟩ := h
    exact { Frame.refl db with }
  | release =>
    simp only [performAction, releaseTask, bind_eq_ok, pure_eq_ok] at h
    obtain ⟨_, -, _, -, _, -, rfl⟩ := h
    exact { Frame.refl db with }
  | resolve =>
    simp only [performAction, resolveTask, bind_eq_ok, pure_eq_ok] at h
    obtain ⟨_, -, _, -, _, -, rfl⟩ := h
    exact { Frame.refl db with }
  | transfer | delegate | add => exact changeTask_frame h

theorem taskAction_path (h : taskAction env db tenant actor request run expected action target reason = .ok (db', run')) : Path db db' := by
  refine idempotent_path h fun db₁ hbo => ?_
  simp only [bind_eq_ok, pure_eq_ok, Prod.mk.injEq] at hbo
  obtain ⟨_, -, _, -, _, -, _, -, _, -, _, -, _, -, db₂, h₂, rfl, -⟩ := hbo
  refine ((performAction_frame h₂).trans ?_).path
  exact frame_updateRun fun _ _ _ => rfl

theorem cancel_path (hb : Base db) (h : cancel db tenant actor request run expected = .ok (db', run')) : Path db db' := by
  simp only [cancel, bind_eq_ok] at h
  obtain ⟨_, -, h⟩ := h
  refine idempotent_path h fun db₁ hbo => ?_
  simp only [bind_eq_ok, fetch_eq_ok, require_eq_ok, pure_eq_ok, exists_const, Prod.mk.injEq] at hbo
  obtain ⟨r, hfi, -, ⟨hp, -⟩, -, db₂, h₂, db₃, h₃, rfl, -⟩ := hbo
  exact (finish_path hb (findRun_mem hfi).1 hp h₂ (by decide)).trans (enqueueWakeup_frame h₃).path

theorem returnForChanges_path (hb : Base db)
    (h : returnForChanges env db tenant actor request run expected reason = .ok (db', run')) : Path db db' := by
  refine idempotent_path h fun db₁ hbo => ?_
  simp only [bind_eq_ok, fetch_eq_ok, require_eq_ok, exists_const] at hbo
  obtain ⟨-, r, hfi, ⟨hp, -⟩, -, -, -, hbo⟩ := hbo
  have hend : ∃ db₂ db₃, finish db r .returned = .ok db₂ ∧ enqueueWakeup db₂ tenant request run r.engineId = .ok db₃ ∧ db₃ = db₁ := by grind [bind_eq_ok, pure_eq_ok]
  obtain ⟨db₂, db₃, h₂, h₃, rfl⟩ := hend
  exact (finish_path hb (findRun_mem hfi).1 hp h₂ (by decide)).trans (enqueueWakeup_frame h₃).path

theorem resubmitWithoutGraph_path (hb : Base db)
    (h : resubmitWithoutGraph env db tenant actor request run expected snapshot reason = .ok (db', run')) : Path db db' := by
  refine idempotent_path h fun db₁ hbo => ?_
  simp only [bind_eq_ok, pure_eq_ok, Prod.mk.injEq] at hbo
  obtain ⟨_, -, old, -, _, -, _, -, _, -, _, -, _, -, _, -, _, -, db₂, h₂, db₃, h₃, rfl, -⟩ := hbo
  exact (insertOpen_path hb h₂ (openTasks_frame h₃) rfl rfl).1

/-! ## グラフ -/

section

variable (hb : Base db) (hr : r ∈ db.runs)

include hb hr

theorem startNode_path {n} (h : startNode env db r subject n = .ok db') : Path db db' ∧ r ∈ db'.runs := by
  simp only [startNode, bind_eq_ok, pure_eq_ok, Prod.exists] at h
  obtain ⟨_, -, db₁, h₁, db₃, child, h₃, db₄, h₄, rfl⟩ := h
  obtain ⟨hde, hru⟩ := insertDefinition_frame h₁
  have hrd := hde.trans (frame_seed db₁ 1)
  have hb₂ := hrd.base hb
  obtain ⟨rfl, hpa, hop⟩ := startBody_path hb₂ h₃
  obtain ⟨hsa, hsm⟩ := saveReceipt_frame h₄
  obtain ⟨c, hc, hcid, hcs⟩ := hop.mem
  have hr₁ : r ∈ db₁.runs := hru ▸ hr
  have hmo : Move db₄ _ := .adopt r.id (hsm ▸ hc) hcs
  rw [hcid] at hmo
  refine ⟨hrd.path.trans (hpa.trans (hsa.path.trans ((Relation.ReflTransGen.single hmo).trans (Frame.path ?_)))), ?_⟩
  · exact { Frame.refl _ with }
  · have hne : r.id ≠ db₁.seed + 1 := Nat.ne_of_lt (hb₂.fresh r hr₁)
    exact mem_update.mpr ⟨r, hsm ▸ hop.old r hr₁, by simp [hne]⟩

theorem progressNode_path {n} (h : progressNode env db r subject n = .ok db') : Path db db' ∧ r ∈ db'.runs := by
  rw [progressNode] at h
  split at h
  · simp only [pure_eq_ok] at h
    subst h
    exact ⟨Frame.path { Frame.refl db with }, hr⟩
  · exact startNode_path hb hr h

theorem progressNodes_path {ns} (h : progressNodes env r subject ns db = .ok db') : Path db db' ∧ r ∈ db'.runs := by
  induction ns generalizing db with
  | nil =>
    simp only [progressNodes, pure_eq_ok] at h
    exact h ▸ ⟨.refl, hr⟩
  | cons n rest ih =>
    simp only [progressNodes, bind_eq_ok] at h
    obtain ⟨db₁, h₁, h₂⟩ := h
    obtain ⟨hpa, hr₁⟩ := progressNode_path hb hr h₁
    obtain ⟨hrs, hr₂⟩ := ih (hb.path hpa) hr₁ h₂
    exact ⟨hpa.trans hrs, hr₂⟩

theorem progressLoop_path {fuel} (h : progressLoop env r subject fuel db = .ok db') : Path db db' ∧ r ∈ db'.runs := by
  induction fuel generalizing db with
  | zero =>
    simp only [progressLoop, pure_eq_ok] at h
    exact h ▸ ⟨.refl, hr⟩
  | succ fuel ih =>
    rw [progressLoop] at h
    split at h
    · simp only [pure_eq_ok] at h
      exact h ▸ ⟨.refl, hr⟩
    · simp only [bind_eq_ok] at h
      obtain ⟨db₁, h₁, h₂⟩ := h
      obtain ⟨hpa, hr₁⟩ := progressNodes_path hb hr h₁
      obtain ⟨hrs, hr₂⟩ := ih (hb.path hpa) hr₁ h₂
      exact ⟨hpa.trans hrs, hr₂⟩

end

theorem nodeOutcome_ne {nodes} (h : nodeOutcome nodes = some s) : s ≠ .pending := by
  rw [nodeOutcome] at h
  obtain ⟨n, -, hs⟩ := exists_of_findSome?_eq_some h
  rintro rfl
  cases hn : n.status <;> simp [hn, NodeStatus.outcome?] at hs

theorem graphProgress_path (hb : Base db) (h : graphProgress env db tenant run = .ok db') : Path db db' := by
  simp only [graphProgress, bind_eq_ok, fetch_eq_ok] at h
  obtain ⟨r, hfi, h⟩ := h
  have hr := (findRun_mem hfi).1
  split at h
  · exact pure_path h
  · rename_i hp
    have hp : r.status = .pending := Decidable.not_not.mp hp
    split at h
    · rename_i s hs
      exact updateStatus_path hb hr hp h (nodeOutcome_ne hs)
    · simp only [bind_eq_ok] at h
      obtain ⟨_, -, _, -, db₁, h₁, h⟩ := h
      obtain ⟨hpa, hr₁⟩ := progressLoop_path hb hr h₁
      split at h
      · simp only [pure_eq_ok] at h
        exact h ▸ hpa
      · exact hpa.trans (updateStatus_path (hb.path hpa) hr₁ hp h (by decide))

theorem bumpIfChanged_frame (db next run) : Frame next (bumpIfChanged db next run) := by
  rw [bumpIfChanged]
  split
  · exact Frame.refl next
  · exact frame_updateRun fun _ _ _ => rfl

theorem reconcileGraph_path (hb : Base db) (h : reconcileGraph env db tenant run = .ok db') : Path db db' := by
  rw [reconcileGraph] at h
  split at h
  · exact pure_path h
  · split at h
    · exact pure_path h
    · have hco : Frame db (copyOutcomes db tenant run) := { Frame.refl db with }
      have hbu := hco.trans (bumpIfChanged_frame db _ run)
      exact hbu.path.trans (graphProgress_path (hbu.base hb) h)

theorem graphTick_path {token} (hb : Base db) (h : graphTick env db tenant run token = .ok db') : Path db db' := by
  rw [graphTick] at h
  split at h
  · exact pure_path h
  · rename_i r hfi
    split at h
    · exact pure_path h
    · rename_i hcn
      split at h
      · exact updateStatus_path hb (findRun_mem hfi).1 (by simpa using (not_or.mp hcn).1) h nofun
      · simp only [bind_eq_ok, pure_eq_ok] at h
        obtain ⟨db₁, h₁, rfl⟩ := h
        exact (reconcileGraph_path hb h₁).trans (frame_scheduleWait db₁ tenant run).path

theorem graphLineage_ok {previous x} (h : graphLineage db tenant actor previous x = .ok r) : r.id = x.id ∧ r.status = x.status := by
  cases previous with
  | none =>
    simp only [graphLineage, pure_eq_ok] at h
    exact h ▸ ⟨rfl, rfl⟩
  | some p =>
    simp only [graphLineage, bind_eq_ok, pure_eq_ok] at h
    obtain ⟨old, -, rfl⟩ := h
    exact ⟨rfl, rfl⟩

theorem insertGraph_frame {facts g} (h : insertGraph db tenant run facts g = .ok db') : Frame db db' ∧ db'.runs = db.runs := by
  simp only [insertGraph, bind_eq_ok, pure_eq_ok] at h
  obtain ⟨_, -, _, -, _, -, rfl⟩ := h
  exact ⟨{ Frame.refl db with }, rfl⟩

theorem startGraph_path {previous} (hb : Base db) (h : startGraph env db tenant actor request key version entity snapshot previous = .ok (db', run')) : Path db db' := by
  refine idempotent_path h fun db₃ hbo => ?_
  simp only [bind_eq_ok] at hbo
  obtain ⟨_, -, hbo⟩ := hbo
  split at hbo
  · simp only [bind_eq_ok, pure_eq_ok, Prod.mk.injEq] at hbo
    obtain ⟨r, hr, _, -, facts, -, _, -, db₁, h₁, db₂, h₂, db₄, h₄, rfl, -⟩ := hbo
    obtain ⟨hid, hs⟩ := graphLineage_ok hr
    have hope : Path db (scheduleWait db₂ tenant db.seed) := (insertOpen_path hb h₁ (insertGraph_frame h₂) hid hs).1
    exact hope.trans (graphProgress_path (hb.path hope) h₄)
  · cases hbo

/-! ## 振り分けと運用 -/

theorem onGraph_ok {x} (h : onGraph db tenant run x = .ok db') : db' = db ∨ x = .ok db' := by
  rw [onGraph] at h
  split at h
  · exact .inr h
  · exact .inl (pure_eq_ok.mp h).symm

section

variable (hb : Base db)

include hb

theorem advance_path (h : advance env db tenant run = .ok db') : Path db db' := by
  simp only [advance, bind_eq_ok] at h
  obtain ⟨r, -, h⟩ := h
  split at h
  · exact graphTick_path hb h
  · split at h
    · exact advanceCore_path hb h
    · exact advanceCore_path hb h

theorem resumeWait_path {token} (h : resumeWait env db tenant run token = .ok db') : Path db db' := by
  rw [resumeWait] at h
  split at h
  · exact pure_path h
  · split at h
    · exact graphTick_path hb h
    · split at h
      · exact resumeWaitCore_path hb h
      · exact resumeWaitCore_path hb h

theorem deliverWakeup_path (h : deliverWakeup env db tenant request = .ok db') : Path db db' := by
  have hma : ∀ db, Frame db (markDelivered db tenant request) := fun db => { Frame.refl db with }
  rw [deliverWakeup] at h
  split at h
  · exact pure_path h
  · split at h
    · exact pure_path h
    · split at h
      · simp only [pure_eq_ok] at h
        exact h ▸ (hma db).path
      · simp only [bind_eq_ok, pure_eq_ok] at h
        obtain ⟨db₁, h₁, rfl⟩ := h
        exact (reconcileGraph_path hb h₁).trans (hma db₁).path

theorem startCore_path (h : startCore kernel env db tenant actor request key version entity snapshot = .ok (db', run')) : Path db db' :=
  idempotent_path h fun _ hbo => (startBody_path hb hbo).2.1

theorem start_path (h : start env db tenant actor request key version entity snapshot = .ok (db', run')) : Path db db' := by
  simp only [start, bind_eq_ok] at h
  obtain ⟨_, -, h⟩ := h
  split at h
  · exact startGraph_path hb h
  · exact startCore_path hb h
  · exact startCore_path hb h

theorem resubmit_path (h : resubmit env db tenant actor request run expected snapshot reason = .ok (db', run')) : Path db db' := by
  simp only [resubmit, bind_eq_ok] at h
  obtain ⟨r, -, _, -, h⟩ := h
  split at h
  · exact startGraph_path hb h
  · exact resubmitWithoutGraph_path hb h

theorem migrateRun_path {targetVersion} (h : migrateRun env db tenant actor request run expected targetVersion snapshot reason = .ok (db', run')) : Path db db' := by
  refine idempotent_path h fun db₁ hbo => ?_
  simp only [bind_eq_ok, pure_eq_ok, Prod.exists, Prod.mk.injEq] at hbo
  obtain ⟨_, -, r, -, _, -, _, -, _, -, _, -, _, -, db₂, _, h₂, db₃, _, h₃, _, -, rfl, -⟩ := hbo
  have hca := (frame_seed db 1).path.trans (cancel_path ((frame_seed db 1).base hb) h₂)
  have hse := hca.trans (frame_seed db₂ 1).path
  exact (hse.trans (start_path (hb.path hse) h₃)).trans (Frame.path { Frame.refl db₃ with })

theorem recoverRun_path : Path db (recoverRun env db r) := by
  rw [recoverRun]
  split
  · rename_i next h
    refine Relation.ReflTransGen.trans ?_ (Frame.path (frame_updateRun fun _ _ _ => rfl))
    split at h
    · exact advance_path hb h
    · simp only [pure_eq_ok] at h
      exact h ▸ (frame_scheduleWait db r.tenant r.id).path
  · exact Frame.path (frame_updateRun fun _ _ _ => rfl)

theorem recoverRuns_path {rows} : Path db (recoverRuns env rows db) := by
  induction rows generalizing db with
  | nil => exact .refl
  | cons r rows ih => exact (recoverRun_path hb).trans (ih (hb.path (recoverRun_path hb)))

end

theorem recoverWakeups_frame (ws db) : Frame db (recoverWakeups ws db) := by
  induction ws generalizing db with
  | nil => exact Frame.refl db
  | cons w ws ih =>
    refine Frame.trans ?_ (ih _)
    exact { frame_seed db 1 with }

theorem maintenance_path {limit} (hb : Base db) (h : maintenance env db limit = .ok db') : Path db db' := by
  simp only [maintenance, bind_eq_ok, pure_eq_ok] at h
  obtain ⟨_, -, rfl⟩ := h
  exact (recoverRuns_path hb).trans (recoverWakeups_frame _ _).path

theorem retryExecution_path {engine} (hb : Base db) (h : retryExecution env db tenant run engine reason = .ok db') : Path db db' := by
  simp only [retryExecution, bind_eq_ok] at h
  obtain ⟨_, -, r, -, _, -, h⟩ := h
  split at h
  · simp only [bind_eq_ok, pure_eq_ok] at h
    obtain ⟨next, hnx, rfl⟩ := h
    refine (advance_path hb hnx).trans (Frame.path ?_)
    exact frame_updateRun fun _ _ _ => rfl
  · simp only [bind_eq_ok, pure_eq_ok] at h
    obtain ⟨_, -, next, rfl, rfl⟩ := h
    refine ((frame_scheduleWait db tenant run).trans ?_).path
    exact frame_updateRun fun _ _ _ => rfl

/-! ## 一つの取引 -/

def Event.isOutbox : Event → Bool
  | .claimOutcome _ _ _ | .ackOutcome _ _ _ | .nackOutcome _ _ _ _ | .requeueOutcome _ _ _ => true
  | _ => false

theorem quiet_ok {l x} (h : quiet x = .ok (db', l)) : x = .ok db' ∧ l = none := by
  cases x with
  | error e => cases h
  | ok d =>
    simp only [quiet, Except.map, Except.ok.injEq, Prod.mk.injEq] at h
    exact ⟨by rw [h.1], h.2.symm⟩

theorem receipt_ok {l x} (h : receipt x = .ok (db', l)) : ∃ run, x = .ok (db', run) ∧ l = none := by
  cases x with
  | error e => cases h
  | ok d =>
    simp only [receipt, Except.map, Except.ok.injEq, Prod.mk.injEq] at h
    exact ⟨d.2, by rw [← h.1], h.2.symm⟩

inductive Effect (db : Db) : Db → Prop where
  | tick (elapsed : Nat) : Effect db { db with clock := db.clock + elapsed }
  | path {db' : Db} : Path db db' → Effect db db'

theorem step_effect {e l} (hb : Base db) (he : e.isOutbox = false) (h : step db e = .ok (db', l)) : l = none ∧ Effect db db' := by
  have hqu : ∀ {x}, quiet x = .ok (db', l) → (x = .ok db' → Path db db') → l = none ∧ Effect db db' :=
    fun h hpa => ⟨(quiet_ok h).2, .path (hpa (quiet_ok h).1)⟩
  have hre : ∀ {x}, receipt x = .ok (db', l) → (∀ run, x = .ok (db', run) → Path db db') → l = none ∧ Effect db db' := by
    intro x h hpa
    obtain ⟨run, hx, hl⟩ := receipt_ok h
    exact ⟨hl, .path (hpa run hx)⟩
  have hgr : ∀ {tenant run x}, (x = .ok db' → Path db db') → onGraph db tenant run x = .ok db' → Path db db' := by
    intro tenant run x hpa h
    rcases onGraph_ok h with rfl | h
    · exact .refl
    · exact hpa h
  cases e with
  | tick elapsed =>
    simp only [step, Except.ok.injEq, Prod.mk.injEq] at h
    exact ⟨h.2.symm, h.1 ▸ .tick elapsed⟩
  | publish => exact hqu h fun h => (publish_frame h).path
  | start => exact hre h fun _ => start_path hb
  | decide => exact hre h fun _ => decide_path hb
  | taskAction => exact hre h fun _ => taskAction_path
  | returnForChanges => exact hre h fun _ => returnForChanges_path hb
  | resubmit => exact hre h fun _ => resubmit_path hb
  | cancel => exact hre h fun _ => cancel_path hb
  | migrateRun => exact hre h fun _ => migrateRun_path hb
  | resumeWait => exact hqu h (resumeWait_path hb)
  | advance => exact hqu h (advance_path hb)
  | graphTick => exact hqu h (hgr (graphTick_path hb))
  | reconcileGraph => exact hqu h (hgr (reconcileGraph_path hb))
  | deliverWakeup => exact hqu h (deliverWakeup_path hb)
  | maintenance => exact hqu h (maintenance_path hb)
  | retryExecution => exact hqu h (retryExecution_path hb)
  | claimOutcome _ _ _ | ackOutcome _ _ _ | nackOutcome _ _ _ _ | requeueOutcome _ _ _ => cases he

end Supacloud.Approval
