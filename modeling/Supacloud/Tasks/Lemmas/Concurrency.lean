import Supacloud.Tasks.Lemmas.Background

/-! # 期限の来ていない受け持ちの数 -/

namespace Supacloud.Tasks.Concurrency

open Library List

/-! ## 受け持ちを増やさない手続き -/

def Task.Leased (t : Task) : Prop := t.leaseUntil ≠ none → t.held = true

structure Keeps (clock : Timestamp) (t t' : Task) : Prop where
  id : t'.id = t.id
  projectRef : t'.projectRef = t.projectRef
  taskType : t'.taskType = t.taskType
  live : t'.live clock = true → t.live clock = true
  leased : Task.Leased t → Task.Leased t'

theorem Keeps.refl (clock t) : Keeps clock t t := ⟨rfl, rfl, rfl, fun h => h, fun h => h⟩

theorem Keeps.release {clock t t'} (hid : t'.id = t.id) (href : t'.projectRef = t.projectRef)
    (hty : t'.taskType = t.taskType) (hls : t'.leaseUntil = none) : Keeps clock t t' :=
  ⟨hid, href, hty, by simp [Task.live, hls], fun _ hne => absurd hls hne⟩

structure Quiet (w w' : World) : Prop where
  rows : ∃ φ : Task → Task, ∃ news : List Task, w'.db.tasks = w.db.tasks.map φ ++ news ∧ (∀ t ∈ w.db.tasks, Keeps w.db.clock t (φ t)) ∧
    (news = [] ∨ ∃ t, news = [t] ∧ t.id = w.db.uuid ∧ w.db.uuid < w'.db.uuid ∧ t.leaseUntil = none)
  clock : w.db.clock ≤ w'.db.clock
  uuid : w.db.uuid ≤ w'.db.uuid
  projects : w'.db.projects = w.db.projects

variable {w w' : World}

theorem Quiet.replace {φ} (ht : w'.db.tasks = w.db.tasks.map φ) (hc : w'.db.clock = w.db.clock)
    (hu : w'.db.uuid = w.db.uuid) (hp : w'.db.projects = w.db.projects) (h : ∀ t ∈ w.db.tasks, Keeps w.db.clock t (φ t)) : Quiet w w' :=
  ⟨⟨φ, [], by rw [ht, append_nil], h, .inl rfl⟩, Nat.le_of_eq hc.symm, Nat.le_of_eq hu.symm, hp⟩

theorem Quiet.update {p f} (ht : w'.db.tasks = update p f w.db.tasks) (hc : w'.db.clock = w.db.clock)
    (hu : w'.db.uuid = w.db.uuid) (hp : w'.db.projects = w.db.projects) (h : ∀ t ∈ w.db.tasks, p t = true → Keeps w.db.clock t (f t)) : Quiet w w' := by
  refine Quiet.replace ht hc hu hp ?_
  intro t hmem
  split
  next hpt => exact h t hmem hpt
  next => exact .refl _ t

theorem Quiet.stay (w) : Quiet w w := Quiet.replace (φ := id) (by simp) rfl rfl rfl fun t _ => .refl _ t

theorem create_quiet (w input) : Quiet w (step w (.createTask input)) := by
  rcases Background.createTask_cases w.db.tasks w.db.uuid w.db.clock input with hc | ⟨t, hc, hid, -, -, hls⟩
  · exact ⟨⟨id, [], hc.trans (by simp), fun t _ => .refl _ t, .inl rfl⟩, Nat.le_refl _, Nat.le_succ _, rfl⟩
  · exact ⟨⟨id, [t], hc.trans (by simp), fun t _ => .refl _ t, .inr ⟨t, rfl, hid, Nat.lt_succ_self _, hls⟩⟩, Nat.le_refl _,
      Nat.le_succ _, rfl⟩

section Transact

variable {α : Type} {x : Except StoreError (Db × α)}

theorem transact_quiet (h : ∀ db b, x = .ok (db, b) → Quiet w { w with db }) : Quiet w (w.transact x) := by
  cases x with
  | ok r => exact h r.1 r.2 rfl
  | error e => exact .stay w

theorem transact_statements : (w.transact x).statements = w.statements := by
  cases x <;> rfl

end Transact

theorem Task.recover_lease (t : Task) (now) : (t.recover now).leaseUntil = none := by
  simp only [Task.recover]
  split
  · rfl
  · split <;> rfl

theorem renew_quiet (hro : (w.db.tasks.map Task.id).Nodup) (key duration) : Quiet w (step w (.renew key duration)) := by
  refine transact_quiet fun db b hok => ?_
  rcases renew_ok hok with rfl | ⟨t, hl, hhe, -, hli, rfl⟩
  · exact .stay w
  · refine Quiet.update rfl rfl rfl rfl ?_
    intro r hr hid
    have heq : r = t := eq_of_key hro hr hl.mem (of_decide_eq_true hid)
    subst heq
    exact ⟨rfl, rfl, rfl, fun _ => hli, fun _ _ => hhe⟩

theorem start_quiet (hro : (w.db.tasks.map Task.id).Nodup) (key duration) : Quiet w (step w (.start key duration)) := by
  refine transact_quiet fun db b hok => ?_
  cases b with
  | true =>
    obtain ⟨t, hl, -, hs, -, hli, -, rfl⟩ := start_ok hok
    refine Quiet.update rfl rfl rfl rfl ?_
    intro r hr hid
    have heq : r = t := eq_of_key hro hr hl.mem (of_decide_eq_true hid)
    subst heq
    exact ⟨rfl, rfl, rfl, fun _ => hli, fun _ _ => by simp [Task.held, Task.begin]⟩
  | false =>
    rw [start_refused hok]
    exact .stay w

theorem finish_quiet (key completion) : Quiet w (step w (.finish key completion)) := by
  refine transact_quiet fun db status hok => ?_
  cases status with
  | some status =>
    obtain ⟨t, -, -, -, -, row, error, attempts, -, -, -, -, -, rfl⟩ := finish_ok hok
    exact Quiet.update rfl rfl rfl rfl fun r _ _ => .release rfl rfl rfl rfl
  | none =>
    rw [finish_ignored hok]
    exact .stay w

theorem requestCancellation_quiet (key) : Quiet w (step w (.requestCancellation key)) := by
  refine transact_quiet fun db status hok => ?_
  cases status with
  | some status =>
    obtain ⟨t, -, -, rfl⟩ := requestCancellation_ok hok
    refine Quiet.update rfl rfl rfl rfl ?_
    intro r _ _
    cases hq : r.queued with
    | true => exact .release rfl rfl rfl (by simp [Task.requestCancel, hq])
    | false =>
      refine ⟨rfl, rfl, rfl, by simp [Task.requestCancel, Task.live, hq], ?_⟩
      simp [Task.Leased, Task.requestCancel, Task.held, hq]
  | none =>
    rw [requestCancellation_ignored hok]
    exact .stay w

theorem step_quiet (hro : (w.db.tasks.map Task.id).Nodup) {e} (hb : ∀ claim, e ≠ .begin claim) (hc : ∀ call skip, e ≠ .commit call skip) :
    Quiet w (step w e) ∧ (step w e).statements = w.statements := by
  cases e with
  | begin claim => exact absurd rfl (hb claim)
  | commit call skip => exact absurd rfl (hc call skip)
  | tick elapsed =>
    exact ⟨⟨⟨id, [], by rw [map_id, append_nil]; rfl, fun t _ => .refl _ t, .inl rfl⟩, Nat.le_add_right _ _, Nat.le_refl _, rfl⟩, rfl⟩
  | createTask input => exact ⟨create_quiet w input, rfl⟩
  | recoverExpiredLeases started projectRef taskTypes =>
    refine ⟨Quiet.update rfl rfl rfl rfl fun t _ _ => ?_, rfl⟩
    have hsa := Background.Task.recover_same t (min started w.db.clock)
    exact .release hsa.id hsa.projectRef hsa.taskType (Task.recover_lease t _)
  | renew key duration => exact ⟨renew_quiet hro key duration, transact_statements⟩
  | start key duration => exact ⟨start_quiet hro key duration, transact_statements⟩
  | finish key completion => exact ⟨finish_quiet key completion, transact_statements⟩
  | requestCancellation key => exact ⟨requestCancellation_quiet key, transact_statements⟩
  | recoverCancelled skip | retryTask id projectRef | markTaskSucceeded id | scheduleRetry id error nextRunAt | markTaskFailed id error
  | acknowledgeQueueMessage id => exact ⟨Quiet.update rfl rfl rfl rfl fun t _ _ => .release rfl rfl rfl rfl, rfl⟩
  | markTaskRunning id =>
    refine ⟨Quiet.update rfl rfl rfl rfl fun t _ _ => ?_, rfl⟩
    exact ⟨rfl, rfl, rfl, fun h => h, fun _ _ => by simp [Task.held]⟩

/-! ## 数え上げ -/

theorem activeCount_update_le {tasks} (hro : (tasks.map Task.id).Nodup) {t} (ht : t ∈ tasks)
    (now duration ref) (type : TaskType) (clock) :
    activeCount (update (fun r => r.id = t.id) (fun r => r.lease now duration) tasks) ref type clock ≤
      activeCount tasks ref type clock + if t.projectRef = ref ∧ t.taskType = type then 1 else 0 := by
  have hcn := countP_update_key (f := fun r => r.lease now duration) hro ht fun r =>
    decide (r.projectRef = ref ∧ r.taskType = type ∧ r.held ∧ r.live clock)
  rw [activeCount, activeCount]
  by_cases hk : t.projectRef = ref ∧ t.taskType = type
  · grind
  · rw [if_neg hk]
    have hz : (if (decide ((t.lease now duration).projectRef = ref ∧ (t.lease now duration).taskType = type ∧
        (t.lease now duration).held ∧ (t.lease now duration).live clock)) = true then 1 else 0) = 0 := by
      have hne : ¬ ((t.lease now duration).projectRef = ref ∧ (t.lease now duration).taskType = type ∧
          (t.lease now duration).held ∧ (t.lease now duration).live clock) := fun h => hk ⟨h.1, h.2.1⟩
      simp [hne]
    omega

theorem Task.live_mono {t : Task} {clock later} (h : t.live later = true) (hle : clock ≤ later) : t.live clock = true := by
  simp only [Task.live, Option.any_eq_true, decide_eq_true_eq] at h ⊢
  obtain ⟨u, hu, hlt⟩ := h
  exact ⟨u, hu, Nat.lt_of_le_of_lt hle hlt⟩

theorem Quiet.activeCount_le (h : Quiet w w') (hlea : ∀ t ∈ w.db.tasks, Task.Leased t) (ref) (type : TaskType) : activeCount w'.db.tasks ref type w'.db.clock ≤ activeCount w.db.tasks ref type w.db.clock := by
  obtain ⟨φ, news, htas, hφ, hnw⟩ := h.rows
  have hze : activeCount news ref type w'.db.clock = 0 := by grind [activeCount, Task.live]
  have hmap : activeCount (w.db.tasks.map φ) ref type w'.db.clock ≤ activeCount w.db.tasks ref type w.db.clock := by
    rw [activeCount, activeCount, countP_map]
    apply countP_mono_left
    intro t ht hc
    have hk := hφ t ht
    simp only [Function.comp_apply, decide_eq_true_eq] at hc ⊢
    obtain ⟨href, hty, -, hli⟩ := hc
    have hli' := hk.live (Task.live_mono hli h.clock)
    refine ⟨hk.projectRef ▸ href, hk.taskType ▸ hty, hlea t ht ?_, hli'⟩
    intro hno
    simp [Task.live, hno] at hli'
  have happ : activeCount (w.db.tasks.map φ ++ news) ref type w'.db.clock =
      activeCount (w.db.tasks.map φ) ref type w'.db.clock + activeCount news ref type w'.db.clock :=
    countP_append
  rw [htas, happ, hze]
  exact hmap

/-! ## 不変条件 -/

structure StatementInv (limit : String → TaskType → Nat) (db : Db) (s : Statement) : Prop where
  conforms : s.claim.Conforms limit db.projects
  known : ∀ r ∈ s.snapshot, r.id < db.uuid
  same : ∀ r ∈ s.snapshot, ∀ t ∈ db.tasks, t.id = r.id → t.projectRef = r.projectRef ∧ t.taskType = r.taskType
  count : ∀ ref type, activeCount db.tasks ref type db.clock ≤ activeCount s.snapshot ref type s.now + s.missed.count (ref, type)

structure Inv (limit : String → TaskType → Nat) (w : World) : Prop where
  rows : (w.db.tasks.map Task.id).Nodup
  fresh : ∀ t ∈ w.db.tasks, t.id < w.db.uuid
  leased : ∀ t ∈ w.db.tasks, Task.Leased t
  statements : ∀ s ∈ w.statements, StatementInv limit w.db s
  bound : ∀ ref type, activeCount w.db.tasks ref type w.db.clock ≤ limit ref type

theorem inv_empty (limit : String → TaskType → Nat) (clock projects) : Inv limit (World.empty clock projects) := by
  constructor <;> simp [World.empty, activeCount]

theorem Quiet.mem_cases (h : Quiet w w') {t'} (ht' : t' ∈ w'.db.tasks) :
    (∃ t ∈ w.db.tasks, Keeps w.db.clock t t') ∨ (t'.id = w.db.uuid ∧ w.db.uuid < w'.db.uuid ∧ t'.leaseUntil = none) := by
  obtain ⟨φ, news, htas, hφ, hnw⟩ := h.rows
  rw [htas, mem_append, mem_map] at ht'
  rcases ht' with ⟨t, ht, rfl⟩ | hn
  · exact .inl ⟨t, ht, hφ t ht⟩
  · grind

variable {limit : String → TaskType → Nat}

theorem Quiet.inv (h : Quiet w w') (hst : w'.statements = w.statements) (hi : Inv limit w) : Inv limit w' := by
  have hcn := h.activeCount_le hi.leased
  refine ⟨?_, ?_, ?_, ?_, fun ref type => (hcn ref type).trans (hi.bound ref type)⟩
  · obtain ⟨φ, news, htas, hφ, hnw⟩ := h.rows
    have hmap : (w.db.tasks.map φ).map Task.id = w.db.tasks.map Task.id := by
      rw [map_map]
      exact map_congr_left fun t ht => (hφ t ht).id
    rw [htas, map_append, hmap]
    rcases hnw with rfl | ⟨t, rfl, hid, -⟩
    · simpa using hi.rows
    · refine nodup_append.mpr ⟨hi.rows, by simp, ?_⟩
      intro a ha b hb heq
      obtain ⟨r, hr, rfl⟩ := mem_map.mp ha
      simp only [map_cons, map_nil, mem_singleton] at hb
      exact absurd (heq.trans (hb.trans hid)) (Nat.ne_of_lt (hi.fresh r hr))
  · intro t' ht'
    rcases h.mem_cases ht' with ⟨t, ht, hk⟩ | ⟨hid, hlt, -⟩
    · rw [hk.id]
      exact Nat.lt_of_lt_of_le (hi.fresh t ht) h.uuid
    · rw [hid]
      exact hlt
  · intro t' ht'
    rcases h.mem_cases ht' with ⟨t, ht, hk⟩ | ⟨-, -, hno⟩
    · exact hk.leased (hi.leased t ht)
    · exact fun hne => absurd hno hne
  · intro s hs
    have hsi := hi.statements s (hst ▸ hs)
    refine ⟨h.projects ▸ hsi.conforms, fun r hr => Nat.lt_of_lt_of_le (hsi.known r hr) h.uuid, ?_,
      fun ref type => (hcn ref type).trans (hsi.count ref type)⟩
    intro r hr t' ht' hid
    rcases h.mem_cases ht' with ⟨t, ht, hk⟩ | ⟨hnew, -, -⟩
    · rw [hk.projectRef, hk.taskType]
      exact hsi.same r hr t ht (hk.id.symm.trans hid)
    · exact absurd (hsi.known r hr) (by rw [← hid, hnew]; exact Nat.lt_irrefl _)

theorem Inv.begin {limit : String → TaskType → Nat} {w} (h : Inv limit w) {claim}
    (hc : claim.Conforms limit w.db.projects) : Inv limit (w.begin claim) := by
  refine ⟨h.rows, h.fresh, h.leased, ?_, h.bound⟩
  intro s hs
  rcases mem_cons.mp hs with rfl | hs
  · refine ⟨hc, h.fresh, ?_, fun ref type => Nat.le_add_right _ _⟩
    intro r hr t ht hid
    rw [eq_of_key h.rows ht hr hid]
    exact ⟨rfl, rfl⟩
  · exact h.statements s hs

theorem Statement.result_some {s} (hro : (w.db.tasks.map Task.id).Nodup) (hs : StatementInv limit w.db s) {skip}
    {leased tasks} (h : s.result w.db skip = some (leased, tasks)) : ∃ t ∈ w.db.tasks, ∃ duration, leased = t.lease s.now duration ∧
      tasks = update (fun r => r.id = t.id) (fun r => r.lease s.now duration) w.db.tasks ∧
      activeCount s.snapshot t.projectRef t.taskType s.now < limit t.projectRef t.taskType := by
  have hco := hs.conforms
  simp only [Statement.result] at h
  split at h
  next o hcl =>
    rw [hcl] at hco
    obtain ⟨t, ht, -, hl, htas, r, hr, hid, hadm⟩ := leaseCandidate_some hro h
    obtain ⟨href, hty⟩ := hs.same r hr t ht hid.symm
    simp only [TaskLeaseOptions.admits, decide_eq_true_eq, any_eq_true] at hadm
    obtain ⟨⟨p, hp, hpr, hlt⟩, hal⟩ := hadm
    refine ⟨t, ht, _, hl, htas, ?_⟩
    rw [href, hty]
    exact Nat.lt_of_lt_of_le hlt (hpr ▸ hco p hp r.taskType hal)
  next o hcl =>
    rw [hcl] at hco
    obtain ⟨n, hn, hle⟩ := hco
    obtain ⟨t, ht, -, hl, htas, r, hr, hid, hadm⟩ := leaseCandidate_some hro h
    obtain ⟨href, hty⟩ := hs.same r hr t ht hid.symm
    simp only [ClaimQueueMessageOptions.admits, decide_eq_true_eq] at hadm
    obtain ⟨hpr, hpty, hlt⟩ := hadm
    refine ⟨t, ht, _, hl, htas, ?_⟩
    rw [href, hty, hpr, hpty]
    exact Nat.lt_of_lt_of_le (hlt n hn) hle

theorem Inv.commit {limit : String → TaskType → Nat} {w} (h : Inv limit w) {call skip}
    (hsp : Spare limit w (.commit call skip)) : Inv limit (w.commit call skip) := by
  simp only [World.commit]
  split
  next => exact h
  next s hfi =>
    have hsi := h.statements s (mem_of_find?_eq_some hfi)
    split
    next => exact ⟨h.rows, h.fresh, h.leased, fun r hr => h.statements r (mem_filter.mp hr).1, h.bound⟩
    next leased tasks hres =>
      have hrm := hsp s hfi _ hres
      obtain ⟨t, ht, duration, rfl, rfl, hlt⟩ := Statement.result_some h.rows hsi hres
      have hle := activeCount_update_le h.rows ht s.now duration
      have hmem : ∀ r, r ∈ update (fun r => r.id = t.id) (fun r => r.lease s.now duration) w.db.tasks ↔
          r = t.lease s.now duration ∨ (r ∈ w.db.tasks ∧ r.id ≠ t.id) := fun r => mem_update_key h.rows ht
      refine ⟨?_, ?_, ?_, ?_, ?_⟩
      · have hid : ∀ r : Task, (r.lease s.now duration).id = r.id := fun _ => rfl
        simp only []
        rw [map_update fun r _ => hid r]
        exact h.rows
      · intro r hr
        rcases (hmem r).mp hr with rfl | ⟨hr, -⟩
        · exact h.fresh t ht
        · exact h.fresh r hr
      · intro r hr
        rcases (hmem r).mp hr with rfl | ⟨hr, -⟩
        · exact fun _ => by simp [Task.held, Task.lease]
        · exact h.leased r hr
      · intro r' hr'
        obtain ⟨r, hr, rfl⟩ := mem_map.mp hr'
        obtain ⟨hco, hkn, hsa, hcn⟩ := h.statements r (mem_filter.mp hr).1
        refine ⟨hco, hkn, ?_, ?_⟩
        · intro x hx y hy hid
          rcases (hmem y).mp hy with rfl | ⟨hy, -⟩
          · exact hsa x hx t ht hid
          · exact hsa x hx y hy hid
        · grind [Task.lease]
      · intro ref type
        have hone := hle ref type w.db.clock
        have hold := h.bound ref type
        have hnow := hsi.count t.projectRef t.taskType
        by_cases hk : t.projectRef = ref ∧ t.taskType = type
        · obtain ⟨rfl, rfl⟩ := hk
          simp only [and_self, if_true] at hone
          -- 写しの後に済んだ受け持ちがなければ文の検査が、あれば条件が、空きを請け合う。
          by_cases hmi : 0 < s.missed.count (t.projectRef, t.taskType)
          · have hfr := hrm hmi
            simp only [Task.lease] at hfr
            exact hone.trans (by omega)
          · exact hone.trans (by omega)
        · rw [if_neg hk] at hone
          exact hone.trans hold

theorem step_inv (h : Inv limit w) (e) (hco : Configured limit w e) (hsp : Spare limit w e) : Inv limit (step w e) := by
  by_cases hb : ∃ claim, e = .begin claim
  · obtain ⟨claim, rfl⟩ := hb
    exact h.begin hco
  · by_cases hc : ∃ call skip, e = .commit call skip
    · obtain ⟨call, skip, rfl⟩ := hc
      exact h.commit hsp
    · obtain ⟨hq, hst⟩ := step_quiet h.rows (fun claim he => hb ⟨claim, he⟩) fun call skip he => hc ⟨call, skip, he⟩
      exact hq.inv hst h

end Supacloud.Tasks.Concurrency
