import Supacloud.Approval.Lemmas.Outbox

/-!
# 承認の性質
-/

namespace Supacloud.Approval

/-! ## 結果の送り箱 -/

structure OutboxSound (log : List Entry) (db : Db) : Prop where
  /-- 終わった根の承認には結果の行が一つだけあり、ほかの承認にはない。 -/
  rows : ∀ r ∈ db.runs, db.outcomes.countP (fun o => o.runId = r.id) =
    if r.status ≠ .pending ∧ r.graphParentId = none then 1 else 0
  runs : ∀ o ∈ db.outcomes, ∃ r ∈ db.runs, r.tenant = o.tenant ∧ r.id = o.runId
  lease : ∀ l, HoldsLease log db l → ∃ o ∈ db.outcomes, o.runId = l.payload.runId ∧ o.leaseToken = some l.leaseToken ∧
    o.leaseUntil = some l.leaseUntil
  single : ∀ l₁ l₂, HoldsLease log db l₁ → HoldsLease log db l₂ → l₁.payload.runId = l₂.payload.runId → l₁.leaseToken = l₂.leaseToken
  acknowledged : ∀ x ∈ log, ∀ o ∈ x.before.outcomes, o.acknowledgedAt ≠ none →
    o ∈ db.outcomes ∧ ∀ l, x.lease = some l → l.payload.runId ≠ o.runId
  holder : ∀ x ∈ log, ∀ o' ∈ x.after.outcomes, o'.acknowledgedAt ≠ none →
    (∀ o ∈ x.before.outcomes, o.runId = o'.runId → o.acknowledgedAt = none) →
    ∃ o ∈ x.before.outcomes, o.runId = o'.runId ∧ ∃ token deadline, x.event = .ackOutcome o.tenant o.runId token ∧
      o.leaseToken = some token ∧ o.leaseUntil = some deadline ∧ x.before.clock < deadline
  attempts : ∀ o ∈ db.outcomes, o.attempts ≤ 10
  exhausted : ∀ newer x older, log = newer ++ x :: older → ∀ o ∈ x.before.outcomes, 10 ≤ o.attempts →
    (∀ y ∈ newer ++ [x], ∀ reason, y.event ≠ .requeueOutcome o.tenant o.runId reason) →
    ∀ y ∈ newer ++ [x], ∀ l, y.lease = some l → l.payload.runId ≠ o.runId

theorem OutcomeInv.countP_row {db} (hi : OutcomeInv db) (hb : Base db) {r} (hr : r ∈ db.runs) :
    db.outcomes.countP (fun o => o.runId = r.id) = if r.status ≠ .pending ∧ r.graphParentId = none then 1 else 0 := by
  have hco : db.outcomes.countP (fun o => o.runId = r.id) = (db.outcomes.map Outcome.runId).count r.id := by
    rw [List.count, List.countP_map]
    rfl
  rw [hco]
  split
  · rename_i he
    obtain ⟨o, ho, hid⟩ := hi.row r hr he
    exact List.count_eq_one_of_mem hi.nodup (hid ▸ List.mem_map_of_mem ho)
  · rename_i he
    rw [List.count_eq_zero]
    intro hmem
    obtain ⟨o, ho, hid⟩ := List.mem_map.mp hmem
    obtain ⟨x, hx, hxid, -, hxe⟩ := hi.run o ho
    rw [hb.eq_of_id hx hr (hxid.trans hid)] at hxe
    exact he hxe

/-- どんな順で終わり、借り、答え、期限が来ても、送り箱の約束は守られる。 -/
theorem outbox_sound {log : List Entry} {db : Db} (h : Trace log db) : OutboxSound log db where
  rows := fun _ hr => h.outcomeInv.countP_row h.base hr
  runs := by
    intro o ho
    obtain ⟨r, hr, hid, hten, -⟩ := h.outcomeInv.run o ho
    exact ⟨r, hr, hten, hid⟩
  lease := fun _ hl => h.held hl
  single := by
    intro l₁ l₂ h₁ h₂ hid
    obtain ⟨o₁, ho₁, hid₁, hto₁, -⟩ := h.held h₁
    obtain ⟨o₂, ho₂, hid₂, hto₂, -⟩ := h.held h₂
    have he : o₁ = o₂ := Library.eq_of_key h.outcomeInv.nodup ho₁ ho₂ (hid₁.trans (hid.trans hid₂.symm))
    rw [he, hto₂, Option.some.injEq] at hto₁
    exact hto₁.symm
  acknowledged := by
    intro x hx o ho hack
    refine ⟨h.acknowledged hx ho hack, ?_⟩
    revert o
    refine h.entries (P := fun x => ∀ o ∈ x.before.outcomes, o.acknowledgedAt ≠ none →
      ∀ l, x.lease = some l → l.payload.runId ≠ o.runId) ?_ x hx
    intro log db e ht o ho hack l hl hid
    obtain ⟨old, hold, -, -, hrun, -, -, -, hun, -⟩ := (commit_rows ht.base ht.outcomeInv e).lease_row ht.outcomeInv hl
    rw [Library.eq_of_key ht.outcomeInv.nodup hold ho (hrun.trans hid)] at hun
    exact hack hun
  holder := by
    refine h.entries ?_
    intro log db e ht o' ho' hack hnew
    exact (commit_rows ht.base ht.outcomeInv e).acknowledges ht.outcomeInv ho' hack hnew
  attempts := fun o ho => (h.outcomeInv.shape o ho).attempts
  exhausted := fun _ _ _ hlog _ ho ht hne => (h.exhausted hlog ho ht hne).1

/-! ### 例 -/

def play : List Event → List Entry × Db
  | [] => ([], Db.empty 0 0)
  | e :: earlier => (Entry.of (play earlier).2 e :: (play earlier).1, (commit (play earlier).2 e).1)

theorem trace_play (es) : Trace (play es).1 (play es).2 := by
  induction es with
  | nil => exact .empty 0 0
  | cons e es ih => exact ih.commit e

def demoEnv : Env where
  resolveAssignment := fun _ _ _ => some ⟨["reviewer"], "1"⟩
  resolveSubject := fun _ _ _ => some ⟨"1", String.ofList (List.replicate 64 'd')⟩
  resolveGraphFacts := fun _ _ _ => some [("risk", .string "high")]
  authorizeTaskChange := fun _ _ _ _ _ => false
  authorizeMigration := fun _ _ _ _ => false
  engineStatus := fun _ => .running
  locked := fun _ => false

def singleStep : Definition :=
  .stepped 1 none [⟨"review", .all, some ["reviewer"], none, 300, none⟩]

def deliveredEvents : List Event :=
  [.ackOutcome "t" 0 4, .claimOutcome demoEnv "t" 30, .cancel "t" "maker" 1002 0 1,
   .start demoEnv "t" "maker" 1001 "leave" 1 "e" none, .publish "t" "admin" 1000 "leave" 1 singleStep]

theorem outbox_sound_delivered : OutboxSound (play deliveredEvents).1 (play deliveredEvents).2 ∧
    (play deliveredEvents).2.outcomes.map (fun o => (o.runId, o.attempts, o.leaseToken, o.acknowledgedAt)) = [(0, 1, some 4, some 0)] :=
  ⟨outbox_sound (trace_play deliveredEvents), by decide⟩

theorem outcomes_decided_once {log : List Entry} {db : Db} (h : Trace log db) :
    (∀ x ∈ log, ∀ l ∈ x.lease, ∃ r ∈ db.runs, r.id = l.payload.runId ∧ r.ended) ∧
      ∀ x ∈ log, ∀ l ∈ x.lease, ∀ y ∈ log, ∀ l' ∈ y.lease, l'.payload.runId = l.payload.runId → l'.payload = l.payload := by
  have hrow (o) (ho : o ∈ db.outcomes) : o.payload.runId = o.runId := (h.outcomeInv.shape o ho).payload
  constructor
  · intro x hx l hl
    obtain ⟨o, ho, hpa⟩ := h.payload x hx l hl
    obtain ⟨r, hr, hid, -, hen⟩ := h.outcomeInv.run o ho
    exact ⟨r, hr, hpa ▸ hid.trans (hrow o ho).symm, hen⟩
  · intro x hx l hl y hy l' hl' hid
    obtain ⟨o, ho, hpa⟩ := h.payload x hx l hl
    obtain ⟨o', ho', hpa'⟩ := h.payload y hy l' hl'
    rw [← hpa, ← hpa', hrow o ho, hrow o' ho'] at hid
    rw [← hpa, ← hpa', Library.eq_of_key h.outcomeInv.nodup ho' ho hid]

/-- 一度目の貸し出しは期限が切れ、二度目で受け取られる。 -/
def redeliveredEvents : List Event :=
  .ackOutcome "t" 0 5 :: .claimOutcome demoEnv "t" 30 :: .tick (seconds 31) :: deliveredEvents.tail

theorem outcomes_decided_once_delivered : let p := play redeliveredEvents
    (∀ x ∈ p.1, ∀ l ∈ x.lease, ∃ r ∈ p.2.runs, r.id = l.payload.runId ∧ r.ended) ∧
      (∀ x ∈ p.1, ∀ l ∈ x.lease, ∀ y ∈ p.1, ∀ l' ∈ y.lease, l'.payload = l.payload) ∧
      p.1.filterMap (fun x => x.lease.map (·.attempt)) = [2, 1] ∧ p.2.outcomes.map (·.acknowledgedAt.isSome) = [true] := by
  have hid : ∀ x ∈ (play redeliveredEvents).1, ∀ l ∈ x.lease, l.payload.runId = 0 := by decide
  obtain ⟨hen, hpa⟩ := outcomes_decided_once (trace_play redeliveredEvents)
  exact ⟨hen, fun x hx l hl y hy l' hl' => hpa x hx l hl y hy l' hl' ((hid y hy l' hl').trans (hid x hx l hl).symm), by decide⟩

end Supacloud.Approval
