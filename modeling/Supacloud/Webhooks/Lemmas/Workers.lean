import Supacloud.Webhooks.Workers

/-! # 一歩が及ぼすこと -/

namespace Supacloud.Webhooks

open Library OutboxRow World Flight

structure OutboxRow.Fresh (o : OutboxRow) : Prop where
  status : o.status = .pending
  attemptCount : o.attemptCount = 0
  maxAttempts : o.maxAttempts = defaultMaxAttempts

structure Enqueued (db db' : Db) (news : List OutboxRow) : Prop where
  outbox : db'.outbox = db.outbox ++ news
  deliveries : db'.deliveries = db.deliveries
  uuid : db.uuid ≤ db'.uuid
  fresh : ∀ o ∈ news, o.Fresh ∧ db.uuid ≤ o.id ∧ o.id < db'.uuid
  nodup : (news.map OutboxRow.id).Nodup

variable {stage : Stage} {skip : List Uuid} {call : Nat} {rows : List OutboxRow} {f : Flight} {db db' : Db}

theorem Enqueued.quiet (ho : db'.outbox = db.outbox) (hd : db'.deliveries = db.deliveries) (hu : db.uuid ≤ db'.uuid) : Enqueued db db' [] where
  outbox := by rw [ho, List.append_nil]
  deliveries := hd
  uuid := hu
  fresh := by simp
  nodup := by simp

theorem Enqueued.trans {a b c l l'} (h : Enqueued a b l) (h' : Enqueued b c l') : Enqueued a c (l ++ l') where
  outbox := by rw [h'.outbox, h.outbox, List.append_assoc]
  deliveries := h'.deliveries.trans h.deliveries
  uuid := h.uuid.trans h'.uuid
  fresh := by
    intro o ho
    rcases List.mem_append.mp ho with ho | ho
    · obtain ⟨hf, hl, hr⟩ := h.fresh o ho
      exact ⟨hf, hl, Nat.lt_of_lt_of_le hr h'.uuid⟩
    · obtain ⟨hf, hl, hr⟩ := h'.fresh o ho
      exact ⟨hf, h.uuid.trans hl, hr⟩
  nodup := by
    rw [List.map_append]
    refine List.nodup_append.mpr ⟨h.nodup, h'.nodup, ?_⟩
    intro a ha b hb heq
    obtain ⟨o, ho, rfl⟩ := List.mem_map.mp ha
    obtain ⟨o', ho', rfl⟩ := List.mem_map.mp hb
    exact absurd heq (Nat.ne_of_lt (Nat.lt_of_lt_of_le (h.fresh o ho).2.2 (h'.fresh o' ho').2.1))

theorem insertOutbox_enqueued (db projectRef webhookId item) : ∃ news, Enqueued db (insertOutbox db projectRef webhookId item) news := by
  refine ⟨_, rfl, rfl, Nat.le_succ _, ?_, by simp⟩
  intro o ho
  rw [List.mem_singleton] at ho
  subst ho
  exact ⟨⟨rfl, rfl, rfl⟩, Nat.le_refl _, Nat.lt_succ_self _⟩

variable {webhookId : Uuid} {projectRef : String}

theorem enqueueEvent_enqueued {item} (h : enqueueEvent db projectRef item = .ok db') : ∃ news, Enqueued db db' news := by
  simp only [enqueueEvent, bind_eq_ok, pure_eq_ok] at h
  obtain ⟨-, -, -, -, rfl⟩ := h
  generalize newSubscriptions db projectRef item = subscriptions
  induction subscriptions generalizing db with
  | nil => exact ⟨[], .quiet rfl rfl (Nat.le_refl _)⟩
  | cons w rest ih =>
    obtain ⟨l, hl⟩ := insertOutbox_enqueued db projectRef w.id item
    obtain ⟨l', hl'⟩ := @ih (insertOutbox db projectRef w.id item)
    exact ⟨l ++ l', hl.trans hl'⟩

theorem enqueueOne_enqueued {item} (h : enqueueOne db projectRef webhookId item = .ok db') : ∃ news, Enqueued db db' news := by
  simp only [enqueueOne, bind_eq_ok, pure_eq_ok] at h
  obtain ⟨-, -, -, -, rfl⟩ := h
  exact insertOutbox_enqueued db projectRef webhookId item

theorem enqueueTest_enqueued {nonce} (h : enqueueTest db projectRef webhookId nonce = .ok db') : ∃ news, Enqueued db db' news := by
  simp only [enqueueTest, bind_eq_ok] at h
  obtain ⟨-, -, h⟩ := h
  obtain ⟨news, hn⟩ := enqueueOne_enqueued h
  have hq : Enqueued db { db with uuid := db.uuid + 1 } [] := .quiet rfl rfl (Nat.le_succ _)
  exact ⟨[] ++ news, hq.trans hn⟩

theorem replayDelivery_enqueued {deliveryId nonce}
    (h : replayDelivery db projectRef webhookId deliveryId nonce = .ok db') : ∃ news, Enqueued db db' news := by
  simp only [replayDelivery, bind_eq_ok] at h
  obtain ⟨_, -, _, -, _, -, h⟩ := h
  exact enqueueOne_enqueued h

theorem createWebhook_enqueued {url events enabled}
    (h : createWebhook db projectRef url events enabled = .ok db') : Enqueued db db' [] := by
  simp only [createWebhook, bind_eq_ok, pure_eq_ok] at h
  obtain ⟨-, -, rfl⟩ := h
  exact .quiet rfl rfl (Nat.le_succ _)

theorem updateWebhook_enqueued {url events enabled}
    (h : updateWebhook db projectRef webhookId url events enabled = .ok db') : Enqueued db db' [] := by
  simp only [updateWebhook, bind_eq_ok, pure_eq_ok] at h
  obtain ⟨-, -, rfl⟩ := h
  exact .quiet rfl rfl (Nat.le_refl _)

theorem rotateSecret_enqueued (h : rotateSecret db projectRef webhookId = .ok db') : Enqueued db db' [] := by
  simp only [rotateSecret, bind_eq_ok, pure_eq_ok] at h
  obtain ⟨-, -, rfl⟩ := h
  exact .quiet rfl rfl (Nat.le_refl _)

def OutboxRow.dropped (o : OutboxRow) : OutboxRow :=
  { o with
    status := .cancelled
    lockedAt := none
    lastError := some "Webhook was soft-deleted before delivery" }

theorem deleteWebhook_cancels (h : deleteWebhook db projectRef webhookId = .ok db') :
    db'.outbox = update (fun o => o.projectRef = projectRef ∧ o.webhookId = webhookId ∧ o.status.unfinished)
      dropped db.outbox ∧ db'.deliveries = db.deliveries ∧ db'.uuid = db.uuid := by
  simp only [deleteWebhook, bind_eq_ok, pure_eq_ok] at h
  obtain ⟨-, -, rfl⟩ := h
  exact ⟨rfl, rfl, rfl⟩

/-! ## 受け持ちと記録 -/

theorem nextDelivery_mem {o} (h : nextDelivery db skip = some o) : o ∈ db.outbox ∧ o.due db.now = true := by
  have hm := List.mem_of_mem_head? h
  rw [List.mem_insertionSort, List.mem_filter] at hm
  have hd := of_decide_eq_true hm.2
  exact ⟨hm.1, hd.1⟩

structure Claims (db : Db) (skip : List Uuid) (o : OutboxRow) (claimed : ClaimedDelivery) (db' : Db) : Prop where
  next : nextDelivery db skip = some o
  outboxId : claimed.outboxId = o.id
  attemptCount : claimed.attemptCount = o.attemptCount + 1
  maxAttempts : claimed.maxAttempts = o.maxAttempts
  outbox : db'.outbox = update (fun r => r.id = o.id) (fun r => r.claimed db.now) db.outbox
  deliveries : db'.deliveries = db.deliveries
  uuid : db'.uuid = db.uuid

theorem claimNextDelivery_claims {claimed} (h : claimNextDelivery db skip = some (claimed, db')) : ∃ o, Claims db skip o claimed db' := by
  simp only [claimNextDelivery, Option.bind_eq_bind, Option.bind_eq_some_iff, Option.pure_def, Option.some.injEq, Prod.mk.injEq] at h
  obtain ⟨o, ho, webhook, -, rfl, rfl⟩ := h
  exact ⟨o, ho, rfl, rfl, rfl, rfl, rfl, rfl⟩

structure Persists (db : Db) (claimed : ClaimedDelivery) (attempt : DeliveryAttempt) (db' : Db) : Prop where
  outbox : db'.outbox = update (fun o => o.id = claimed.outboxId) (fun o => o.settled db.now claimed attempt) db.outbox
  deliveries : ∃ d, d.outboxId = claimed.outboxId ∧ d.attempt = claimed.attemptCount ∧ db'.deliveries = d :: db.deliveries
  uuid : db'.uuid = db.uuid

theorem persistDeliveryAttempt_persists {claimed} (deliveryId attempt)
    (h : ∀ d ∈ db.deliveries, ¬ (d.outboxId = claimed.outboxId ∧ d.attempt = claimed.attemptCount)) :
    ∃ db', persistDeliveryAttempt db claimed deliveryId attempt = .ok db' ∧ Persists db claimed attempt db' := by
  have hnew : ¬ db.deliveries.any (fun d => d.outboxId = claimed.outboxId ∧ d.attempt = claimed.attemptCount) = true := by
    simpa using h
  simp only [persistDeliveryAttempt, bind_eq_ok, pure_eq_ok, require_eq_ok]
  exact ⟨_, ⟨(), hnew, rfl⟩, rfl, ⟨_, rfl, rfl, rfl⟩, rfl⟩

/-! ## 状態の変化 -/

section

variable (o : OutboxRow)

include o

@[simp] theorem OutboxRow.claimed_id (now) : (o.claimed now).id = o.id := rfl

@[simp] theorem OutboxRow.claimed_status (now) : (o.claimed now).status = .delivering := rfl

@[simp] theorem OutboxRow.claimed_attemptCount (now) : (o.claimed now).attemptCount = o.attemptCount + 1 := rfl

@[simp] theorem OutboxRow.dropped_id : o.dropped.id = o.id := rfl

@[simp] theorem OutboxRow.dropped_status : o.dropped.status = .cancelled := rfl

end

section Settled

variable (o : OutboxRow) (now : Timestamp) (claimed : ClaimedDelivery) (attempt : DeliveryAttempt)

@[simp] theorem OutboxRow.settled_id : (o.settled now claimed attempt).id = o.id := rfl

@[simp] theorem OutboxRow.settled_status : (o.settled now claimed attempt).status = (attemptStatuses claimed attempt).2 := rfl

end Settled

theorem attemptStatuses_cases (claimed attempt) :
    (attemptStatuses claimed attempt).2 = .delivered ∨ (attemptStatuses claimed attempt).2 = .deadLettered ∨
      (attemptStatuses claimed attempt).2 = .retryScheduled ∧ claimed.attemptCount < claimed.maxAttempts := by
  cases hok : attempt.ok
  · grind [attemptStatuses, exhausted]
  · simp [attemptStatuses, hok]

theorem OutboxRow.due_status {o : OutboxRow} {now} (h : o.due now = true) :
    o.status = .pending ∨ o.status = .retryScheduled ∨ o.status = .delivering := by
  cases hs : o.status <;> simp [due, hs] at h ⊢

/-! ## 走行の不変条件 -/

def Flight.key (f : Flight) : Uuid × Nat := (f.claimed.outboxId, f.claimed.attemptCount)

def World.requestCount (w : World) (id : Uuid) : Nat := w.requests.countP fun r => r.outboxId = id

def Flight.waitingFor (id : Uuid) (f : Flight) : Bool := f.claimed.outboxId = id ∧ f.stage = .claimed

structure Base (w : World) : Prop where
  rows : (w.db.outbox.map OutboxRow.id).Nodup
  fresh : ∀ o ∈ w.db.outbox, o.id < w.db.uuid
  pending : ∀ o ∈ w.db.outbox, o.status = .pending → o.attemptCount = 0
  limit : ∀ o ∈ w.db.outbox, o.maxAttempts = defaultMaxAttempts
  calls : (w.flights.map Flight.call).Nodup
  nextCall : ∀ f ∈ w.flights, f.call < w.nextCall
  owner : ∀ f ∈ w.flights, ∃ o ∈ w.db.outbox, o.id = f.claimed.outboxId ∧ f.claimed.attemptCount ≤ o.attemptCount ∧
    f.claimed.maxAttempts = o.maxAttempts
  keys : (w.flights.map Flight.key).Nodup
  recorded : ∀ d ∈ w.db.deliveries, (∃ o ∈ w.db.outbox, o.id = d.outboxId ∧ d.attempt ≤ o.attemptCount) ∧
    ∀ f ∈ w.flights, f.key ≠ (d.outboxId, d.attempt)
  known : ∀ r ∈ w.requests, r.outboxId < w.db.uuid
  requests : ∀ o ∈ w.db.outbox, w.requestCount o.id + w.flights.countP (Flight.waitingFor o.id) ≤ o.attemptCount

theorem base_empty (now) : Base (empty now) := by
  constructor <;> simp [empty]

variable {w : World}

theorem flight_mem (h : w.flight call = some f) : f ∈ w.flights ∧ f.call = call := by
  have hc := List.find?_some h
  simp only [decide_eq_true_eq] at hc
  exact ⟨List.mem_of_find?_eq_some h, hc⟩

theorem Base.flight_eq (h : Base w) {g} (hf : w.flight f.call = some f) (hg : g ∈ w.flights) (hc : g.call = f.call) : g = f :=
  eq_of_key h.calls hg (flight_mem hf).1 hc

theorem Base.row_eq (h : Base w) {o o'} (ho : o ∈ w.db.outbox) (ho' : o' ∈ w.db.outbox) (hid : o.id = o'.id) : o = o' :=
  eq_of_key h.rows ho ho' hid

/-! ## 一歩 -/

def Event.abandons (f : Flight) : Event → Prop
  | .bodyFailed call => call = f.call ∧ f.stage = .requested
  | .persistFailed call => call = f.call ∧ ∃ attempt, f.stage = .attempted attempt
  | .crash call => call = f.call
  | _ => False

abbrev World.carry (w : World) (claimed : ClaimedDelivery) (db' : Db) : World :=
  { w with
    db := { db' with uuid := db'.uuid + 1 }
    flights := { call := w.nextCall, claimed, deliveryId := db'.uuid, stage := .claimed } :: w.flights
    nextCall := w.nextCall + 1 }

inductive Effect (w : World) : Event → World → Prop where
  | enqueue {e db' news} : Enqueued w.db db' news → Effect w e { w with db := db' }
  | cancel {projectRef : String} {webhookId db'} :
      db'.outbox = update (fun o => o.projectRef = projectRef ∧ o.webhookId = webhookId ∧ o.status.unfinished)
        OutboxRow.dropped w.db.outbox →
      db'.deliveries = w.db.deliveries → db'.uuid = w.db.uuid →
      Effect w (.deleteWebhook projectRef webhookId) { w with db := db' }
  | claim {skip : List Uuid} {o} {claimed : ClaimedDelivery} {db' : Db} : Claims w.db skip o claimed db' →
      Effect w (.claim skip) { w with
        db := { db' with uuid := db'.uuid + 1 }
        flights := { call := w.nextCall, claimed, deliveryId := db'.uuid, stage := .claimed } :: w.flights
        nextCall := w.nextCall + 1 }
  | proceed {e : Event} {f : Flight} {stage : Stage} : w.flight f.call = some f → stage ≠ .claimed → Effect w e (w.setStage f.call stage)
  | request {f : Flight} : w.flight f.call = some f → f.stage = .claimed → Effect w (.request f.call) { w.setStage f.call .requested with
        requests := { outboxId := f.claimed.outboxId, attempt := f.claimed.attemptCount, deliveryId := f.deliveryId } ::
          w.requests }
  | abandon {e : Event} {f : Flight} : w.flight f.call = some f → e.abandons f → Effect w e (w.drop f.call)
  | persist {f : Flight} {attempt db'} : w.flight f.call = some f → f.stage = .attempted attempt →
      Persists w.db f.claimed attempt db' → Effect w (.persist f.call) (World.drop { w with db := db' } f.call)

theorem Effect.stay (w e) : Effect w e w :=
  .enqueue (.quiet rfl rfl (Nat.le_refl _))

theorem Effect.transact {w e x} (h : ∀ db', x = .ok db' → Effect w e { w with db := db' }) : Effect w e (w.transact x) := by
  cases x with
  | ok db' => exact h db' rfl
  | error _ => exact .stay w e

theorem drop_of_flight_none (h : w.flight call = none) : w.drop call = w := by
  have hke : w.flights.filter (fun f => decide (f.call ≠ call)) = w.flights := by
    rw [List.filter_eq_self]
    intro f hf
    have := List.find?_eq_none.mp h f hf
    simpa using this
  rw [drop, hke]

theorem request_effect (w call) : Effect w (.request call) (w.request call) := by
  simp only [request]
  split
  next _ claimed deliveryId hf =>
    obtain ⟨-, rfl⟩ := flight_mem hf
    split
    · exact .request hf rfl
    · exact .stay w _
  next => exact .stay w _

theorem refuse_effect (w call refusal) : Effect w (.refuse call refusal) (w.refuse call refusal) := by
  simp only [refuse]
  split
  next _ claimed _ hf =>
    obtain ⟨-, rfl⟩ := flight_mem hf
    split
    · exact .stay w _
    · exact .proceed hf (by simp)
  next => exact .stay w _

theorem fetchFailed_effect (w call message) : Effect w (.fetchFailed call message) (w.fetchFailed call message) := by
  simp only [fetchFailed]
  split
  next _ claimed _ hf =>
    obtain ⟨-, rfl⟩ := flight_mem hf
    exact .proceed hf (by simp)
  next => exact .stay w _

theorem respond_effect (w call status) : Effect w (.respond call status) (w.respond call status) := by
  simp only [respond]
  split
  next _ claimed _ hf =>
    obtain ⟨-, rfl⟩ := flight_mem hf
    exact .proceed hf (by simp)
  next => exact .stay w _

theorem bodyFailed_effect (w call) : Effect w (.bodyFailed call) (w.bodyFailed call) := by
  simp only [bodyFailed]
  split
  next hf =>
    obtain ⟨-, rfl⟩ := flight_mem hf
    exact .abandon hf ⟨rfl, rfl⟩
  next => exact .stay w _

theorem persistFailed_effect (w call) : Effect w (.persistFailed call) (w.persistFailed call) := by
  simp only [persistFailed]
  split
  next attempt hf =>
    obtain ⟨-, rfl⟩ := flight_mem hf
    exact .abandon hf ⟨rfl, attempt, rfl⟩
  next => exact .stay w _

theorem persist_effect (hb : Base w) (call) : Effect w (.persist call) (w.persist call) := by
  simp only [persist]
  split
  next _ claimed deliveryId attempt hf =>
    obtain ⟨hmem, rfl⟩ := flight_mem hf
    -- 同じ行と回数の記録は、まだない。
    have hnew : ∀ d ∈ w.db.deliveries, ¬ (d.outboxId = claimed.outboxId ∧ d.attempt = claimed.attemptCount) := by
      rintro d hd ⟨hid, hat⟩
      exact (hb.recorded d hd).2 _ hmem (by simp [key, hid, hat])
    obtain ⟨db', hok, hp⟩ := persistDeliveryAttempt_persists deliveryId attempt hnew
    simp only [hok, transact]
    exact .persist hf rfl hp
  next => exact .stay w _

theorem claim_effect (w skip) : Effect w (.claim skip) (w.claim skip) := by
  cases hc : claimNextDelivery w.db skip with
  | none => simpa [claim, hc] using Effect.stay w _
  | some r =>
    obtain ⟨o, ho⟩ := claimNextDelivery_claims hc
    simp only [claim, hc]
    exact .claim ho

theorem step_effect (hb : Base w) (e) : Effect w e (step w e) := by
  cases e with
  | tick elapsed => exact .enqueue (.quiet rfl rfl (Nat.le_refl _))
  | createWebhook projectRef url events enabled =>
    exact .transact fun _ h => .enqueue (createWebhook_enqueued h)
  | updateWebhook projectRef webhookId url events enabled =>
    exact .transact fun _ h => .enqueue (updateWebhook_enqueued h)
  | rotateSecret projectRef webhookId => exact .transact fun _ h => .enqueue (rotateSecret_enqueued h)
  | deleteWebhook projectRef webhookId =>
    apply Effect.transact
    intro db' h
    obtain ⟨ho, hd, hu⟩ := deleteWebhook_cancels h
    exact .cancel ho hd hu
  | enqueueEvent projectRef item => exact .transact fun _ h => .enqueue (enqueueEvent_enqueued h).choose_spec
  | enqueueTest projectRef webhookId nonce => exact .transact fun _ h => .enqueue (enqueueTest_enqueued h).choose_spec
  | replayDelivery projectRef webhookId deliveryId nonce =>
    exact .transact fun _ h => .enqueue (replayDelivery_enqueued h).choose_spec
  | claim skip => exact claim_effect w skip
  | refuse call refusal => exact refuse_effect w call refusal
  | request call => exact request_effect w call
  | fetchFailed call message => exact fetchFailed_effect w call message
  | respond call status => exact respond_effect w call status
  | bodyFailed call => exact bodyFailed_effect w call
  | persist call => exact persist_effect hb call
  | persistFailed call => exact persistFailed_effect w call
  | crash call =>
    cases hf : w.flight call with
    | none =>
      simp only [step, drop_of_flight_none hf]
      exact .stay w _
    | some f =>
      obtain ⟨-, rfl⟩ := flight_mem hf
      exact .abandon hf rfl

/-! ## 不変条件の保存 -/

def Grown (rows rows' : List OutboxRow) : Prop :=
  ∀ o ∈ rows, ∃ o' ∈ rows', o'.id = o.id ∧ o.attemptCount ≤ o'.attemptCount ∧ o'.maxAttempts = o.maxAttempts

theorem grown_append (rows news) : Grown rows (rows ++ news) :=
  fun o ho => ⟨o, List.mem_append_left _ ho, rfl, Nat.le_refl _, rfl⟩

theorem grown_update {p f} (h : ∀ o, (f o).id = o.id ∧ o.attemptCount ≤ (f o).attemptCount ∧ (f o).maxAttempts = o.maxAttempts) :
    Grown rows (update p f rows) := by
  intro o ho
  refine ⟨_, mem_update.mpr ⟨o, ho, rfl⟩, ?_⟩
  split
  · exact h o
  · exact ⟨rfl, Nat.le_refl _, rfl⟩

theorem Base.owner_grown (h : Base w) (hg : Grown w.db.outbox rows) (hf : f ∈ w.flights) : ∃ o ∈ rows, o.id = f.claimed.outboxId ∧ f.claimed.attemptCount ≤ o.attemptCount ∧
      f.claimed.maxAttempts = o.maxAttempts := by
  obtain ⟨o, ho, hid, hat, hmax⟩ := h.owner f hf
  obtain ⟨o', ho', hid', hat', hma'⟩ := hg o ho
  exact ⟨o', ho', hid'.trans hid, hat.trans hat', hmax.trans hma'.symm⟩

theorem Base.recorded_grown (h : Base w) (hg : Grown w.db.outbox rows) {d} (hd : d ∈ w.db.deliveries) : ∃ o ∈ rows, o.id = d.outboxId ∧ d.attempt ≤ o.attemptCount := by
  obtain ⟨o, ho, hid, hat⟩ := (h.recorded d hd).1
  obtain ⟨o', ho', hid', hat', -⟩ := hg o ho
  exact ⟨o', ho', hid'.trans hid, hat.trans hat'⟩

theorem Base.flight_known (h : Base w) (hf : f ∈ w.flights) : f.claimed.outboxId < w.db.uuid := by
  obtain ⟨o, ho, hid, -⟩ := h.owner f hf
  exact hid ▸ h.fresh o ho

theorem Base.untouched (h : Base w) {id} (hid : w.db.uuid ≤ id) : w.requestCount id + w.flights.countP (waitingFor id) = 0 := by
  have hr : w.requestCount id = 0 := by grind [→ h.known, requestCount]
  have hf : w.flights.countP (waitingFor id) = 0 := by grind [→ h.flight_known, waitingFor]
  rw [hr, hf]

theorem Base.enqueue (h : Base w) {news} (hn : Enqueued w.db db' news) : Base { w with db := db' } where
  rows := by
    rw [hn.outbox, List.map_append]
    refine List.nodup_append.mpr ⟨h.rows, hn.nodup, ?_⟩
    intro a ha b hb heq
    obtain ⟨o, ho, rfl⟩ := List.mem_map.mp ha
    obtain ⟨o', ho', rfl⟩ := List.mem_map.mp hb
    exact absurd heq (Nat.ne_of_lt (Nat.lt_of_lt_of_le (h.fresh o ho) (hn.fresh o' ho').2.1))
  fresh := by
    intro o ho
    simp only [hn.outbox, List.mem_append] at ho
    rcases ho with ho | ho
    · exact Nat.lt_of_lt_of_le (h.fresh o ho) hn.uuid
    · exact (hn.fresh o ho).2.2
  pending := by
    intro o ho hs
    simp only [hn.outbox, List.mem_append] at ho
    rcases ho with ho | ho
    · exact h.pending o ho hs
    · exact (hn.fresh o ho).1.attemptCount
  limit := by
    intro o ho
    simp only [hn.outbox, List.mem_append] at ho
    rcases ho with ho | ho
    · exact h.limit o ho
    · exact (hn.fresh o ho).1.maxAttempts
  calls := h.calls
  nextCall := h.nextCall
  owner := fun _ hf => h.owner_grown (hn.outbox ▸ grown_append _ _) hf
  keys := h.keys
  recorded := by
    intro d hd
    simp only [hn.deliveries] at hd
    exact ⟨h.recorded_grown (hn.outbox ▸ grown_append _ _) hd, (h.recorded d hd).2⟩
  known := fun r hr => Nat.lt_of_lt_of_le (h.known r hr) hn.uuid
  requests := by
    intro o ho
    simp only [hn.outbox, List.mem_append] at ho
    rcases ho with ho | ho
    · exact h.requests o ho
    · have hz := h.untouched (hn.fresh o ho).2.1
      exact (Nat.le_of_eq hz).trans (Nat.zero_le _)

theorem Base.rewrite {p} (h : Base w) {f} (ho : db'.outbox = update p f w.db.outbox)
    (hd : db'.deliveries = w.db.deliveries) (hu : db'.uuid = w.db.uuid)
    (hf : ∀ o, (f o).id = o.id ∧ (f o).attemptCount = o.attemptCount ∧ (f o).maxAttempts = o.maxAttempts ∧ (f o).status ≠ .pending) : Base { w with db := db' } := by
  have hba : ∀ o' ∈ db'.outbox, ∃ o ∈ w.db.outbox, o'.id = o.id ∧ o'.attemptCount = o.attemptCount ∧
      o'.maxAttempts = o.maxAttempts ∧ (o'.status = .pending → o.status = .pending) := by
    intro o' ho'
    rw [ho] at ho'
    obtain ⟨o, hmem, rfl⟩ := mem_update.mp ho'
    refine ⟨o, hmem, ?_⟩
    split
    · obtain ⟨h1, h2, h3, h4⟩ := hf o
      exact ⟨h1, h2, h3, fun hs => absurd hs h4⟩
    · exact ⟨rfl, rfl, rfl, id⟩
  have hg : Grown w.db.outbox db'.outbox := by
    rw [ho]
    exact grown_update fun o => ⟨(hf o).1, Nat.le_of_eq (hf o).2.1.symm, (hf o).2.2.1⟩
  refine ⟨?_, ?_, ?_, ?_, h.calls, h.nextCall, fun f hf => h.owner_grown hg hf, h.keys, ?_, ?_, ?_⟩
  · rw [ho, map_update fun o _ => (hf o).1]
    exact h.rows
  · intro o' ho'
    obtain ⟨o, hmem, hid, -⟩ := hba o' ho'
    rw [hid, hu]
    exact h.fresh o hmem
  · grind [h.pending]
  · intro o' ho'
    obtain ⟨o, hmem, -, -, hmax, -⟩ := hba o' ho'
    rw [hmax]
    exact h.limit o hmem
  · intro d hdm
    simp only [hd] at hdm
    exact ⟨h.recorded_grown hg hdm, (h.recorded d hdm).2⟩
  · intro r hr
    simp only [hu]
    exact h.known r hr
  · intro o' ho'
    obtain ⟨o, hmem, hid, hat, -⟩ := hba o' ho'
    rw [hid, hat]
    exact h.requests o hmem

theorem Base.claim (h : Base w) {o claimed} (hc : Claims w.db skip o claimed db') : Base (w.carry claimed db') := by
  have hmem := (nextDelivery_mem hc.next).1
  have hg : Grown w.db.outbox db'.outbox := by
    rw [hc.outbox]
    exact grown_update fun o => ⟨rfl, Nat.le_succ _, rfl⟩
  have hba : ∀ r' ∈ db'.outbox, ∃ r ∈ w.db.outbox, (r = o ∧ r' = r.claimed w.db.now) ∨ (r.id ≠ o.id ∧ r' = r) := by
    intro r' hr'
    rw [hc.outbox] at hr'
    obtain ⟨r, hr, rfl⟩ := mem_update.mp hr'
    refine ⟨r, hr, ?_⟩
    by_cases hid : r.id = o.id
    · exact .inl ⟨h.row_eq hr hmem hid, by simp [hid]⟩
    · exact .inr ⟨hid, by simp [hid]⟩
  have hnx : o.claimed w.db.now ∈ db'.outbox := by
    rw [hc.outbox]
    exact mem_update.mpr ⟨o, hmem, by simp⟩
  refine ⟨?_, ?_, ?_, ?_, ?_, ?_, ?_, ?_, ?_, ?_, ?_⟩
  · simp only [hc.outbox]
    rw [map_update fun r _ => r.claimed_id w.db.now]
    exact h.rows
  · intro r' hr'
    have hu : db'.uuid = w.db.uuid := hc.uuid
    obtain ⟨r, hr, ⟨-, rfl⟩ | ⟨-, rfl⟩⟩ := hba r' hr'
    · exact Nat.lt_succ_of_lt (hu ▸ h.fresh r hr)
    · exact Nat.lt_succ_of_lt (hu ▸ h.fresh _ hr)
  · intro r' hr' hs
    obtain ⟨r, hr, ⟨-, rfl⟩ | ⟨-, rfl⟩⟩ := hba r' hr'
    · simp at hs
    · exact h.pending _ hr hs
  · intro r' hr'
    obtain ⟨r, hr, ⟨-, rfl⟩ | ⟨-, rfl⟩⟩ := hba r' hr'
    · exact h.limit r hr
    · exact h.limit _ hr
  · simp only [List.map_cons, List.nodup_cons]
    refine ⟨?_, h.calls⟩
    intro hin
    obtain ⟨f, hf, hfc⟩ := List.mem_map.mp hin
    exact absurd hfc (Nat.ne_of_lt (h.nextCall f hf))
  · grind [→ h.nextCall]
  · intro f hf
    rcases List.mem_cons.mp hf with rfl | hf
    · exact ⟨_, hnx, hc.outboxId.symm, Nat.le_of_eq hc.attemptCount, hc.maxAttempts⟩
    · exact h.owner_grown hg hf
  · grind [h.keys, h.owner, h.row_eq, hc.outboxId, hc.attemptCount, key]
  · intro d hd
    simp only [hc.deliveries] at hd
    refine ⟨h.recorded_grown hg hd, ?_⟩
    intro f hf
    rcases List.mem_cons.mp hf with rfl | hf
    · grind [h.recorded, h.row_eq, hc.outboxId, hc.attemptCount, key]
    · exact (h.recorded d hd).2 f hf
  · intro r hr
    have hu : db'.uuid = w.db.uuid := hc.uuid
    exact Nat.lt_succ_of_lt (hu ▸ h.known r hr)
  · intro r' hr'
    have hco : ∀ id, (w.carry claimed db').requestCount id = w.requestCount id := fun _ => rfl
    obtain ⟨r, hr, ⟨rfl, rfl⟩ | ⟨hne, rfl⟩⟩ := hba r' hr'
    · have hle := h.requests r hr
      rw [List.countP_cons_of_pos (by simp [waitingFor, hc.outboxId])]
      rw [hco]
      simp only [claimed_id, claimed_attemptCount]
      omega
    · rw [List.countP_cons_of_neg (by simp [waitingFor, hc.outboxId, Ne.symm hne])]
      exact h.requests _ hr

theorem map_setStage {β : Type} {g : Flight → β} (w : World) (call stage)
    (h : ∀ f, g { f with stage } = g f) : (w.setStage call stage).flights.map g = w.flights.map g :=
  map_update fun f _ => h f

theorem mem_setStage (h : f ∈ (w.setStage call stage).flights) : ∃ g ∈ w.flights, f.call = g.call ∧ f.claimed = g.claimed := by
  obtain ⟨g, hg, rfl⟩ := mem_update.mp h
  refine ⟨g, hg, ?_⟩
  split <;> exact ⟨rfl, rfl⟩

theorem waiting_setStage_le (w : World) (call) (hs : stage ≠ .claimed) (id) :
    (w.setStage call stage).flights.countP (waitingFor id) ≤ w.flights.countP (waitingFor id) := by
  apply countP_update_le
  intro f _ _ hf
  simp [waitingFor, hs] at hf

theorem Base.setStage {w} (h : Base w) (call stage) {requests} (hkn : ∀ r ∈ requests, r.outboxId < w.db.uuid)
    (hco : ∀ o ∈ w.db.outbox, requests.countP (fun r => r.outboxId = o.id) +
      (w.setStage call stage).flights.countP (waitingFor o.id) ≤ o.attemptCount) :
    Base { w.setStage call stage with requests } where
  rows := h.rows
  fresh := h.fresh
  pending := h.pending
  limit := h.limit
  calls := by
    rw [map_setStage w call stage fun _ => rfl]
    exact h.calls
  nextCall := by
    intro f hf
    obtain ⟨g, hg, hc, -⟩ := mem_setStage hf
    exact hc ▸ h.nextCall g hg
  owner := by
    intro f hf
    obtain ⟨g, hg, -, hc⟩ := mem_setStage hf
    exact hc ▸ h.owner g hg
  keys := by
    rw [map_setStage w call stage fun _ => rfl]
    exact h.keys
  recorded := by
    intro d hd
    refine ⟨(h.recorded d hd).1, ?_⟩
    intro f hf
    obtain ⟨g, hg, -, hc⟩ := mem_setStage hf
    have hne := (h.recorded d hd).2 g hg
    rw [key] at hne ⊢
    exact hc ▸ hne
  known := hkn
  requests := hco

theorem Base.proceed (h : Base w) (call) (hs : stage ≠ .claimed) : Base (w.setStage call stage) := by
  have hco : ∀ o ∈ w.db.outbox, w.requests.countP (fun r => r.outboxId = o.id) +
      (w.setStage call stage).flights.countP (waitingFor o.id) ≤ o.attemptCount := by
    intro o ho
    have hle := waiting_setStage_le w call hs o.id
    exact (Nat.add_le_add_left hle _).trans (h.requests o ho)
  exact h.setStage call stage h.known hco

theorem Base.request (h : Base w) (hf : w.flight f.call = some f) (hs : f.stage = .claimed) : Base { w.setStage f.call .requested with
      requests := { outboxId := f.claimed.outboxId, attempt := f.claimed.attemptCount, deliveryId := f.deliveryId } ::
        w.requests } := by
  have hmem := (flight_mem hf).1
  refine h.setStage f.call .requested ?_ ?_
  · intro r hr
    rcases List.mem_cons.mp hr with rfl | hr
    · exact h.flight_known hmem
    · exact h.known r hr
  · intro o ho
    have hle := h.requests o ho
    rw [requestCount] at hle
    by_cases hid : f.claimed.outboxId = o.id
    · have hlt : (w.setStage f.call .requested).flights.countP (waitingFor o.id) <
          w.flights.countP (waitingFor o.id) := by
        apply countP_update_lt ?_ hmem (by simp) (by simp [waitingFor, hid, hs]) (by simp [waitingFor])
        intro g _ _ hg
        simp [waitingFor] at hg
      rw [List.countP_cons_of_pos (by simp [hid])]
      omega
    · grind [waiting_setStage_le]

theorem Base.drop {w} (h : Base w) (call) : Base (w.drop call) := by
  have hsub : (w.drop call).flights.Sublist w.flights := List.filter_sublist
  refine ⟨h.rows, h.fresh, h.pending, h.limit, (hsub.map _).nodup h.calls, ?_, ?_, (hsub.map _).nodup h.keys, ?_, h.known, ?_⟩
  · exact fun f hf => h.nextCall f (hsub.subset hf)
  · exact fun f hf => h.owner f (hsub.subset hf)
  · exact fun d hd => ⟨(h.recorded d hd).1, fun f hf => (h.recorded d hd).2 f (hsub.subset hf)⟩
  · intro o ho
    have hle : (w.drop call).flights.countP (waitingFor o.id) ≤ w.flights.countP (waitingFor o.id) :=
      hsub.countP_le
    exact (Nat.add_le_add_left hle _).trans (h.requests o ho)

theorem mem_drop {g} : g ∈ (w.drop call).flights ↔ g ∈ w.flights ∧ g.call ≠ call := by
  simp [drop]

theorem Base.persist (h : Base w) {attempt : DeliveryAttempt} (hf : w.flight f.call = some f) (hp : Persists w.db f.claimed attempt db') :
    Base (World.drop { w with db := db' } f.call) := by
  have hmem := (flight_mem hf).1
  obtain ⟨d, hid, hat, hd⟩ := hp.deliveries
  have hbs : Base { w with db := { db' with deliveries := w.db.deliveries } } := by
    refine h.rewrite hp.outbox rfl hp.uuid ?_
    intro o
    refine ⟨rfl, rfl, rfl, ?_⟩
    rcases attemptStatuses_cases f.claimed attempt with hs | hs | ⟨hs, -⟩ <;> simp [hs]
  have hdr := hbs.drop f.call
  refine ⟨hdr.rows, hdr.fresh, hdr.pending, hdr.limit, hdr.calls, hdr.nextCall, hdr.owner, hdr.keys, ?_, hdr.known, hdr.requests⟩
  intro d' hd'
  have hd'' : d' ∈ d :: w.db.deliveries := hd ▸ hd'
  rcases List.mem_cons.mp hd'' with rfl | hd''
  · refine ⟨?_, ?_⟩
    · obtain ⟨o, ho, hoid, hoat, -⟩ := hbs.owner f hmem
      exact ⟨o, ho, hoid.trans hid.symm, hat ▸ hoat⟩
    · grind [h.keys, key, mem_drop, eq_of_key]
  · exact hdr.recorded d' hd''

theorem Effect.base {w' e} (h : Base w) (he : Effect w e w') : Base w' := by
  cases he with
  | enqueue hn => exact h.enqueue hn
  | cancel ho hd hu => exact h.rewrite ho hd hu fun o => ⟨rfl, rfl, rfl, by simp⟩
  | claim hc => exact h.claim hc
  | proceed hf hs => exact h.proceed _ hs
  | request hf hs => exact h.request hf hs
  | abandon hf ha => exact h.drop _
  | persist hf hs hp => exact h.persist hf hp

theorem step_base (h : Base w) (e) : Base (step w e) := (step_effect h e).base h

theorem base_reached (now es) : Base (reached now es) :=
  run_invariant (fun _ e h => step_base h e) (base_empty now)

end Supacloud.Webhooks
