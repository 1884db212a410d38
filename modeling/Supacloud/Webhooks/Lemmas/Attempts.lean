import Supacloud.Webhooks.Lemmas.Workers

/-!
# 終わった行と、試みの上限

行の状態を終わりから動かしうるのは、記録の書き込みだけである。
-/

namespace Supacloud.Webhooks

open Library Db OutboxRow OutboxStatus World

def Db.statusOf (db : Db) (id : Uuid) : Option OutboxStatus := (db.outbox.find? fun o => o.id = id).map OutboxRow.status

def KeepsEnd (w : World) : Event → Prop
  | .persist call => ∀ f ∈ w.flight call, ∀ attempt ∈ f.stage.attempt?, ∀ status ∈ w.db.statusOf f.claimed.outboxId,
      status.unfinished = false → (attemptStatuses f.claimed attempt).2 = status
  | _ => True

theorem statusOf_eq_some {status} {db : Db} {id} :
    db.statusOf id = some status ↔ ∃ o, db.outbox.find? (fun o => o.id = id) = some o ∧ o.status = status := by
  simp [statusOf]

variable {e : Event}

theorem statusOf_update {p} {db db' : Db} {f} (ho : db'.outbox = update p f db.outbox) (hf : ∀ o, (f o).id = o.id) (id) :
    db'.statusOf id = (db.outbox.find? fun o => o.id = id).map fun o => (if p o then f o else o).status := by
  have hq : ∀ a, p a = true → decide ((f a).id = id) = decide (a.id = id) := fun a _ => by rw [hf]
  rw [statusOf, ho, find?_update hq, Option.map_map]
  rfl

theorem Persists.statusOf {db db' : Db} {claimed attempt} (h : Persists db claimed attempt db') (id) :
    db'.statusOf id = if id = claimed.outboxId ∧ (db.statusOf id).isSome then some (attemptStatuses claimed attempt).2
      else db.statusOf id := by
  rw [statusOf_update h.outbox (fun _ => rfl), Db.statusOf]
  cases hfi : db.outbox.find? fun o => o.id = id with
  | none => simp
  | some o =>
    have hid : o.id = id := by simpa using List.find?_some hfi
    by_cases hc : id = claimed.outboxId <;> simp [hid, hc]

theorem Effect.keeps_end {status w w'} (hb : Base w) (he : Effect w e w') (hk : KeepsEnd w e) {id}
    (hs : w.db.statusOf id = some status) (hend : status.unfinished = false) : w'.db.statusOf id = some status := by
  obtain ⟨o, hfi, rfl⟩ := statusOf_eq_some.mp hs
  have hid : o.id = id := by simpa using List.find?_some hfi
  cases he with
  | @enqueue _ db' news hn =>
    rw [statusOf, hn.outbox, List.find?_append, hfi]
    rfl
  | cancel ho hd hu =>
    rw [statusOf_update ho fun _ => rfl, hfi]
    simp [hend]
  | @claim skip r claimed db' hc =>
    have hdue := (nextDelivery_mem hc.next).2
    have hout : ({ db' with uuid := db'.uuid + 1 } : Db).outbox = update (fun r' => r'.id = r.id)
      (fun r => r.claimed w.db.now) w.db.outbox := hc.outbox
    rw [statusOf_update hout fun _ => rfl, hfi]
    -- 受け持つ行は、まだ終わっていない。
    have hne : o.id ≠ r.id := by
      intro heq
      have hro : o = r := hb.row_eq (List.mem_of_find?_eq_some hfi) (nextDelivery_mem hc.next).1 heq
      rw [← hro] at hdue
      rcases due_status hdue with hst | hst | hst <;> simp [hst, unfinished] at hend
    simp [hne]
  | proceed hf hstg | request hf hstg | abandon hf ha => exact hs
  | @persist f attempt db' hf hstg hp =>
    have hsta : db'.statusOf id = some o.status := by
      rw [hp.statusOf]
      split
      next h =>
        obtain ⟨rfl, -⟩ := h
        rw [hk f hf attempt (by simp [hstg, Stage.attempt?]) _ hs hend]
      next => exact hs
    exact hsta

variable {attempt : DeliveryAttempt} {f : Flight}

theorem persist_statusOf {w} (hb : Base w) {call} (hf : w.flight call = some f) (hs : f.stage = .attempted attempt) :
    (step w (.persist call)).db.statusOf f.claimed.outboxId = some (attemptStatuses f.claimed attempt).2 := by
  obtain ⟨hmem, rfl⟩ := flight_mem hf
  have hnew : ∀ d ∈ w.db.deliveries, ¬ (d.outboxId = f.claimed.outboxId ∧ d.attempt = f.claimed.attemptCount) := by
    rintro d hd ⟨hid, hat⟩
    exact (hb.recorded d hd).2 f hmem (by simp [Flight.key, hid, hat])
  obtain ⟨db', hok, hp⟩ := persistDeliveryAttempt_persists f.deliveryId attempt hnew
  have hste : (step w (.persist f.call)).db = db' := by
    obtain ⟨call, claimed, deliveryId, stage⟩ := f
    subst hs
    simp only [step, persist, hf, hok, transact, drop]
  have hso : (w.db.statusOf f.claimed.outboxId).isSome := by grind [hb.owner, statusOf]
  rw [hste, hp.statusOf, if_pos ⟨rfl, hso⟩]

/-! ## 試みの上限 -/

/-- 最後の試みは、五分のうちに記録され、その後で前の試みの失敗が書き込まれることもない。 -/
def SettlesLast (w : World) : Event → Prop
  | .claim skip => ∀ o ∈ nextDelivery w.db skip, o.status = .delivering → o.attemptCount < o.maxAttempts
  | .bodyFailed call | .persistFailed call | .crash call =>
    ∀ f ∈ w.flight call, f.claimed.attemptCount < f.claimed.maxAttempts
  | .persist call => ∀ f ∈ w.flight call, ∀ attempt ∈ f.stage.attempt?, attempt.ok = false →
      f.claimed.attemptCount < f.claimed.maxAttempts →
      ∀ o ∈ w.db.outbox, o.id = f.claimed.outboxId → o.attemptCount < o.maxAttempts
  | _ => True

instance (w : World) : (e : Event) → Decidable (SettlesLast w e)
  | .claim skip => inferInstanceAs (Decidable (∀ o ∈ nextDelivery w.db skip, _))
  | .bodyFailed call => inferInstanceAs (Decidable (∀ f ∈ w.flight call, _))
  | .persistFailed call => inferInstanceAs (Decidable (∀ f ∈ w.flight call, _))
  | .crash call => inferInstanceAs (Decidable (∀ f ∈ w.flight call, _))
  | .persist call => inferInstanceAs (Decidable (∀ f ∈ w.flight call, ∀ attempt ∈ f.stage.attempt?, _))
  | .tick .. | .createWebhook .. | .updateWebhook .. | .rotateSecret .. | .deleteWebhook .. | .enqueueEvent ..
  | .enqueueTest .. | .replayDelivery .. | .refuse .. | .request .. | .fetchFailed .. | .respond .. => isTrue trivial

structure Counted (w : World) : Prop where
  bound : ∀ o ∈ w.db.outbox, o.attemptCount ≤ o.maxAttempts
  retry : ∀ o ∈ w.db.outbox, o.status = .retryScheduled → o.attemptCount < o.maxAttempts
  last : ∀ o ∈ w.db.outbox, o.attemptCount = o.maxAttempts →
    (∃ f ∈ w.flights, f.claimed.outboxId = o.id ∧ f.claimed.attemptCount = o.attemptCount) ∨
      o.status = .delivered ∨ o.status = .deadLettered

theorem counted_empty (now) : Counted (empty now) := by
  constructor <;> simp [empty]

theorem Counted.claimable {w} (hb : Base w) (h : Counted w) {skip} (hk : SettlesLast w (.claim skip))
    {o} (ho : nextDelivery w.db skip = some o) : o.attemptCount < o.maxAttempts := by
  obtain ⟨hmem, hdue⟩ := nextDelivery_mem ho
  rcases due_status hdue with hs | hs | hs
  · rw [hb.pending o hmem hs, hb.limit o hmem]
    decide
  · exact h.retry o hmem hs
  · exact hk o ho hs

theorem Counted.claim {w} (hb : Base w) (h : Counted w) {skip o claimed}
    {db'} (hc : Claims w.db skip o claimed db') (hlt : o.attemptCount < o.maxAttempts) : Counted (w.carry claimed db') := by
  have hmem := (nextDelivery_mem hc.next).1
  have hba : ∀ r' ∈ db'.outbox, r' = o.claimed w.db.now ∨ (r' ∈ w.db.outbox ∧ r'.id ≠ o.id) := by grind [hc.outbox, hb.row_eq, mem_update]
  refine ⟨?_, ?_, ?_⟩
  · intro r' hr'
    rcases hba r' hr' with rfl | ⟨hr, -⟩
    · exact hlt
    · exact h.bound r' hr
  · intro r' hr' hs
    rcases hba r' hr' with rfl | ⟨hr, -⟩
    · simp at hs
    · exact h.retry r' hr hs
  · intro r' hr' heq
    rcases hba r' hr' with rfl | ⟨hr, -⟩
    · exact .inl ⟨_, List.mem_cons_self, hc.outboxId, hc.attemptCount⟩
    · grind [h.last]

theorem Counted.cancel {p w} (h : Counted w) {db'} (ho : db'.outbox = update p dropped w.db.outbox)
    (hp : ∀ o, p o = true → o.status.unfinished = true) : Counted { w with db := db' } := by
  have hba : ∀ r' ∈ db'.outbox, ∃ r ∈ w.db.outbox, r' = r ∨ (r' = r.dropped ∧ r.status.unfinished = true) := by grind [mem_update]
  refine ⟨?_, ?_, ?_⟩
  · intro r' hr'
    obtain ⟨r, hr, rfl | ⟨rfl, -⟩⟩ := hba r' hr'
    · exact h.bound _ hr
    · exact h.bound r hr
  · intro r' hr' hs
    obtain ⟨r, hr, rfl | ⟨rfl, -⟩⟩ := hba r' hr'
    · exact h.retry _ hr hs
    · simp at hs
  · intro r' hr' heq
    obtain ⟨r, hr, rfl | ⟨rfl, hun⟩⟩ := hba r' hr'
    · exact h.last _ hr heq
    · rcases h.last r hr heq with hf | hs | hs
      · exact .inl hf
      · simp [hs, unfinished] at hun
      · simp [hs, unfinished] at hun

theorem Counted.setStage {w} (h : Counted w) (call stage requests) : Counted { w.setStage call stage with requests } := by
  refine ⟨h.bound, h.retry, ?_⟩
  intro o ho heq
  rcases h.last o ho heq with ⟨f, hf, hid, hat⟩ | hend
  · have hf' : (if f.call = call then { f with stage } else f) ∈ (w.setStage call stage).flights :=
      mem_update.mpr ⟨f, hf, by simp⟩
    refine .inl ⟨_, hf', ?_⟩
    split <;> exact ⟨hid, hat⟩
  · exact .inr hend

theorem Counted.abandon {w} (hb : Base w) (h : Counted w) (hf : w.flight f.call = some f)
    (hlt : f.claimed.attemptCount < f.claimed.maxAttempts) : Counted (w.drop f.call) := by
  refine ⟨h.bound, h.retry, ?_⟩
  intro o ho heq
  rcases h.last o ho heq with ⟨g, hg, hid, hat⟩ | hend
  · refine .inl ⟨g, mem_drop.mpr ⟨hg, ?_⟩, hid, hat⟩
    intro hca
    rw [hb.flight_eq hf hg hca] at hid hat
    obtain ⟨o', ho', hoid, -, hmax⟩ := hb.owner f (flight_mem hf).1
    rw [hb.row_eq ho' ho (hoid.trans hid)] at hmax
    exact absurd hlt (by rw [hat, hmax, heq]; exact Nat.lt_irrefl _)
  · exact .inr hend

theorem Counted.persist {w} (hb : Base w) (h : Counted w) {db'} (hf : w.flight f.call = some f)
    (hs : f.stage = .attempted attempt) (hp : Persists w.db f.claimed attempt db') (hk : SettlesLast w (.persist f.call)) : Counted (drop { w with db := db' } f.call) := by
  -- 書き換わるのは受け持った行だけで、終わりになるか、試みを残してやり直しになる。
  have hba : ∀ r' ∈ db'.outbox, (r' ∈ w.db.outbox ∧ r'.id ≠ f.claimed.outboxId) ∨
      ∃ r ∈ w.db.outbox, r' = r.settled w.db.now f.claimed attempt ∧
        ((r'.status = .delivered ∨ r'.status = .deadLettered) ∨ r'.status = .retryScheduled ∧ r.attemptCount < r.maxAttempts) := by
    intro r' hr'
    rw [hp.outbox] at hr'
    obtain ⟨r, hr, rfl⟩ := mem_update.mp hr'
    by_cases hid : r.id = f.claimed.outboxId
    · refine .inr ⟨r, hr, by simp [hid], ?_⟩
      simp only [hid, decide_true, if_true, settled_status]
      rcases attemptStatuses_cases f.claimed attempt with hst | hst | ⟨hst, hlt⟩
      · exact .inl (.inl hst)
      · exact .inl (.inr hst)
      · refine .inr ⟨hst, hk f hf attempt (by simp [hs, Stage.attempt?]) ?_ hlt r hr hid⟩
        cases hok : attempt.ok
        · rfl
        · simp [attemptStatuses, hok] at hst
    · exact .inl (by simpa [hid] using hr)
  refine ⟨?_, ?_, ?_⟩
  · intro r' hr'
    rcases hba r' hr' with ⟨hr, -⟩ | ⟨r, hr, rfl, -⟩
    · exact h.bound r' hr
    · exact h.bound r hr
  · intro r' hr' hst
    rcases hba r' hr' with ⟨hr, -⟩ | ⟨r, hr, rfl, (hd | hd) | ⟨-, hlt⟩⟩
    · exact h.retry r' hr hst
    · cases hd.symm.trans hst
    · cases hd.symm.trans hst
    · exact hlt
  · intro r' hr' heq
    rcases hba r' hr' with ⟨hr, hne⟩ | ⟨r, hr, rfl, hend | ⟨-, hlt⟩⟩
    · grind [h.last, hb.flight_eq, mem_drop]
    · exact .inr hend
    · exact absurd heq (Nat.ne_of_lt hlt)

theorem Event.abandons.settles {w} (ha : e.abandons f) (hf : w.flight f.call = some f) (hk : SettlesLast w e) : f.claimed.attemptCount < f.claimed.maxAttempts := by
  cases e with
  | bodyFailed call | persistFailed call =>
    obtain ⟨rfl, -⟩ := ha
    exact hk f hf
  | crash call =>
    obtain rfl := ha
    exact hk f hf
  | _ => exact ha.elim

theorem Effect.counted {w w'} (hb : Base w) (h : Counted w) (he : Effect w e w') (hk : SettlesLast w e) : Counted w' := by
  cases he with
  | @enqueue _ db' news hn =>
    have hlt : ∀ o ∈ news, o.attemptCount < o.maxAttempts := by
      intro o ho
      rw [(hn.fresh o ho).1.attemptCount, (hn.fresh o ho).1.maxAttempts]
      decide
    refine ⟨?_, ?_, ?_⟩
    · intro o ho
      simp only [hn.outbox, List.mem_append] at ho
      exact ho.elim (h.bound o) fun ho => Nat.le_of_lt (hlt o ho)
    · grind [hn.outbox, h.retry]
    · grind [hn.outbox, h.last]
  | cancel ho hd hu => exact h.cancel ho fun o hp => (of_decide_eq_true hp).2.2
  | claim hc => exact h.claim hb hc (h.claimable hb hk hc.next)
  | proceed hf hs | request hf hs => exact h.setStage _ _ _
  | abandon hf ha => exact h.abandon hb hf (ha.settles hf hk)
  | persist hf hs hp => exact h.persist hb hf hs hp hk

/-! ## 行の札 -/

variable {db db' : Db} {w : World} {projectRef url : String} {item : NewItem} {webhookId : Uuid} {subscriptions : List Webhook}

structure Label where
  projectRef : String
  webhookId : Uuid
  idempotencyKey : String
  event : EventIdentity

def OutboxRow.label (o : OutboxRow) : Label where
  projectRef := o.projectRef
  webhookId := o.webhookId
  idempotencyKey := o.idempotencyKey
  event := o.event

def NewItem.label (item : NewItem) (projectRef : String) (webhookId : Uuid) : Label where
  projectRef
  webhookId
  idempotencyKey := item.idempotencyKey
  event := item.event

def Db.labels (db : Db) : List Label := db.outbox.map OutboxRow.label

structure Labelled (db db' : Db) (news : List Label) : Prop where
  labels : db'.labels = db.labels ++ news
  webhooks : db'.webhooks.map Webhook.id = db.webhooks.map Webhook.id
  uuid : db.uuid ≤ db'.uuid

theorem Labelled.refl : Labelled db db [] := ⟨by rw [List.append_nil], rfl, Nat.le_refl _⟩

theorem foldl_insertOutbox : Labelled db (subscriptions.foldl (fun db webhook => insertOutbox db projectRef webhook.id item) db)
    (subscriptions.map fun webhook => item.label projectRef webhook.id) := by
  induction subscriptions generalizing db with
  | nil => exact .refl
  | cons webhook subscriptions ih =>
    have hre := @ih (insertOutbox db projectRef webhook.id item)
    refine ⟨?_, hre.webhooks, Nat.le_trans (Nat.le_succ _) hre.uuid⟩
    rw [List.foldl_cons, hre.labels]
    simp [Db.labels, insertOutbox, OutboxRow.label, NewItem.label, OutboxRow.event, NewItem.event]

theorem enqueueEvent_labelled (h : enqueueEvent db projectRef item = .ok db') :
    Labelled db db' ((newSubscriptions db projectRef item).map fun webhook => item.label projectRef webhook.id) ∧
    (db.outbox.countP fun o => o.projectRef = projectRef ∧ o.status.unfinished) + (newSubscriptions db projectRef item).length ≤
      maxUnfinishedOutboxItems := by
  simp only [enqueueEvent, assertOutboxCapacity, bind_eq_ok, pure_eq_ok, require_eq_ok] at h
  obtain ⟨-, hrm, -, -, rfl⟩ := h
  exact ⟨foldl_insertOutbox, hrm⟩

theorem countP_foldl_insertOutbox : ((subscriptions.foldl (fun db webhook => insertOutbox db projectRef webhook.id item) db).outbox.countP
      fun o => o.projectRef = projectRef ∧ o.status.unfinished) =
      (db.outbox.countP fun o => o.projectRef = projectRef ∧ o.status.unfinished) + subscriptions.length := by
  induction subscriptions generalizing db with
  | nil => rfl
  | cons webhook subscriptions ih =>
    rw [List.foldl_cons, ih]
    simp [insertOutbox, unfinished]
    omega

theorem enqueueEvent_ok (h : (db.outbox.countP fun o => o.projectRef = projectRef ∧ o.status.unfinished) +
    (newSubscriptions db projectRef item).length ≤ maxUnfinishedOutboxItems) : ∃ db', enqueueEvent db projectRef item = .ok db' := by
  simp only [enqueueEvent, assertOutboxCapacity, bind_eq_ok, pure_eq_ok, require_eq_ok]
  refine ⟨_, (), h, (), ?_, rfl⟩
  rw [Nat.add_zero, countP_foldl_insertOutbox]
  exact h

theorem createWebhook_labels {events enabled} (h : createWebhook db projectRef url events enabled = .ok db') :
    db'.labels = db.labels ∧ db'.webhooks.map Webhook.id = db.webhooks.map Webhook.id ++ [db.uuid] ∧ db'.uuid = db.uuid + 1 := by
  simp only [createWebhook, bind_eq_ok, pure_eq_ok] at h
  obtain ⟨-, -, rfl⟩ := h
  exact ⟨rfl, by simp, rfl⟩

theorem updateWebhook_labelled {url events enabled}
    (h : updateWebhook db projectRef webhookId url events enabled = .ok db') : Labelled db db' [] := by
  simp only [updateWebhook, bind_eq_ok, pure_eq_ok] at h
  obtain ⟨-, -, rfl⟩ := h
  exact ⟨by rw [List.append_nil]; rfl, map_update fun _ _ => rfl, Nat.le_refl _⟩

theorem deleteWebhook_labelled (h : deleteWebhook db projectRef webhookId = .ok db') : Labelled db db' [] := by
  simp only [deleteWebhook, bind_eq_ok, pure_eq_ok] at h
  obtain ⟨-, -, rfl⟩ := h
  exact ⟨by rw [List.append_nil]; exact map_update fun _ _ => rfl, map_update fun _ _ => rfl, Nat.le_refl _⟩

/-! ## 札で言い換える -/

def SameLabels (projectRef : String) (labels : List Label) : Prop :=
  ∀ a ∈ labels, ∀ b ∈ labels, a.projectRef = projectRef → b.projectRef = projectRef → a.idempotencyKey = b.idempotencyKey → a.event = b.event

theorem sameEvent_iff : SameEvent projectRef w ↔ SameLabels projectRef w.db.labels := by
  simp only [SameEvent, SameLabels, labels, List.forall_mem_map]
  exact Iff.rfl

def labelCount (projectRef : String) (webhookId : Uuid) (key : String) (labels : List Label) : Nat :=
  labels.countP fun a => a.projectRef = projectRef ∧ a.webhookId = webhookId ∧ a.idempotencyKey = key

theorem oncePerWebhook_iff : OncePerWebhook projectRef w ↔ ∀ webhookId key, labelCount projectRef webhookId key w.db.labels ≤ 1 := by
  simp only [OncePerWebhook, labelCount, labels, List.countP_map]
  exact Iff.rfl

theorem labelCount_unrecorded {key} (h : ¬ recorded db projectRef webhookId key) : labelCount projectRef webhookId key db.labels = 0 := by
  rw [labelCount, List.countP_eq_zero]
  intro a ha hlb
  obtain ⟨o, ho, rfl⟩ := List.mem_map.mp ha
  exact h (List.any_eq_true.mpr ⟨o, ho, hlb⟩)

theorem labelCount_news (projectRef) (item : NewItem) (webhookId key) (h : (subscriptions.map Webhook.id).Nodup) :
    labelCount projectRef webhookId key (subscriptions.map fun webhook => item.label projectRef webhook.id) ≤
      if webhookId ∈ subscriptions.map Webhook.id ∧ item.idempotencyKey = key then 1 else 0 := by
  induction subscriptions with
  | nil => simp [labelCount]
  | cons webhook subscriptions ih => grind [labelCount, NewItem.label]

/-! ## 保たれること -/

structure Registered (projectRef : String) (w : World) : Prop where
  ids : (w.db.webhooks.map Webhook.id).Nodup
  fresh : ∀ id ∈ w.db.webhooks.map Webhook.id, id < w.db.uuid
  once : ∀ webhookId key, labelCount projectRef webhookId key w.db.labels ≤ 1

theorem registered_empty {now} : Registered projectRef (empty now) := by
  constructor
  · simp [empty]
  · simp [empty]
  · simp [empty, labels, labelCount]

theorem Registered.quiet (h : Registered projectRef w) (hdb : Labelled w.db db' []) : Registered projectRef { w with db := db' } where
  ids := by
    rw [hdb.webhooks]
    exact h.ids
  fresh id hid := by
    rw [hdb.webhooks] at hid
    exact Nat.lt_of_lt_of_le (h.fresh id hid) hdb.uuid
  once webhookId key := by
    rw [hdb.labels, List.append_nil]
    exact h.once webhookId key

theorem Registered.enqueue (h : Registered projectRef w) (hdb : enqueueEvent w.db projectRef item = .ok db') :
    Registered projectRef { w with db := db' } := by
  obtain ⟨hla, -⟩ := enqueueEvent_labelled hdb
  refine ⟨by rw [hla.webhooks]; exact h.ids, fun id hid => ?_, fun webhookId key => ?_⟩
  · rw [hla.webhooks] at hid
    exact Nat.lt_of_lt_of_le (h.fresh id hid) hla.uuid
  · have hnd : ((newSubscriptions w.db projectRef item).map Webhook.id).Nodup := h.ids.sublist (List.filter_sublist.map _)
    have hnw := labelCount_news projectRef item webhookId key hnd
    have hbe := h.once webhookId key
    simp only [hla.labels, labelCount, List.countP_append] at hnw hbe ⊢
    split at hnw
    · rename_i hnew
      obtain ⟨⟨webhook, hwe, rfl⟩, rfl⟩ := And.imp_left List.mem_map.mp hnew
      have hunr : ¬ recorded w.db projectRef webhook.id item.idempotencyKey := by
        have hse := (List.mem_filter.mp hwe).2
        simp only [decide_eq_true_eq] at hse
        exact hse.2.2.2.2
      have hze := labelCount_unrecorded hunr
      rw [labelCount] at hze
      omega
    · omega

theorem Registered.perform {op} (h : Registered projectRef w) : Registered projectRef (perform projectRef w op) := by
  cases op with
  | createWebhook url events enabled =>
    simp only [Webhooks.perform, Operation.event, step, World.transact]
    cases hdb : createWebhook w.db projectRef url events enabled with
    | error e => exact h
    | ok db' =>
      obtain ⟨hlas, hwes, huu⟩ := createWebhook_labels hdb
      refine ⟨?_, fun id hid => ?_, fun webhookId key => ?_⟩
      · simp only [hwes]
        refine List.nodup_append.mpr ⟨h.ids, by simp, fun a ha b hb heq => ?_⟩
        rw [List.mem_singleton] at hb
        have hlt := h.fresh a ha
        rw [heq, hb] at hlt
        exact absurd hlt (Nat.lt_irrefl _)
      · simp only [hwes, huu, List.mem_append, List.mem_singleton] at hid ⊢
        rcases hid with hid | rfl
        · exact Nat.lt_succ_of_lt (h.fresh id hid)
        · exact Nat.lt_succ_self _
      · simp only [hlas]
        exact h.once webhookId key
  | updateWebhook webhookId url events enabled =>
    simp only [Webhooks.perform, Operation.event, step, World.transact]
    cases hdb : updateWebhook w.db projectRef webhookId url events enabled with
    | error e => exact h
    | ok db' => exact h.quiet (updateWebhook_labelled hdb)
  | deleteWebhook webhookId =>
    simp only [Webhooks.perform, Operation.event, step, World.transact]
    cases hdb : deleteWebhook w.db projectRef webhookId with
    | error e => exact h
    | ok db' => exact h.quiet (deleteWebhook_labelled hdb)
  | enqueueEvent item =>
    simp only [Webhooks.perform, Operation.event, step, World.transact]
    cases hdb : enqueueEvent w.db projectRef item with
    | error e => exact h
    | ok db' => exact h.enqueue hdb
  | wait elapsed => exact ⟨h.ids, h.fresh, h.once⟩

theorem sameLabels_append {labels} (h : SameLabels projectRef labels)
    (hne : subscriptions ≠ []) : (∀ a ∈ labels, a.projectRef = projectRef → a.idempotencyKey = item.idempotencyKey → a.event = item.event) ↔
      SameLabels projectRef (labels ++ subscriptions.map fun webhook => item.label projectRef webhook.id) := by
  constructor
  · intro hag a ha b hb hpa hpb hkey
    rcases List.mem_append.mp ha with ha | ha
    · rcases List.mem_append.mp hb with hb | hb
      · exact h a ha b hb hpa hpb hkey
      · obtain ⟨webhook, -, rfl⟩ := List.mem_map.mp hb
        exact hag a ha hpa hkey
    · obtain ⟨webhook, -, rfl⟩ := List.mem_map.mp ha
      rcases List.mem_append.mp hb with hb | hb
      · exact (hag b hb hpb hkey.symm).symm
      · obtain ⟨webhook', -, rfl⟩ := List.mem_map.mp hb
        rfl
  · intro haf a ha hpa hkey
    obtain ⟨webhook, hwe⟩ := List.exists_mem_of_ne_nil _ hne
    have hnew : item.label projectRef webhook.id ∈ subscriptions.map fun webhook => item.label projectRef webhook.id :=
      List.mem_map_of_mem hwe
    exact haf a (List.mem_append_left _ ha) _ (List.mem_append_right _ hnew) hpa rfl hkey

theorem SameEvent.quiet (h : SameEvent projectRef w) (hdb : Labelled w.db db' []) : SameEvent projectRef { w with db := db' } := by
  rw [sameEvent_iff] at h ⊢
  rw [hdb.labels, List.append_nil]
  exact h

theorem repeatsEvent_iff {op} (h : SameEvent projectRef w) : RepeatsEvent projectRef w op ↔ SameEvent projectRef (perform projectRef w op) := by
  cases op with
  | createWebhook url events enabled =>
    refine iff_of_true trivial ?_
    simp only [perform, Operation.event, step, World.transact]
    cases hdb : createWebhook w.db projectRef url events enabled with
    | error e => exact h
    | ok db' =>
      rw [sameEvent_iff] at h ⊢
      rw [(createWebhook_labels hdb).1]
      exact h
  | updateWebhook webhookId url events enabled =>
    refine iff_of_true trivial ?_
    simp only [perform, Operation.event, step, World.transact]
    cases hdb : updateWebhook w.db projectRef webhookId url events enabled with
    | error e => exact h
    | ok db' => exact h.quiet (updateWebhook_labelled hdb)
  | deleteWebhook webhookId =>
    refine iff_of_true trivial ?_
    simp only [perform, Operation.event, step, World.transact]
    cases hdb : deleteWebhook w.db projectRef webhookId with
    | error e => exact h
    | ok db' => exact h.quiet (deleteWebhook_labelled hdb)
  | enqueueEvent item =>
    simp only [perform, Operation.event, step, World.transact, RepeatsEvent]
    cases hdb : enqueueEvent w.db projectRef item with
    | error e => grind [enqueueEvent_ok]
    | ok db' =>
      obtain ⟨hla, hrm⟩ := enqueueEvent_labelled hdb
      by_cases hne : newSubscriptions w.db projectRef item = []
      · grind [h.quiet]
      · rw [sameEvent_iff] at h ⊢
        rw [hla.labels, ← sameLabels_append h hne]
        simp only [hne, ne_eq, not_false_eq_true, forall_const, hrm, Db.labels, List.forall_mem_map]
        exact Iff.rfl
  | wait elapsed => exact iff_of_true trivial h

end Supacloud.Webhooks
