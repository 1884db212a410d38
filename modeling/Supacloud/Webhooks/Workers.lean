import Mathlib.Data.List.Sort
import Supacloud.Library.Checked
import Supacloud.Library.Table
import Supacloud.Library.Runs

/-!
# Webhook の送り箱（services/webhook-delivery.service.ts, db/platform-v2.ts）

時刻は百万分の一秒の数、識別子（uuid）は払い出した順の番号とする。入力は形の検査（URL、種類の名、大きさ）の済んだものである。
行の状態に関わらない本文と署名、返事の下見は持たない。
-/

namespace Supacloud.Webhooks

open Library

abbrev Uuid := Nat
abbrev Timestamp := Nat

def seconds (n : Nat) : Nat := n * 1000000

def maxWebhooksPerProject : Nat := 50
def defaultMaxAttempts : Nat := 5
def retryDelaysSeconds : List Nat := [60, 300, 1800, 7200]
def maxUnfinishedOutboxItems : Nat := 10000

inductive OutboxStatus where
  | pending | delivering | retryScheduled | delivered | deadLettered | cancelled
  deriving DecidableEq

/-- `status IN ('pending', 'delivering', 'retry_scheduled')` -/
def OutboxStatus.unfinished : OutboxStatus → Bool
  | .pending | .delivering | .retryScheduled => true
  | .delivered | .deadLettered | .cancelled => false

inductive DeliveryStatus where
  | delivered | failed | deadLettered

structure Webhook where
  id : Uuid
  projectRef : String
  url : String
  events : List String
  secretVersion : Nat
  enabled : Bool
  deletedAt : Option Timestamp

structure OutboxRow where
  id : Uuid
  projectRef : String
  webhookId : Uuid
  eventId : Uuid
  eventType : String
  payload : String
  idempotencyKey : String
  status : OutboxStatus
  attemptCount : Nat
  maxAttempts : Nat
  nextAttemptAt : Timestamp
  lockedAt : Option Timestamp
  lastError : Option String
  replayOfDeliveryId : Option Uuid
  createdAt : Timestamp

structure DeliveryRow where
  id : Uuid
  outboxId : Uuid
  projectRef : String
  webhookId : Uuid
  attempt : Nat
  status : DeliveryStatus
  statusCode : Option Nat
  error : Option String
  secretVersion : Nat
  completedAt : Timestamp

/-- `secrets` は、署名の鍵が保管されている Webhook の番号、`uuid` は、次に払い出す番号である。 -/
structure Db where
  now : Timestamp
  uuid : Uuid
  webhooks : List Webhook
  secrets : List Uuid
  outbox : List OutboxRow
  deliveries : List DeliveryRow

inductive WebhookError where
  | notFound (kind : String) (id : Uuid)
  | conflict (message : String)
  | uniqueViolation (index : String)

variable (db : Db) (projectRef : String)

/-! ## Webhook の登録 -/

def assertWebhookCapacity : Except WebhookError Unit :=
  require ((db.webhooks.countP fun w => w.projectRef = projectRef ∧ w.deletedAt = none) < maxWebhooksPerProject)
    (.conflict "A project can have at most 50 webhooks")

def createWebhook (url : String) (events : List String) (enabled : Bool) : Except WebhookError Db := do
  assertWebhookCapacity db projectRef
  let webhook := { id := db.uuid, projectRef, url, events, secretVersion := 1, enabled, deletedAt := none }
  pure { db with
    uuid := db.uuid + 1
    webhooks := db.webhooks ++ [webhook]
    secrets := db.uuid :: db.secrets }

variable (webhookId : Uuid)

def activeWebhook : Except WebhookError Webhook :=
  fetch (db.webhooks.find? fun w => w.projectRef = projectRef ∧ w.id = webhookId ∧ w.deletedAt = none)
    (.notFound "Webhook" webhookId)

def updateWebhook (url : Option String) (events : Option (List String)) (enabled : Option Bool) : Except WebhookError Db := do
  let current ← activeWebhook db projectRef webhookId
  pure { db with
    webhooks := update (fun w => w.projectRef = projectRef ∧ w.id = webhookId)
      (fun w => { w with
        url := url.getD current.url
        events := events.getD current.events
        enabled := enabled.getD current.enabled }) db.webhooks }

def rotateSecret : Except WebhookError Db := do
  let _ ← activeWebhook db projectRef webhookId
  pure { db with
    secrets := webhookId :: db.secrets
    webhooks := update (fun w => w.projectRef = projectRef ∧ w.id = webhookId)
      (fun w => { w with secretVersion := w.secretVersion + 1 }) db.webhooks }

def deleteWebhook : Except WebhookError Db := do
  let _ ← activeWebhook db projectRef webhookId
  pure { db with
    webhooks := update (fun w => w.projectRef = projectRef ∧ w.id = webhookId)
      (fun w => { w with enabled := false, deletedAt := some db.now }) db.webhooks
    outbox := update (fun o => o.projectRef = projectRef ∧ o.webhookId = webhookId ∧ o.status.unfinished)
      (fun o => { o with
        status := .cancelled
        lockedAt := none
        lastError := some "Webhook was soft-deleted before delivery" }) db.outbox
    secrets := db.secrets.filter (· ≠ webhookId) }

/-! ## 知らせの登録 -/

def assertOutboxCapacity (additions : Nat) : Except WebhookError Unit :=
  require ((db.outbox.countP fun o => o.projectRef = projectRef ∧ o.status.unfinished) + additions ≤ maxUnfinishedOutboxItems)
    (.conflict "Project webhook outbox cannot exceed 10000 unfinished items")

structure NewItem where
  eventId : Uuid
  eventType : String
  payload : String
  idempotencyKey : String
  replayOfDeliveryId : Option Uuid

/-- `INSERT INTO webhook_outbox`。残りの列は表の既定値による。 -/
def insertOutbox (item : NewItem) : Db :=
  { db with
    uuid := db.uuid + 1
    outbox := db.outbox ++ [{
      id := db.uuid
      projectRef, webhookId
      eventId := item.eventId
      eventType := item.eventType
      payload := item.payload
      idempotencyKey := item.idempotencyKey
      status := .pending
      attemptCount := 0
      maxAttempts := defaultMaxAttempts
      nextAttemptAt := db.now
      lockedAt := none
      lastError := none
      replayOfDeliveryId := item.replayOfDeliveryId
      createdAt := db.now }] }

/-- `webhook_outbox_idempotency_idx` -/
def recorded (idempotencyKey : String) : Bool :=
  db.outbox.any fun o => o.projectRef = projectRef ∧ o.webhookId = webhookId ∧ o.idempotencyKey = idempotencyKey

def newSubscriptions (item : NewItem) : List Webhook :=
  db.webhooks.filter fun w => w.projectRef = projectRef ∧ w.enabled ∧ w.deletedAt = none
    ∧ (item.eventType ∈ w.events ∨ "*" ∈ w.events) ∧ ¬ recorded db projectRef w.id item.idempotencyKey

def enqueueEvent (item : NewItem) : Except WebhookError Db := do
  let subscriptions := newSubscriptions db projectRef item
  assertOutboxCapacity db projectRef subscriptions.length
  let db := subscriptions.foldl (fun db w => insertOutbox db projectRef w.id item) db
  assertOutboxCapacity db projectRef 0
  pure db

/-- 一つの Webhook にあてた知らせ。鍵は呼び出しごとに新しく作るが、重なれば索引が退ける。 -/
def enqueueOne (item : NewItem) : Except WebhookError Db := do
  assertOutboxCapacity db projectRef 1
  require (¬ recorded db projectRef webhookId item.idempotencyKey) (.uniqueViolation "webhook_outbox_idempotency_idx")
  pure (insertOutbox db projectRef webhookId item)

def enqueueTest (nonce : String) : Except WebhookError Db := do
  let _ ← activeWebhook db projectRef webhookId
  enqueueOne { db with uuid := db.uuid + 1 } projectRef webhookId {
    eventId := db.uuid
    eventType := "webhook.test"
    payload := "\x7b\"source\":\"supacloud\",\"generated\":true\x7d"
    idempotencyKey := "test:" ++ nonce
    replayOfDeliveryId := none }

def replayDelivery (deliveryId : Uuid) (nonce : String) : Except WebhookError Db := do
  let _ ← activeWebhook db projectRef webhookId
  let delivery ← fetch (db.deliveries.find? fun d => d.projectRef = projectRef ∧ d.webhookId = webhookId ∧ d.id = deliveryId)
    (.notFound "Webhook delivery" deliveryId)
  let original ← fetch (db.outbox.find? fun o => o.id = delivery.outboxId) (.notFound "Webhook delivery" deliveryId)
  enqueueOne db projectRef webhookId {
    eventId := original.eventId
    eventType := original.eventType
    payload := original.payload
    idempotencyKey := "replay:" ++ toString deliveryId ++ ":" ++ nonce
    replayOfDeliveryId := some deliveryId }

/-! ## 送る知らせの受け持ち -/

structure ClaimedDelivery where
  outboxId : Uuid
  eventId : Uuid
  eventType : String
  payload : String
  attemptCount : Nat
  maxAttempts : Nat
  replayOfDeliveryId : Option Uuid
  webhook : Webhook

def OutboxRow.due (o : OutboxRow) (now : Timestamp) : Bool :=
  match o.status with
  | .pending | .retryScheduled => o.nextAttemptAt ≤ now
  | .delivering => o.lockedAt.any fun t => t + seconds 300 < now
  | .delivered | .deadLettered | .cancelled => false

def OutboxRow.before (a b : OutboxRow) : Prop :=
  a.nextAttemptAt < b.nextAttemptAt ∨ (a.nextAttemptAt = b.nextAttemptAt ∧ a.createdAt ≤ b.createdAt)

instance : DecidableRel OutboxRow.before := fun _ _ => inferInstanceAs (Decidable (_ ∨ _))

def liveWebhook : Option Webhook :=
  db.webhooks.find? fun w => w.id = webhookId ∧ w.deletedAt = none

/-- `SKIP LOCKED`：ほかの取引が押さえている行 skip は見ない。 -/
def nextDelivery (skip : List Uuid) : Option OutboxRow :=
  ((db.outbox.filter fun o => o.due db.now ∧ (liveWebhook db o.webhookId).isSome ∧ o.id ∉ skip).insertionSort
    OutboxRow.before).head?

def OutboxRow.claimed (o : OutboxRow) (now : Timestamp) : OutboxRow :=
  { o with
    status := .delivering
    lockedAt := some now
    attemptCount := o.attemptCount + 1 }

def claimNextDelivery (skip : List Uuid) : Option (ClaimedDelivery × Db) := do
  let o ← nextDelivery db skip
  let webhook ← liveWebhook db o.webhookId
  let claimed := {
    outboxId := o.id
    eventId := o.eventId
    eventType := o.eventType
    payload := o.payload
    attemptCount := o.attemptCount + 1
    maxAttempts := o.maxAttempts
    replayOfDeliveryId := o.replayOfDeliveryId
    webhook }
  pure (claimed, { db with outbox := update (fun r => r.id = o.id) (fun r => r.claimed db.now) db.outbox })

/-! ## 試みの記録 -/

structure DeliveryAttempt where
  ok : Bool
  statusCode : Option Nat
  errorMessage : Option String
  secretVersion : Nat
  deriving DecidableEq

def failedAttempt (claimed : ClaimedDelivery) (message : String) : DeliveryAttempt :=
  { ok := false, statusCode := none, errorMessage := some message, secretVersion := claimed.webhook.secretVersion }

def completedAttempt (claimed : ClaimedDelivery) (status : Nat) : DeliveryAttempt :=
  let ok := 200 ≤ status ∧ status < 300
  { ok := ok
    statusCode := some status
    errorMessage := if ok then none else some ("Webhook returned HTTP " ++ toString status)
    secretVersion := claimed.webhook.secretVersion }

def exhausted (claimed : ClaimedDelivery) (attempt : DeliveryAttempt) : Bool :=
  !attempt.ok && claimed.maxAttempts ≤ claimed.attemptCount

def attemptStatuses (claimed : ClaimedDelivery) (attempt : DeliveryAttempt) : DeliveryStatus × OutboxStatus :=
  (if attempt.ok then .delivered else if exhausted claimed attempt then .deadLettered else .failed,
   if attempt.ok then .delivered else if exhausted claimed attempt then .deadLettered else .retryScheduled)

def retryDelay (attemptCount : Nat) : Nat :=
  retryDelaysSeconds.getD (min (attemptCount - 1) (retryDelaysSeconds.length - 1)) 0

def OutboxRow.settled (o : OutboxRow) (now : Timestamp) (claimed : ClaimedDelivery) (attempt : DeliveryAttempt) : OutboxRow :=
  let status := (attemptStatuses claimed attempt).2
  { o with
    status
    nextAttemptAt := if status = .retryScheduled then now + seconds (retryDelay claimed.attemptCount) else o.nextAttemptAt
    lockedAt := none
    lastError := attempt.errorMessage }

/-- 行は番号だけで選び、今の状態は問わない。 -/
def persistDeliveryAttempt (claimed : ClaimedDelivery) (deliveryId : Uuid) (attempt : DeliveryAttempt) :
    Except WebhookError Db := do
  require (¬ db.deliveries.any fun d => d.outboxId = claimed.outboxId ∧ d.attempt = claimed.attemptCount)
    (.uniqueViolation "webhook_deliveries_outbox_id_attempt_key")
  let delivery := {
    id := deliveryId
    outboxId := claimed.outboxId
    projectRef := claimed.webhook.projectRef
    webhookId := claimed.webhook.id
    attempt := claimed.attemptCount
    status := (attemptStatuses claimed attempt).1
    statusCode := attempt.statusCode
    error := attempt.errorMessage
    secretVersion := attempt.secretVersion
    completedAt := db.now }
  pure { db with
    deliveries := delivery :: db.deliveries
    outbox := update (fun o => o.id = claimed.outboxId) (fun o => o.settled db.now claimed attempt) db.outbox }

/-!
## 送り手と走行（processOneWebhookDelivery, workers/webhook-delivery.worker.ts）

受け持ち、送り、記録の間に、ほかの呼び出しや管理の操作が入る。送りの結果と、送り手がどこで止まるかは、出来事が決める。
-/

/-- 呼び出しの進み。`requested` は、`fetchImpl` を呼んで返事を待っている。 -/
inductive Stage where
  | claimed
  | requested
  | attempted (attempt : DeliveryAttempt)
  deriving DecidableEq

def Stage.attempt? : Stage → Option DeliveryAttempt
  | .attempted attempt => some attempt
  | .claimed | .requested => none

structure Flight where
  call : Nat
  claimed : ClaimedDelivery
  deliveryId : Uuid
  stage : Stage

structure Request where
  outboxId : Uuid
  attempt : Nat
  deliveryId : Uuid

structure World where
  db : Db
  flights : List Flight
  nextCall : Nat
  requests : List Request

def World.empty (now : Timestamp) : World :=
  { db := { now, uuid := 0, webhooks := [], secrets := [], outbox := [], deliveries := [] }
    flights := []
    nextCall := 0
    requests := [] }

inductive Refusal where
  | urlNotAllowed
  | secretUnavailable
  | thrown (message : String)
  deriving DecidableEq

def Refusal.message (claimed : ClaimedDelivery) : Refusal → String
  | .urlNotAllowed => "webhook url is not allowed"
  | .secretUnavailable => "Managed webhook signing secret is unavailable for " ++ toString claimed.webhook.id
  | .thrown message => message

inductive Event where
  | tick (elapsed : Nat)
  | createWebhook (projectRef url : String) (events : List String) (enabled : Bool)
  | updateWebhook (projectRef : String) (webhookId : Uuid) (url : Option String) (events : Option (List String))
      (enabled : Option Bool)
  | rotateSecret (projectRef : String) (webhookId : Uuid)
  | deleteWebhook (projectRef : String) (webhookId : Uuid)
  | enqueueEvent (projectRef : String) (item : NewItem)
  | enqueueTest (projectRef : String) (webhookId : Uuid) (nonce : String)
  | replayDelivery (projectRef : String) (webhookId deliveryId : Uuid) (nonce : String)
  | claim (skip : List Uuid)
  | refuse (call : Nat) (refusal : Refusal)
  | request (call : Nat)
  | fetchFailed (call : Nat) (message : String)
  | respond (call : Nat) (status : Nat)
  | bodyFailed (call : Nat)
  | persist (call : Nat)
  | persistFailed (call : Nat)
  | crash (call : Nat)

variable (w : World) (call : Nat)

def World.flight : Option Flight := w.flights.find? fun f => f.call = call

def World.drop : World := { w with flights := w.flights.filter fun f => f.call ≠ call }

def World.setStage (stage : Stage) : World :=
  { w with flights := update (fun f => f.call = call) (fun f => { f with stage }) w.flights }

def World.transact (x : Except WebhookError Db) : World :=
  match x with
  | .ok db => { w with db }
  | .error _ => w

def World.claim (skip : List Uuid) : World :=
  match claimNextDelivery w.db skip with
  | none => w
  | some (claimed, db) =>
    { w with
      db := { db with uuid := db.uuid + 1 }
      flights := { call := w.nextCall, claimed, deliveryId := db.uuid, stage := .claimed } :: w.flights
      nextCall := w.nextCall + 1 }

def World.refuse (refusal : Refusal) : World :=
  match w.flight call with
  | some { stage := .claimed, claimed, .. } =>
    if refusal = .secretUnavailable ∧ claimed.webhook.id ∈ w.db.secrets then w
    else w.setStage call (.attempted (failedAttempt claimed (refusal.message claimed)))
  | _ => w

def World.request : World :=
  match w.flight call with
  | some { stage := .claimed, claimed, deliveryId, .. } =>
    if claimed.webhook.id ∈ w.db.secrets then
      { w.setStage call .requested with
        requests := { outboxId := claimed.outboxId, attempt := claimed.attemptCount, deliveryId } :: w.requests }
    else w
  | _ => w

def World.fetchFailed (message : String) : World :=
  match w.flight call with
  | some { stage := .requested, claimed, .. } => w.setStage call (.attempted (failedAttempt claimed message))
  | _ => w

def World.respond (status : Nat) : World :=
  match w.flight call with
  | some { stage := .requested, claimed, .. } => w.setStage call (.attempted (completedAttempt claimed status))
  | _ => w

/-- 返事の本文を読む途中の例外は、`sendDelivery` の `catch` に届かず、`processOneWebhookDelivery` から出ていく。 -/
def World.bodyFailed : World :=
  match w.flight call with
  | some { stage := .requested, .. } => w.drop call
  | _ => w

def World.persist : World :=
  match w.flight call with
  | some { stage := .attempted attempt, claimed, deliveryId, .. } =>
    (w.transact (persistDeliveryAttempt w.db claimed deliveryId attempt)).drop call
  | _ => w

def World.persistFailed : World :=
  match w.flight call with
  | some { stage := .attempted _, .. } => w.drop call
  | _ => w

def step : Event → World
  | .tick elapsed => { w with db := { w.db with now := w.db.now + elapsed } }
  | .createWebhook projectRef url events enabled => w.transact (createWebhook w.db projectRef url events enabled)
  | .updateWebhook projectRef webhookId url events enabled =>
    w.transact (updateWebhook w.db projectRef webhookId url events enabled)
  | .rotateSecret projectRef webhookId => w.transact (rotateSecret w.db projectRef webhookId)
  | .deleteWebhook projectRef webhookId => w.transact (deleteWebhook w.db projectRef webhookId)
  | .enqueueEvent projectRef item => w.transact (enqueueEvent w.db projectRef item)
  | .enqueueTest projectRef webhookId nonce => w.transact (enqueueTest w.db projectRef webhookId nonce)
  | .replayDelivery projectRef webhookId deliveryId nonce =>
    w.transact (replayDelivery w.db projectRef webhookId deliveryId nonce)
  | .claim skip => w.claim skip
  | .refuse call refusal => w.refuse call refusal
  | .request call => w.request call
  | .fetchFailed call message => w.fetchFailed call message
  | .respond call status => w.respond call status
  | .bodyFailed call => w.bodyFailed call
  | .persist call => w.persist call
  | .persistFailed call => w.persistFailed call
  | .crash call => w.drop call

def reached (now : Timestamp) (es : List Event) : World := run step (World.empty now) es

/-!
## 同じ鍵の知らせ

鍵は Webhook ごとに一度だけ行になり、知らせの番号は呼び出しごとに決まる。
-/

inductive Operation where
  | createWebhook (url : String) (events : List String) (enabled : Bool)
  | updateWebhook (webhookId : Uuid) (url : Option String) (events : Option (List String)) (enabled : Option Bool)
  | deleteWebhook (webhookId : Uuid)
  | enqueueEvent (item : NewItem)
  | wait (elapsed : Nat)

def Operation.event : Operation → Event
  | .createWebhook url events enabled => .createWebhook projectRef url events enabled
  | .updateWebhook webhookId url events enabled => .updateWebhook projectRef webhookId url events enabled
  | .deleteWebhook webhookId => .deleteWebhook projectRef webhookId
  | .enqueueEvent item => .enqueueEvent projectRef item
  | .wait elapsed => .tick elapsed

def perform (op : Operation) : World := step w (op.event projectRef)

structure EventIdentity where
  eventId : Uuid
  eventType : String
  payload : String
  deriving DecidableEq

def OutboxRow.event (o : OutboxRow) : EventIdentity := { eventId := o.eventId, eventType := o.eventType, payload := o.payload }

def NewItem.event (item : NewItem) : EventIdentity := { eventId := item.eventId, eventType := item.eventType, payload := item.payload }

def SameEvent : Prop :=
  ∀ o ∈ w.db.outbox, ∀ o' ∈ w.db.outbox, o.projectRef = projectRef → o'.projectRef = projectRef →
    o.idempotencyKey = o'.idempotencyKey → o.event = o'.event

def OncePerWebhook : Prop :=
  ∀ webhookId key, (w.db.outbox.countP fun o => o.projectRef = projectRef ∧ o.webhookId = webhookId ∧ o.idempotencyKey = key) ≤ 1

/-- 新しい行を足す登録は、同じ鍵の行があれば、その知らせと同じ番号、種類、中身を持つ。 -/
def RepeatsEvent : Operation → Prop
  | .enqueueEvent item =>
    newSubscriptions w.db projectRef item ≠ [] →
      (w.db.outbox.countP fun o => o.projectRef = projectRef ∧ o.status.unfinished) + (newSubscriptions w.db projectRef item).length ≤
        maxUnfinishedOutboxItems →
      ∀ o ∈ w.db.outbox, o.projectRef = projectRef → o.idempotencyKey = item.idempotencyKey → o.event = item.event
  | _ => True

end Supacloud.Webhooks
