import Supacloud.Library.Lists
import Supacloud.Realtime.Presence

/-!
# 接続と話題の集まり（realtime-gateway/src/broadcast.rs）

送る先の列（`tx`）の代わりに、送った伝言の列を返す。回る順の決まっていない集合は、列の順に回る。
-/

namespace Supacloud.Realtime

open Library

structure PostgresChangeSubscription (F : Type) where
  id : Option Text
  event : Text
  schema : Text
  table : Option Text
  filter : Option (ColumnFilter F)

structure TopicSubscriptionConfig (F : Type) where
  joinRef : Option Text
  broadcastSelf : Bool
  broadcastAck : Bool
  presenceKey : Option Text
  postgresChanges : List (PostgresChangeSubscription F)

structure ConnectionState (F : Type) where
  id : ConnectionId
  tenantId : Text
  role : Text
  subscriptions : HashMap Text (TopicSubscriptionConfig F)

structure PostgresChangeEvent where
  schema : Text
  table : Text
  changeType : Text
  record : Value
  oldRecord : Option Value
  columns : Option Value
  commitTimestamp : Option Text

structure ChannelHub (F : Type) where
  connections : HashMap ConnectionId (ConnectionState F)
  topicSubscribers : HashMap Text (List ConnectionId)
  presence : PresenceManager

structure Delivery where
  tenantId : Text
  recipient : ConnectionId
  message : PhoenixV2Message

variable {F : Type}

def ChannelHub.new : ChannelHub F := { connections := ∅, topicSubscribers := ∅, presence := .new }

namespace ChannelHub

variable (hub : ChannelHub F) (connectionId : ConnectionId) (tenantId topic : Text)

def addConnection (role : Text) : ChannelHub F :=
  { hub with connections := hub.connections.insert connectionId { id := connectionId, tenantId, role, subscriptions := ∅ } }

def subscribe (config : TopicSubscriptionConfig F) : ChannelHub F :=
  let key := topicKey tenantId topic
  { hub with
    connections := adjust hub.connections connectionId fun conn => { conn with subscriptions := conn.subscriptions.insert topic config }
    topicSubscribers := hub.topicSubscribers.insert key (((hub.topicSubscribers.lookup key).getD []).insert connectionId) }

/-- 話題の購読者から接続を除く。購読者がいなくなれば、話題も除く。 -/
def dropSubscriber (topics : HashMap Text (List ConnectionId)) (key : Text) : HashMap Text (List ConnectionId) :=
  match topics.lookup key with
  | none => topics
  | some subs =>
    let rest := subs.filter fun c => c ≠ connectionId
    if rest = [] then topics.erase key else topics.insert key rest

def unsubscribe : Option PresenceDiff × ChannelHub F :=
  let connections := adjust hub.connections connectionId fun conn => { conn with subscriptions := conn.subscriptions.erase topic }
  let (diff, presence) := hub.presence.untrack tenantId connectionId topic
  (diff, { connections, topicSubscribers := dropSubscriber connectionId hub.topicSubscribers (topicKey tenantId topic), presence })

def untrackTopics : List Text → PresenceManager → List (Text × PresenceDiff) × PresenceManager
  | [], presence => ([], presence)
  | topic :: topics, presence =>
    let (diff, presence) := presence.untrack tenantId connectionId topic
    let (diffs, presence) := untrackTopics topics presence
    (diff.toList.map (topic, ·) ++ diffs, presence)

def removeConnection : List (Text × PresenceDiff) × ChannelHub F :=
  match hub.connections.lookup connectionId with
  | none => ([], hub)
  | some conn =>
    let connections := hub.connections.erase connectionId
    if conn.tenantId = [] then ([], { hub with connections })
    else
      let joinedTopics := conn.subscriptions.keys
      let topicSubscribers := joinedTopics.foldl (fun topics topic => dropSubscriber connectionId topics (topicKey conn.tenantId topic))
        hub.topicSubscribers
      let (diffs, presence) := untrackTopics connectionId conn.tenantId joinedTopics hub.presence
      (diffs, { connections, topicSubscribers, presence })

def sendToConnection (message : PhoenixV2Message) : List Delivery :=
  if (hub.connections.lookup connectionId).isSome then [{ tenantId, recipient := connectionId, message }] else []

def sendToTopic (senderId : Option ConnectionId) (message : PhoenixV2Message) : List Delivery :=
  ((hub.topicSubscribers.lookup (topicKey tenantId topic)).getD []).filterMap fun recipient =>
    (hub.connections.lookup recipient).bind fun conn =>
      let selfAllowed := (conn.subscriptions.lookup topic).any TopicSubscriptionConfig.broadcastSelf
      if senderId = some recipient ∧ selfAllowed = false then none else some { tenantId, recipient, message }

def broadcast (senderId : Option ConnectionId) (payload : Value) : List Delivery :=
  hub.sendToTopic tenantId topic senderId (.broadcast topic payload)

def trackPresence (serde : Serde F) (key : Option Text) (payload : Value) (phxRef : Text) : PresenceDiff × ChannelHub F :=
  let (diff, presence) := hub.presence.track serde tenantId connectionId topic key payload phxRef
  (diff, { hub with presence })

def untrackPresence : Option PresenceDiff × ChannelHub F :=
  let (diff, presence) := hub.presence.untrack tenantId connectionId topic
  (diff, { hub with presence })

def getPresenceState : Value := hub.presence.getState tenantId topic

end ChannelHub

/-! ## 変更の知らせ -/

/-- 絞り込みを当てる行。消した行は、前の値である。 -/
def PostgresChangeEvent.target (change : PostgresChangeEvent) : Value :=
  if eqIgnoreAsciiCase change.changeType "DELETE".toList then change.oldRecord.getD change.record else change.record

def PostgresChangeSubscription.selects (serde : Serde F) (change : PostgresChangeEvent) (pcs : PostgresChangeSubscription F) : Bool :=
  (pcs.event = "*".toList || eqIgnoreAsciiCase pcs.event change.changeType) &&
    (pcs.schema = "*".toList || pcs.schema = change.schema) &&
    pcs.table.all (fun tbl => tbl = "*".toList || tbl = change.table) &&
    pcs.filter.all fun flt => flt.matches serde change.target

def matchedIds (serde : Serde F) (change : PostgresChangeEvent) (subscriptions : List (PostgresChangeSubscription F)) : List Text :=
  (subscriptions.filter (·.selects serde change)).map fun pcs => pcs.id.getD "0".toList

def changePayload (change : PostgresChangeEvent) (timestamp : Text) (ids : List Text) : Value :=
  .object [field "data" (.object [field "schema" (.string change.schema), field "table" (.string change.table),
      field "type" (.string change.changeType),
      field "commit_timestamp" (.string timestamp),
      field "record" change.record,
      field "old_record" (change.oldRecord.getD .null),
      field "columns" (change.columns.getD (.array [])),
      field "errors" (.array [])]),
    field "ids" (.array (ids.map .string))]

/-- テナントの接続の、変更に当たる購読のある話題ごとに送る。`now` は今の時刻の印字である。 -/
def ChannelHub.dispatchCdc (hub : ChannelHub F) (serde : Serde F) (tenantId : Text) (change : PostgresChangeEvent) (now : Text) :
    List Delivery :=
  hub.connections.entries.flatMap fun entry =>
    if entry.2.tenantId ≠ tenantId then []
    else entry.2.subscriptions.entries.filterMap fun sub =>
      let ids := matchedIds serde change sub.2.postgresChanges
      if ids = [] then none
      else some {
        tenantId
        recipient := entry.1
        message := .postgresChanges sub.1 (changePayload change (change.commitTimestamp.getD now) ids) }

/-!
## テナントの登録簿（realtime-gateway/src/tenant.rs）

JWT の中身の読み取りは、外の部品である。
-/

structure TenantConfig where
  id : Text
  externalId : Option Text
  jwtSecret : Text
  dbHost : Text
  dbPort : Nat
  dbName : Text
  dbUser : Text
  dbPassword : Text
  slotName : Option Text
  deriving DecidableEq

structure JwtClaims where
  role : Option Text
  sub : Option Text
  exp : Option Nat
  extra : List (Text × Value)

/-- JWT の部品。`decodeClaims` は base64 と JSON の読み取り、`verifySlice` は署名の検査である。 -/
structure Jwt where
  decodeClaims : Text → Option JwtClaims
  verifySlice : (secret signingInput signature : Text) → Bool
  now : Nat

structure TenantRegistry where
  tenants : HashMap Text TenantConfig
  globalJwtSecret : Option Text

def TenantRegistry.new (globalJwtSecret : Option Text) : TenantRegistry := { tenants := ∅, globalJwtSecret }

namespace TenantRegistry

variable (registry : TenantRegistry)

def register (config : TenantConfig) : TenantRegistry :=
  let map := config.externalId.elim registry.tenants fun ext => registry.tenants.insert ext config
  { registry with tenants := map.insert config.id config }

def get (id : Text) : Option TenantConfig := registry.tenants.lookup id

def remove (id : Text) : Option TenantConfig × TenantRegistry :=
  match registry.tenants.lookup id with
  | none => (none, registry)
  | some tenant =>
    let map := registry.tenants.erase id
    let map := tenant.externalId.elim map fun ext => map.erase ext
    (some tenant, { registry with tenants := map })

end TenantRegistry

def segments (token : Text) : List Text := token.splitOn '.'

def decodeJwtUnverified (jwt : Jwt) (token : Text) : Option JwtClaims :=
  match segments token with
  | [_, payload, _] => jwt.decodeClaims payload
  | _ => none

def TenantRegistry.verifyJwt (registry : TenantRegistry) (jwt : Jwt) (token : Text) (tenantSecret : Option Text) : Option JwtClaims := do
  let [header, payload, signature] := segments token | none
  let secrets := (tenantSecret.toList ++ registry.globalJwtSecret.toList).filter (· ≠ [])
  if secrets.any fun secret => jwt.verifySlice secret (header ++ ['.'] ++ payload) signature then
    let claims ← decodeJwtUnverified jwt token
    if claims.exp.any fun exp => exp < jwt.now then none else some claims
  else none

/-- `claims.extra.get("ref").as_str()` -/
def refClaim (claims : JwtClaims) : Option Text := (Value.object claims.extra).get "ref" >>= Value.asStr

/-- 候補の文字列を、名、最初の区切りまで、JWT の `ref` の順に引く。 -/
def TenantRegistry.resolveTenant (registry : TenantRegistry) (jwt : Jwt) (candidate : Text) : Option TenantConfig :=
  if candidate = [] then none
  else (registry.get candidate).or <| ((segments candidate).head?.bind registry.get).or <|
    ((decodeJwtUnverified jwt candidate).bind refClaim).bind registry.get

/-! ## 登録と取り消しの列 -/

inductive RegistryCall where
  | register (config : TenantConfig)
  | remove (id : Text)

/-- 登録簿と、テナントごとの最後の登録。取り消したテナントの登録はない。 -/
structure Directory where
  registry : TenantRegistry
  latest : Text → Option TenantConfig

def Directory.new (globalJwtSecret : Option Text) : Directory := { registry := .new globalJwtSecret, latest := fun _ => none }

def Directory.step (d : Directory) : RegistryCall → Directory
  | .register config => { registry := d.registry.register config, latest := Function.update d.latest config.id (some config) }
  | .remove id =>
    match d.registry.remove id with
    | (none, _) => d
    | (some tenant, registry) => { registry, latest := Function.update d.latest tenant.id none }

def Directory.Current (d : Directory) : Prop :=
  ∀ key config, d.registry.get key = some config → (config.id = key ∨ config.externalId = some key) ∧ d.latest config.id = some config

def Directory.Gone (d : Directory) : Prop :=
  ∀ id, d.latest id = none → ∀ jwt candidate config,
    d.registry.get candidate = some config ∨ d.registry.resolveTenant jwt candidate = some config → config.id ≠ id

/-- 書き換えまたは消す二つの名のほかに、そのテナントの設定を引く名がない。 -/
def TenantRegistry.Covers (registry : TenantRegistry) (id name : Text) (externalId : Option Text) : Prop :=
  ∀ key config, registry.get key = some config → config.id = id → key = name ∨ some key = externalId

/-- 登録は、そのテナントの名をすべて書き換え、取り消しは、そのテナントの名をすべて消す。 -/
def Directory.Covered (d : Directory) : RegistryCall → Prop
  | .register config => d.registry.Covers config.id config.id config.externalId
  | .remove id => ∀ tenant, d.registry.get id = some tenant → d.registry.Covers tenant.id id tenant.externalId

/-!
## 接続の受け持ち（realtime-gateway/src/server.rs）

伝言は、一つずつ終わりまで処理する。
-/

def emptyObject : Value := .object []

def joinConfig (payload : Value) : Value := (payload.get "config").getD emptyObject

/-- `postgres_changes` の項目と、その番号。 -/
def changeItems (payload : Value) : List (Value × Nat) :=
  ((((joinConfig payload).get "postgres_changes").bind Value.asArray).getD []).zipIdx.filter fun item => item.1.asObject.isSome

def itemId (serde : Serde F) (item : Value × Nat) : Text :=
  ((item.1.get "id").map (displayed serde)).getD (toString item.2).toList

def itemText (item : Value) (key : String) : Option Text := (item.get key).bind Value.asStr

def changeSubscription (serde : Serde F) (item : Value × Nat) : PostgresChangeSubscription F where
  id := some (itemId serde item)
  event := (itemText item.1 "event").getD "*".toList
  schema := (itemText item.1 "schema").getD "public".toList
  table := itemText item.1 "table"
  filter := (itemText item.1 "filter").bind (ColumnFilter.parse serde)

def changeSubscriptions (serde : Serde F) (payload : Value) : List (PostgresChangeSubscription F) :=
  (changeItems payload).map (changeSubscription serde)

def subscriptionConfig (serde : Serde F) (joinRef : Option Text) (payload : Value) : TopicSubscriptionConfig F :=
  let flag (name : String) := ((((joinConfig payload).get "broadcast").bind (·.get name)).bind Value.asBool).getD false
  { joinRef
    broadcastSelf := flag "self"
    broadcastAck := flag "ack"
    presenceKey := ((((joinConfig payload).get "presence").bind (·.get "key")).bind Value.asStr)
    postgresChanges := changeSubscriptions serde payload }

/-! ## 伝言の処理 -/

def privileged (role : Text) : Bool := role = "service_role".toList || role = "supabase_admin".toList

def joinRefused (serde : Serde F) (role : Text) (payload : Value) : Bool :=
  (changeSubscriptions serde payload).isEmpty = false && !privileged role

def presenceDiffMessage (topic : Text) (diff : PresenceDiff) : PhoenixV2Message :=
  .presenceDiff topic (.object (diff.joins.entries.map fun e => (e.1, e.2))) (.object (diff.leaves.entries.map fun e => (e.1, e.2)))

structure Session where
  connectionId : ConnectionId
  tenantId : Text
  role : Text

section Handlers

variable (serde : Serde F) (jwt : Jwt) (registry : TenantRegistry) (hub : ChannelHub F) (session : Session) (msg : PhoenixV2Message)

def directReply (status : String) (response : Value) : List Delivery :=
  hub.sendToConnection session.connectionId session.tenantId (.reply msg.joinRef msg.reference msg.topic status response)

def replyIfAsked (status : String) (response : Value) : List Delivery :=
  if msg.reference.isSome then directReply hub session msg status response else []

def sendDiff (topic : Text) (diff : PresenceDiff) : List Delivery :=
  hub.sendToTopic session.tenantId topic none (presenceDiffMessage topic diff)

def handleJoin : ChannelHub F × List Delivery :=
  if joinRefused serde session.role msg.payload then
    (hub, directReply hub session msg "error" (.object [field "reason" (.string
      "postgres_changes requires service_role until per-tenant RLS filtering is implemented".toList)]))
  else
    let joined := hub.subscribe session.connectionId session.tenantId msg.topic (subscriptionConfig serde msg.joinRef msg.payload)
    let ids := (changeItems msg.payload).map fun item => Value.object [field "id" (.string (itemId serde item))]
    let presState := joined.getPresenceState session.tenantId msg.topic
    (joined, directReply joined session msg "ok" (.object [field "postgres_changes" (.array ids)]) ++
      if presState.isEmptyObject then []
      else joined.sendToConnection session.connectionId session.tenantId (.presenceState msg.topic presState))

def handleLeave : ChannelHub F × List Delivery :=
  let (diff, left) := hub.unsubscribe session.connectionId session.tenantId msg.topic
  (left, diff.elim [] (sendDiff left session msg.topic) ++ directReply left session msg "ok" emptyObject)

def handleBroadcast : ChannelHub F × List Delivery :=
  (hub, hub.broadcast session.tenantId msg.topic (some session.connectionId) msg.payload ++ replyIfAsked hub session msg "ok" emptyObject)

/-- `phxRef` は、この呼び出しで作る `phx_ref` である。 -/
def handlePresence (phxRef : Text) : ChannelHub F × List Delivery :=
  let presType := itemText msg.payload "event"
  if presType = some "track".toList then
    let payload := (msg.payload.get "payload").getD emptyObject
    let (diff, tracked) := hub.trackPresence session.connectionId session.tenantId msg.topic serde none payload phxRef
    (tracked, sendDiff tracked session msg.topic diff ++ replyIfAsked tracked session msg "ok" emptyObject)
  else if presType = some "untrack".toList then
    let (diff, untracked) := hub.untrackPresence session.connectionId session.tenantId msg.topic
    (untracked, diff.elim [] (sendDiff untracked session msg.topic) ++ replyIfAsked untracked session msg "ok" emptyObject)
  else (hub, [])

def handleAccessToken : ChannelHub F × List Delivery :=
  let token := (itemText msg.payload "access_token").getD []
  let tenantSecret := (registry.get session.tenantId).map TenantConfig.jwtSecret
  let valid := token ≠ [] ∧ (registry.verifyJwt jwt token tenantSecret).isSome
  (hub, if valid then replyIfAsked hub session msg "ok" emptyObject
    else replyIfAsked hub session msg "error" (.object [field "reason" (.string "invalid access_token".toList)]))

def handleClientMessage (phxRef : Text) : ChannelHub F × List Delivery :=
  if msg.topic = "phoenix".toList ∧ msg.event = "heartbeat".toList then
    (hub, hub.sendToConnection session.connectionId session.tenantId (.reply none msg.reference "phoenix".toList "ok" emptyObject))
  else if msg.event = "phx_join".toList then handleJoin serde hub session msg
  else if msg.event = "phx_leave".toList then handleLeave hub session msg
  else if msg.event = "broadcast".toList then handleBroadcast hub session msg
  else if msg.event = "presence".toList then handlePresence serde hub session msg phxRef
  else if msg.event = "access_token".toList then handleAccessToken jwt registry hub session msg
  else (hub, replyIfAsked hub session msg "ok" emptyObject)

def handleDisconnect : ChannelHub F × List Delivery :=
  let (diffs, removed) := hub.removeConnection session.connectionId
  (removed, diffs.flatMap fun diff => sendDiff removed session diff.1 diff.2)

end Handlers

/-! ## 全体の動き -/

inductive Event where
  | connect (tenantId role : Text)
  | message (connectionId : ConnectionId) (msg : PhoenixV2Message) (phxRef : Text)
  | disconnect (connectionId : ConnectionId)
  | apiBroadcast (tenantId topic : Text) (payload : Value)
  | ingestCdc (tenantId : Text) (change : PostgresChangeEvent) (now : Text)
  | registryCall (call : RegistryCall)

/-- `sockets` は切れていない接続、`opened` はこれまでの接続、`sent` はこれまでに送った伝言である。 -/
structure Gateway (F : Type) where
  hub : ChannelHub F
  registry : TenantRegistry
  sockets : HashMap ConnectionId Session
  opened : HashMap ConnectionId Session
  connCounter : ConnectionId
  sent : List Delivery

namespace Gateway

def start (registry : TenantRegistry) : Gateway F where
  hub := .new
  registry
  sockets := ∅
  opened := ∅
  connCounter := 1
  sent := []

def connect (w : Gateway F) (tenantId role : Text) : Gateway F :=
  let session := { connectionId := w.connCounter, tenantId, role : Session }
  { w with
    hub := w.hub.addConnection w.connCounter tenantId role
    sockets := w.sockets.insert w.connCounter session
    opened := w.opened.insert w.connCounter session
    connCounter := w.connCounter + 1 }

def receive (serde : Serde F) (jwt : Jwt) (w : Gateway F) (session : Session) (msg : PhoenixV2Message) (phxRef : Text) : Gateway F :=
  let (hub, sent) := handleClientMessage serde jwt w.registry w.hub session msg phxRef
  { w with hub, sent := w.sent ++ sent }

def disconnect (w : Gateway F) (session : Session) : Gateway F :=
  let (hub, sent) := handleDisconnect w.hub session
  { w with hub, sockets := w.sockets.erase session.connectionId, sent := w.sent ++ sent }

def registryAfter (registry : TenantRegistry) : RegistryCall → TenantRegistry
  | .register config => registry.register config
  | .remove id => (registry.remove id).2

def step (serde : Serde F) (jwt : Jwt) (w : Gateway F) : Event → Gateway F
  | .connect tenantId role => w.connect tenantId role
  | .message connectionId msg phxRef => (w.sockets.lookup connectionId).elim w fun session => w.receive serde jwt session msg phxRef
  | .disconnect connectionId => (w.sockets.lookup connectionId).elim w w.disconnect
  | .apiBroadcast tenantId topic payload => { w with sent := w.sent ++ w.hub.broadcast tenantId topic none payload }
  | .ingestCdc tenantId change now => { w with sent := w.sent ++ w.hub.dispatchCdc serde tenantId change now }
  | .registryCall call => { w with registry := registryAfter w.registry call }

end Gateway

/-! ## 参加の記録 -/

/-- 絞り込みの文字列が受け付けられる。文字列のない項目には、絞り込みがない。 -/
def filterAccepted (serde : Serde F) (item : Value × Nat) : Bool :=
  (itemText item.1 "filter").all fun filter => (ColumnFilter.parse serde filter).isSome

/-- 項目が変更に当たる。絞り込みの文字列があれば、それが受け付けられ、行に当たる。 -/
def itemFits (serde : Serde F) (change : PostgresChangeEvent) (item : Value × Nat) : Bool :=
  let event := (itemText item.1 "event").getD "*".toList
  let schema := (itemText item.1 "schema").getD "public".toList
  (event = "*".toList || eqIgnoreAsciiCase event change.changeType) && (schema = "*".toList || schema = change.schema) &&
    (itemText item.1 "table").all (fun table => table = "*".toList || table = change.table) &&
    (itemText item.1 "filter").all fun filter => (ColumnFilter.parse serde filter).any (·.matches serde change.target)

def fittingIds (serde : Serde F) (change : PostgresChangeEvent) (payload : Value) : List Value :=
  ((changeItems payload).filter (itemFits serde change)).map fun item => .string (itemId serde item)

def idsOf (payload : Value) : List Value := ((payload.get "ids").bind Value.asArray).getD []

structure Recorded (F : Type) where
  gateway : Gateway F
  joins : HashMap (ConnectionId × Text) Value

namespace Recorded

def start (registry : TenantRegistry) : Recorded F := { gateway := .start registry, joins := ∅ }

def accepts (serde : Serde F) (session : Session) (msg : PhoenixV2Message) : Bool :=
  msg.event = "phx_join".toList && !joinRefused serde session.role msg.payload

def joinsAfter (serde : Serde F) (r : Recorded F) : Event → HashMap (ConnectionId × Text) Value
  | .message connectionId msg _ => (r.gateway.sockets.lookup connectionId).elim r.joins fun session =>
    if accepts serde session msg then r.joins.insert (connectionId, msg.topic) msg.payload else r.joins
  | _ => r.joins

def step (serde : Serde F) (jwt : Jwt) (r : Recorded F) (e : Event) : Recorded F :=
  { gateway := r.gateway.step serde jwt e, joins := r.joinsAfter serde e }

/-- どの変更の知らせにも、最後の参加の、変更に当たる項目だけが載る。 -/
def FailsClosed (serde : Serde F) (r : Recorded F) : Prop :=
  ∀ tenantId change now, ∀ d ∈ r.gateway.hub.dispatchCdc serde tenantId change now,
    ∃ payload, r.joins.lookup (d.recipient, d.message.topic) = some payload ∧
      (idsOf d.message.payload).Sublist (fittingIds serde change payload)

/-- 行の変更の購読を許された接続の参加では、どの絞り込みの文字列も受け付けられる。 -/
def FiltersAccepted (serde : Serde F) (r : Recorded F) : Event → Prop
  | .message connectionId msg _ => msg.event = "phx_join".toList →
      ∀ session, r.gateway.sockets.lookup connectionId = some session → privileged session.role →
        ∀ item ∈ changeItems msg.payload, filterAccepted serde item
  | _ => True

end Recorded

/-! ## 在席の呼び出しの列 -/

namespace PresenceManager

def stripTopicKey (tenantId key : Text) : Text :=
  let scope := topicKey tenantId []
  if scope <+: key then key.drop scope.length else key

/-- `HashMap` の鍵の順は決まっていないので、`order` で並べる。 -/
def untrackAll (manager : PresenceManager) (tenantId : Text) (connectionId : ConnectionId)
    (order : List (Text × ConnectionId) → List (Text × ConnectionId)) : List (Text × PresenceDiff) × PresenceManager :=
  let keysToRemove := order <| manager.connectionPresences.keys.filter fun connKey =>
    connKey.2 = connectionId && stripTopicKey tenantId connKey.1 ≠ connKey.1
  let (diffs, manager) := ChannelHub.untrackTopics connectionId tenantId (keysToRemove.map fun connKey => stripTopicKey tenantId connKey.1) manager
  (diffs.filter fun diff => !diff.2.leaves.entries.isEmpty, manager)

end PresenceManager

inductive StoreCall where
  | track (tenantId : Text) (connectionId : ConnectionId) (topic : Text) (key : Option Text) (payload : Value) (phxRef : Text)
  | untrack (tenantId : Text) (connectionId : ConnectionId) (topic : Text)
  | untrackAll (tenantId : Text) (connectionId : ConnectionId) (order : List (Text × ConnectionId) → List (Text × ConnectionId))

def StoreCall.phxRef? : StoreCall → Option Text
  | .track _ _ _ _ _ phxRef => some phxRef
  | _ => none

def PresenceManager.step {F : Type} (serde : Serde F) (manager : PresenceManager) : StoreCall → PresenceManager
  | .track tenantId connectionId topic key payload phxRef => (manager.track serde tenantId connectionId topic key payload phxRef).2
  | .untrack tenantId connectionId topic => (manager.untrack tenantId connectionId topic).2
  | .untrackAll tenantId connectionId order => (manager.untrackAll tenantId connectionId order).2

end Supacloud.Realtime
