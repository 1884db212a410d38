import Mathlib.Algebra.GroupWithZero.Nat
import Supacloud.RealtimeProxy.Service

/-!
# 実時間の中継の接続（services/realtime-proxy-session.ts）

`await` で止まった続きは待ちの列に置き、どの順にも進む。期限や打ち切りによる失敗も、いつでも起きる。フレームの大きさと、
送信が失敗するかどうかは、任意に決まっている。
-/

namespace Supacloud.RealtimeProxy

open Contracts (JsString)

open Vectors (js)

abbrev Payload := List (JsString × Json)

inductive EventName where
  | heartbeat
  | join
  | leave
  | accessToken
  | reply
  | error
  | close
  | postgresChanges
  | other (name : JsString)
  deriving DecidableEq

structure PhoenixMessage where
  joinRef : Option JsString
  ref : Option JsString
  topic : JsString
  event : EventName
  payload : Payload
  deriving DecidableEq

/-- クライアントから届いたフレームの番号の記録。`early` は、鍵を調べる間に届いたことである。 -/
structure Stamp where
  seq : Nat
  early : Bool

/-- 送るフレーム。`stamp` は、クライアントから届いたものの番号で、中継が作ったものは none である。 -/
inductive Frame where
  | text (message : PhoenixMessage) (stamp : Option Stamp)
  | binary (bytes : List UInt8)

inductive Raw where
  | invalid
  | text (message : PhoenixMessage)
  | binary (bytes : List UInt8)

def Frame.raw : Frame → Raw
  | .text message _ => .text message
  | .binary bytes => .binary bytes

def Frame.stamp : Frame → Option Stamp
  | .text _ stamp => stamp
  | .binary _ => none

inductive ReadyState where
  | connecting
  | opened
  | closing
  | closed
  deriving DecidableEq

/-- 外の部品。`bytes` は符号化したフレームの大きさ、`fails n` は n 番目の送信が例外になること、`isBroadcast` は
`isPhoenixBroadcastFrame`、`parseChange` は `parseRealtimeChange` である。 -/
structure Transport where
  filters : Filters
  bytes : Frame → Nat
  fails : Nat → Bool
  isClientBroadcast : List UInt8 → Bool
  isServerBroadcast : List UInt8 → Bool
  parseChange : Json → Option RealtimeChange

def maxConnectionsPerProject : Nat := 200

def maxBufferedFrames : Nat := 256

def maxRealtimeFrameBytes : Nat := 1024 * 1024

def maxChannels : Nat := 100

/-- チャネル。`generation` はオブジェクトの同一性、`ready` は約束の値で、none は待ちである。`handler` は `nativeId` とともに付く。 -/
structure Channel where
  generation : Nat
  join : PhoenixMessage
  changes : List PostgresChangeConfig
  token : JsString
  nativeId : Option Nat
  ready : Option Bool
  joined : Bool
  refreshVersion : Nat
  refreshing : Bool
  serverIds : List SubscriptionId
  bindings : List PostgresChangeConfig
  native : Bool
  joinTimer : Bool
  deriving DecidableEq

inductive StartStage where
  | calling
  | created (id : Nat)
  | settled (ok : Bool)
  deriving DecidableEq

/-- `startNative` の待ち。`resolved` は、`ready` の約束の値が決まったことである。 -/
structure Start where
  generation : Nat
  topic : JsString
  stage : StartStage
  resolved : Bool

/-- `access_token` の待ち。`replaying` は、先に届いたフレームの読み直しが待っていることである。 -/
structure Refresh where
  generation : Nat
  version : Nat
  message : PhoenixMessage
  token : JsString
  stamp : Stamp
  replaying : Bool
  allowed : Option Bool

structure Ack where
  generation : Nat
  message : PhoenixMessage

/-- 接続の引数。`requested` は、空でない、求めるプロジェクトの名である。 -/
structure Params where
  apiKey : JsString
  requested : List JsString

inductive Opening where
  | unopened
  | resolving (params : Params)
  | done

inductive CountCall where
  | set (ref : JsString) (count : Nat)
  | release (ref : JsString)

inductive BackendCall where
  | unsubscribe (id : Nat)
  | updateToken (id : Nat) (token : JsString)
  | registerIds (id : Nat) (ids : List SubscriptionId)

/-- 送ったときの、同じ話題のチャネルの様子。`awaiting` は、今の版の `access_token` が待っていることである。 -/
structure Standing where
  generation : Nat
  joined : Bool
  refreshing : Bool
  awaiting : Bool
  acknowledged : Bool

structure Sent where
  frame : Frame
  standing : Option Standing

/-- 接続の状態。`owned` と `listeners` はバックエンドに持つ購読状態と聞き手、`acknowledged` と
`forwarded` は参加の応答と上流に送ったフレームの記録、`counting`、`backend`、`sent`
は今の一歩の記録である。 -/
structure Session where
  closed : Bool
  opening : Opening
  projectRef : Option JsString
  apiKey : JsString
  presentedApiKey : JsString
  upstream : Option ReadyState
  buffered : List (Frame × Option JsString)
  channels : List (JsString × Channel)
  early : List Frame
  replay : List Frame
  connectionTimer : Bool
  starts : List Start
  refreshes : List Refresh
  acks : List Ack
  generations : Nat
  owned : List Nat
  lastId : Nat
  listeners : List (Nat × JsString × Nat)
  acknowledged : List Nat
  arrivals : Nat
  calls : Nat
  forwarded : List Frame
  counting : List CountCall
  backend : List BackendCall
  sent : List Sent

def Session.initial : Session :=
  { closed := false, opening := .unopened, projectRef := none, apiKey := [], presentedApiKey := [], upstream := none, buffered := [], channels := []
    early := [], replay := [], connectionTimer := false, starts := [], refreshes := [], acks := [], generations := 0, owned := [], lastId := 0
    listeners := [], acknowledged := [], arrivals := 0, calls := 0, forwarded := [], counting := [], backend := [], sent := [] }

/-! ## JSON の読み取り -/

def ChangeType.text : ChangeType → JsString
  | .insert => js "INSERT"
  | .update => js "UPDATE"
  | .delete => js "DELETE"

def asRecord : Json → Option Payload
  | .object entries => some entries
  | _ => none

def asText : Json → Option JsString
  | .string s => some s
  | _ => none

def asToken : Option Json → Option JsString
  | some (.string s) => if s = [] then none else some s
  | _ => none

def asId : Json → Option SubscriptionId
  | .string s => some (.text s)
  | .number q => if q.den = 1 ∧ 0 ≤ q.num then some (.number q.num.toNat) else none
  | _ => none

def setField (payload : Payload) (name : JsString) (value : Json) : Payload :=
  if payload.any (·.1 == name) then payload.map fun entry => if entry.1 = name then (name, value) else entry else payload ++ [(name, value)]

def idJson : SubscriptionId → Json
  | .text s => .string s
  | .number n => .number n

namespace Session

variable (transport : Transport) (s : Session)

variable (topic : JsString)

def channel : Option Channel := s.channels.lookup topic

def current (generation : Nat) : Option Channel :=
  if s.closed then none else (s.channel topic).filter (·.generation == generation)

def setChannel (channel : Channel) : Session :=
  { s with channels := s.channels.map fun entry => if entry.1 = topic then (topic, channel) else entry }

def release (channel : Channel) : Session :=
  match channel.nativeId, s.projectRef with
  | some id, some _ =>
    { s with
      listeners := s.listeners.filter fun l => l != (id, topic, channel.generation)
      owned := s.owned.filter fun owned => owned != id
      backend := s.backend ++ [BackendCall.unsubscribe id] }
  | _, _ => s

def removeChannel : Session :=
  match s.channel topic with
  | none => s
  | some channel => release { s with channels := s.channels.filter fun entry => entry.1 ≠ topic } topic channel

def standing : Option Standing :=
  (s.channel topic).map fun channel =>
    { generation := channel.generation, joined := channel.joined, refreshing := channel.refreshing
      awaiting := s.refreshes.any fun r => r.generation == channel.generation && r.version == channel.refreshVersion
      acknowledged := s.acknowledged.contains channel.generation }

def close : Session :=
  if s.closed then s
  else
    let s := { s with closed := true, connectionTimer := false }
    let s := (s.channels.map (·.1)).foldl removeChannel s
    let s := { s with buffered := [], early := [] }
    match s.projectRef with
    | none => s
    | some ref => { s with counting := s.counting ++ [CountCall.release ref] }

/-! ## 送信 -/

def bufferedBytes : Nat := (s.buffered.map fun entry => transport.bytes entry.1).sum

def forward (frame : Frame) (topic : Option JsString) : Session :=
  if s.closed then s
  else if transport.bytes frame > maxRealtimeFrameBytes then s.close
  else
    match s.upstream with
    | some .opened =>
      if transport.fails s.calls then close { s with calls := s.calls + 1 }
      else { s with calls := s.calls + 1, forwarded := s.forwarded ++ [frame] }
    | some .connecting =>
      if s.buffered.length ≥ maxBufferedFrames ∨ s.bufferedBytes transport + transport.bytes frame > maxRealtimeFrameBytes then s.close
      else { s with buffered := s.buffered ++ [(frame, topic)] }
    | _ => s

def flush : Session := s.buffered.foldl (fun s entry => s.forward transport entry.1 entry.2) { s with buffered := [] }

def dropBuffered : Session := { s with buffered := s.buffered.filter fun entry => entry.2 ≠ some topic }

def frameTopic : Frame → JsString
  | .text message _ => message.topic
  | .binary _ => []

def sendFrame (frame : Frame) : Session :=
  if s.closed then s
  else if transport.bytes frame > maxRealtimeFrameBytes then s.close
  else if transport.fails s.calls then close { s with calls := s.calls + 1 }
  else { s with calls := s.calls + 1, sent := s.sent ++ [{ frame, standing := s.standing (frameTopic frame) }] }

def send (message : PhoenixMessage) : Session := s.sendFrame transport (.text message none)

def reply (message : PhoenixMessage) (ok : Bool) (reason : Option String) : Session :=
  let response : Payload := reason.elim [] fun reason => [(js "reason", .string (js reason))]
  s.send transport
    { message with
      event := .reply
      payload := [(js "status", .string (js (if ok then "ok" else "error"))), (js "response", .object response)] }

def leaveFrame (message : PhoenixMessage) : Frame := .text { message with event := .leave, payload := [] } none

def failChannel (channel : Channel) (reason : String) : Session :=
  match s.current channel.join.topic channel.generation with
  | none => s
  | some channel =>
    let topic := channel.join.topic
    let s := s.removeChannel topic
    let s :=
      if channel.joined then
        s.send transport { channel.join with ref := none, event := .error, payload := [(js "reason", .string (js reason))] }
      else s.reply transport channel.join false (some reason)
    let s := s.dropBuffered topic
    if s.upstream = some .opened then s.forward transport (leaveFrame channel.join) (some topic) else s

/-! ## クライアントのフレーム -/

def joinRequest (message : PhoenixMessage) : Except String (List PostgresChangeConfig × JsString) := do
  let config ← match message.payload.lookup (js "config") with
    | none => .ok []
    | some (.object config) => .ok config
    | some _ => .error "Invalid channel config"
  let changes := match config.lookup (js "postgres_changes") with
    | none | some (.array []) => some []
    | some value => parsePostgresChangeSubscriptions transport.filters value
  let token := match message.payload.lookup (js "access_token") with
    | none | some .null => asToken (some (.string s.apiKey))
    | value => asToken value
  match changes, token with
  | some changes, some token =>
    if (s.channel message.topic).isNone && s.channels.length ≥ maxChannels then .error "Channel limit reached" else .ok (changes, token)
  | _, _ => .error "Invalid subscription"

def newChannel (message : PhoenixMessage) (changes : List PostgresChangeConfig) (token : JsString) : Channel :=
  let native := !changes.isEmpty && canUseNativeRealtimeSubscriptions transport.filters changes
  { generation := s.generations, join := message, changes, token, nativeId := none, ready := if native then none else some true, joined := false
    refreshVersion := 0, refreshing := false, serverIds := [], bindings := [], native, joinTimer := true }

def addChannel (channel : Channel) : Session :=
  let starts := if channel.native then
      s.starts ++ [{ generation := channel.generation, topic := channel.join.topic, stage := .calling, resolved := false }] else s.starts
  { s with generations := s.generations + 1, channels := s.channels ++ [(channel.join.topic, channel)], starts }

def handleJoin (message : PhoenixMessage) (stamp : Stamp) : Session :=
  match s.joinRequest transport message with
  | .error reason => s.reply transport message false (some reason)
  | .ok (changes, token) =>
    let s := s.removeChannel message.topic
    let s := if s.upstream = some .connecting then s.dropBuffered message.topic else s
    let s := s.addChannel (s.newChannel transport message changes token)
    s.forward transport (.text message (some stamp)) (some message.topic)

def handleLeave (message : PhoenixMessage) (stamp : Stamp) : Session :=
  let s := s.removeChannel message.topic
  if s.upstream ≠ some .opened then (s.dropBuffered message.topic).reply transport message true none
  else s.forward transport (.text message (some stamp)) (some message.topic)

def awaitRefresh (channel : Channel) (message : PhoenixMessage) (token : JsString) (stamp : Stamp) (replaying : Bool) : Session :=
  let version := channel.refreshVersion + 1
  let s := s.setChannel message.topic { channel with refreshVersion := version, refreshing := true }
  { s with refreshes := s.refreshes ++ [{ generation := channel.generation, version, message, token, stamp, replaying, allowed := none }] }

def handleAccessToken (message : PhoenixMessage) (stamp : Stamp) (replaying : Bool) : Session :=
  match s.channel message.topic, asToken (message.payload.lookup (js "access_token")) with
  | none, _ => s.reply transport message false (some "Invalid access token")
  | some _, none =>
    let s := s.removeChannel message.topic
    let s := s.forward transport (leaveFrame message) (some message.topic)
    s.reply transport message false (some "Invalid access token")
  | some channel, some token => s.awaitRefresh channel message token stamp replaying

def translate (message : PhoenixMessage) : PhoenixMessage :=
  if message.payload.lookup (js "access_token") = some (.string s.presentedApiKey) then
    { message with payload := setField message.payload (js "access_token") (.string s.apiKey) }
  else message

def queueEarly (frame : Frame) : Session :=
  let bytes := (s.early.map transport.bytes).sum
  if s.early.length ≥ maxBufferedFrames ∨ bytes + transport.bytes frame > maxRealtimeFrameBytes then s.close
  else { s with early := s.early ++ [frame] }

def passes (message : PhoenixMessage) : Bool :=
  match message.event with
  | .heartbeat | .leave => s.upstream == some .opened
  | .join => (s.joinRequest transport message).isOk
  | .accessToken => false
  | _ => true

def handleFrame (raw : Raw) (stamp : Stamp) (replaying : Bool) : Session :=
  match raw with
  | .invalid => s.close
  | .binary bytes =>
    if transport.bytes (.binary bytes) > maxRealtimeFrameBytes then s.close
    else if !transport.isClientBroadcast bytes then s.close
    else s.forward transport (.binary bytes) none
  | .text received =>
    let message := s.translate received
    if transport.bytes (.text message (some stamp)) > maxRealtimeFrameBytes then s.close
    else
      match message.event with
      | .heartbeat =>
        if s.upstream ≠ some .opened then s.reply transport message true none
        else s.forward transport (.text message (some stamp)) (some message.topic)
      | .leave => s.handleLeave transport message stamp
      | .join => s.handleJoin transport message stamp
      | .accessToken => s.handleAccessToken transport message stamp replaying
      | _ => s.forward transport (.text message (some stamp)) (some message.topic)

def message (raw : Raw) : Session :=
  if s.closed then s
  else
    let seq := s.arrivals
    let s := { s with arrivals := seq + 1 }
    match s.projectRef with
    | some _ => s.handleFrame transport raw { seq, early := false } false
    | none =>
      match raw with
      | .invalid => s.close
      | .binary bytes => s.queueEarly transport (.binary bytes)
      | .text message => s.queueEarly transport (.text message (some { seq, early := true }))

/-- 先に届いたフレームの読み直し。前のフレームの待ちが終わるまで進まない。 -/
def replayNext : Session :=
  match s.replay with
  | [] => s
  | frame :: rest =>
    if s.refreshes.any (·.replaying) then s
    else if s.closed then { s with replay := rest }
    else handleFrame transport { s with replay := rest } frame.raw (frame.stamp.getD { seq := 0, early := true }) true

/-! ## 接続の始まり -/

inductive KeyResult where
  | rejected
  | unknown
  | resolved (ref upstreamKey : JsString)

def begin (params : Option Params) : Session :=
  match s.opening with
  | .unopened =>
    match params with
    | none => close { s with opening := .done }
    | some params => if s.closed then { s with opening := .done } else { s with opening := .resolving params }
  | _ => s

/-- 鍵の引き当ての後。`count` は、プロジェクトの接続の数、`connected` は `connect` が返した上流の様子で、none は例外である。 -/
def bindProject (result : KeyResult) (count : Nat) (connected : Option ReadyState) : Session :=
  match s.opening with
  | .resolving params =>
    let s := { s with opening := .done }
    if s.closed then s
    else
      match result with
      | .rejected | .unknown => s.close
      | .resolved ref upstreamKey =>
        if ref = [] ∨ upstreamKey = [] then s.close
        else if params.requested.any (· != ref) then s.close
        else if count ≥ maxConnectionsPerProject then s.close
        else
          let s := { s with
            projectRef := some ref
            apiKey := upstreamKey
            presentedApiKey := params.apiKey
            counting := s.counting ++ [CountCall.set ref (count + 1)]
            connectionTimer := true }
          match connected with
          | none => s.close
          | some readyState =>
            { s with upstream := some readyState, connectionTimer := readyState != .opened, replay := s.early, early := [] }
  | _ => s

/-! ## ネイティブの購読 -/

def created (i : Nat) (id : Nat) : Session :=
  match s.starts[i]? with
  | none => s
  | some start =>
    if start.stage = .calling ∧ s.lastId < id then
      { s with starts := s.starts.set i { start with stage := .created id }, owned := s.owned ++ [id], lastId := id }
    else s

def startSettled (i : Nat) : Session :=
  match s.starts[i]? with
  | none => s
  | some start =>
    match start.stage with
    | .settled _ => s
    | .calling => { s with starts := s.starts.set i { start with stage := .settled false } }
    | .created id =>
      match s.current start.topic start.generation with
      | none =>
        { s with
          starts := s.starts.set i { start with stage := .settled false }
          owned := s.owned.filter fun owned => owned != id
          backend := s.backend ++ [BackendCall.unsubscribe id] }
      | some channel =>
        let s := s.setChannel start.topic { channel with nativeId := some id }
        { s with
          starts := s.starts.set i { start with stage := .settled true }
          listeners := s.listeners ++ [(id, start.topic, start.generation)] }

/-- `ready` の約束の値が決まる。期限や打ち切りでは、いつでも偽に決まる。 -/
def readySettled (i : Nat) (ok : Bool) : Session :=
  match s.starts[i]? with
  | none => s
  | some start =>
    if start.resolved ∨ (ok ∧ start.stage ≠ .settled true) then s
    else
      let s := { s with starts := s.starts.set i { start with resolved := true } }
      match s.current start.topic start.generation with
      | none => s
      | some channel =>
        let channel := { channel with ready := some ok }
        let s := s.setChannel start.topic channel
        if ok then s else s.failChannel transport channel "Native subscription rejected"

/-! ## 札の更新 -/

/-- 札の検査。`ready` を待ち、今の版であれば、バックエンドの札を替える。 -/
def refreshChecked (i : Nat) : Session :=
  match s.refreshes[i]? with
  | none => s
  | some refresh =>
    if refresh.allowed.isSome then s
    else
      let settle (s : Session) (allowed : Bool) : Session := { s with refreshes := s.refreshes.set i { refresh with allowed := some allowed } }
      match s.current refresh.message.topic refresh.generation with
      | none => settle s false
      | some channel =>
        match channel.ready with
        | none => s
        | some ready =>
          if !ready || channel.refreshVersion ≠ refresh.version then settle s false
          else
            match channel.nativeId with
            | none => settle s true
            | some id =>
              if s.owned.contains id then settle { s with backend := s.backend ++ [BackendCall.updateToken id refresh.token] } true
              else settle s false

def refreshSettled (i : Nat) (rejected : Bool) : Session :=
  match s.refreshes[i]? with
  | none => s
  | some refresh =>
    let topic := refresh.message.topic
    let rest := { s with refreshes := s.refreshes.eraseIdx i }
    match s.current topic refresh.generation with
    | none => if rejected || refresh.allowed.isSome then rest else s
    | some channel =>
      if rejected then
        if channel.refreshVersion = refresh.version then rest.failChannel transport channel "Access token verification timed out" else rest
      else
        match refresh.allowed with
        | none => s
        | some allowed =>
          if channel.refreshVersion ≠ refresh.version then rest
          else if !allowed then
            let s := rest.removeChannel topic
            let s := s.send transport
              { refresh.message with event := .error, payload := [(js "reason", .string (js "Access token rejected"))] }
            s.forward transport (leaveFrame refresh.message) (some topic)
          else
            let s := rest.setChannel topic { channel with token := refresh.token, refreshing := false }
            s.forward transport (.text refresh.message (some refresh.stamp)) (some topic)

/-! ## 上流のフレーム -/

def answersJoin (message : PhoenixMessage) (channel : Channel) : Bool :=
  message.ref == channel.join.ref && message.joinRef == channel.join.joinRef

def responseOf (message : PhoenixMessage) : Option Payload := (message.payload.lookup (js "response")).bind asRecord

def columnJson (column : Column) : Json := .object [(js "name", .string column.name), (js "type", .string column.type)]

def eventPayload (event : ChangeEvent) : Payload :=
  let old := event.data.oldRecord.map fun old => ((js "old_record", .object old) : JsString × Json)
  let data : Payload :=
    [(js "columns", .array (event.data.columns.map columnJson)), (js "commit_timestamp", .string event.data.commitTimestamp),
      (js "record", .object event.data.record)] ++ old.toList ++
      [(js "schema", .string event.data.schema), (js "table", .string event.data.table), (js "type", .string event.data.type.text),
        (js "errors", .array (event.errors.map .string))]
  [(js "ids", .array (event.ids.map idJson)), (js "data", .object data)]

def upstreamChange (message : PhoenixMessage) (channel : Channel) : Session :=
  if !channel.joined || channel.refreshing then s
  else if message.joinRef.isSome && message.joinRef ≠ channel.join.joinRef then s
  else
    let data := message.payload.lookup (js "data")
    let change := data.bind transport.parseChange
    let errors := match data.bind asRecord with
      | none => some []
      | some entries => match entries.lookup (js "errors") with
        | none | some .null => some []
        | some (.array errors) => some errors
        | some _ => none
    match change, message.payload.lookup (js "ids"), errors with
    | some change, some (.array (id :: ids)), some errors =>
      match (id :: ids).mapM (fun id => (asId id).filter channel.serverIds.contains), errors.mapM asText with
      | some ids, some errors =>
        if channel.native && change.type ≠ .delete then s
        else
          (projectRealtimeChangeEvents { data := change, errors, ids } channel.bindings).foldl
            (fun s event => s.send transport { message with payload := eventPayload event }) s
      | _, _ => s.close
    | _, _, _ => s.close

def upstreamReply (message : PhoenixMessage) (channel : Channel) : Session :=
  if message.payload.lookup (js "status") ≠ some (.string (js "ok")) then (s.removeChannel message.topic).send transport message
  else
    let s := { s with acknowledged := channel.generation :: s.acknowledged }
    if channel.changes ≠ [] then { s with acks := s.acks ++ [{ generation := channel.generation, message }] }
    else (s.setChannel message.topic { channel with joined := true, joinTimer := false }).send transport message

def receiveText (message : PhoenixMessage) : Session :=
  let channel := s.channel message.topic
  let answers := channel.any (answersJoin message)
  if message.event = .reply ∧ ((responseOf message).bind (·.lookup (js "postgres_changes"))).isSome ∧ ¬ answers then s
  else
    match message.event, channel with
    | .postgresChanges, none => s
    | .postgresChanges, some channel => s.upstreamChange transport message channel
    | .reply, some channel => if answers then s.upstreamReply transport message channel else s.send transport message
    | .error, some channel | .close, some channel =>
      if message.joinRef.isSome && message.joinRef ≠ channel.join.joinRef then s
      else (s.removeChannel message.topic).send transport message
    | _, _ => s.send transport message

def receiveUpstream (raw : Raw) : Session :=
  if s.closed then s
  else
    match raw with
    | .invalid => s.close
    | .binary bytes => if !transport.isServerBroadcast bytes then s.close else s.sendFrame transport (.binary bytes)
    | .text message => s.receiveText transport message

def rejectJoin (channel : Channel) (reason : String) : Session :=
  let topic := channel.join.topic
  let s := s.removeChannel topic
  let s := s.reply transport channel.join false (some reason)
  s.forward transport (leaveFrame channel.join) (some topic)

/-- 応答に載せる購読。表と絞り込みは、クライアントの書いたままにする。 -/
def acknowledgement (binding : PostgresChangeConfig) (original : Option Json) : Json :=
  let fields := (original.bind asRecord).getD []
  let written (name : String) : Option (JsString × Json) := ((fields.lookup (js name)).bind asText).map fun s => (js name, .string s)
  .object ([(js "event", .string (binding.event.elim (js "*") ChangeType.text)), (js "schema", .string binding.schema)] ++
    (binding.id.map fun id => (js "id", idJson id)).toList ++
    (binding.select.map fun select => ((js "select", .array (select.map .string)) : JsString × Json)).toList ++
    (written "table").toList ++ (written "filter").toList)

def clientChanges (join : PhoenixMessage) : List Json :=
  match ((join.payload.lookup (js "config")).bind asRecord).bind (·.lookup (js "postgres_changes")) with
  | some (.array changes) => changes
  | _ => []

def acknowledgements (bindings : List PostgresChangeConfig) (join : PhoenixMessage) : List Json :=
  bindings.zipIdx.map fun binding => acknowledgement binding.1 (clientChanges join)[binding.2]?

def ackSettled (i : Nat) : Session :=
  match s.acks[i]? with
  | none => s
  | some ack =>
    let rest := { s with acks := s.acks.eraseIdx i }
    match s.current ack.message.topic ack.generation with
    | none => rest
    | some channel =>
      match channel.ready with
      | none => s
      | some false => rest.rejectJoin transport channel "Native subscription rejected"
      | some true =>
        let bindings := (responseOf ack.message).bind fun response =>
          (response.lookup (js "postgres_changes")).bind (bindRealtimeSubscriptionIds transport.filters channel.changes)
        match responseOf ack.message, bindings with
        | some response, some bindings =>
          if channel.native && channel.nativeId.isNone then rest.rejectJoin transport channel "Invalid subscription acknowledgement"
          else
            let serverIds := bindings.filterMap (·.id)
            let rest := match channel.native, channel.nativeId with
              | true, some id => { rest with backend := rest.backend ++ [BackendCall.registerIds id serverIds] }
              | _, _ => rest
            let s := rest.setChannel ack.message.topic { channel with bindings, serverIds, joined := true, joinTimer := false }
            s.send transport { ack.message with
              event := .reply
              payload := setField ack.message.payload (js "response")
                (.object (setField response (js "postgres_changes") (.array (acknowledgements bindings channel.join)))) }
        | _, _ => rest.rejectJoin transport channel "Invalid subscription acknowledgement"

/-! ## 時計、上流の様子、バックエンドの出来事 -/

def joinTimeout : Session :=
  match s.channel topic with
  | none => s
  | some channel => if channel.joinTimer then s.failChannel transport channel "Channel join timed out" else s

def connectTimeout : Session := if s.connectionTimer then s.close else s

def upstreamOpen : Session :=
  if s.upstream = some .connecting then flush transport { s with upstream := some .opened, connectionTimer := false } else s

def upstreamEnding (readyState : ReadyState) : Session :=
  match s.upstream, readyState with
  | some _, .closing | some _, .closed => { s with upstream := some readyState }
  | _, _ => s

def nativeEvent (id : Nat) (event : ChangeEvent) : Session :=
  match s.listeners.find? (·.1 == id) with
  | none => s
  | some (_, topic, generation) =>
    match s.current topic generation with
    | none => s
    | some channel =>
      if event.data.type ≠ .delete ∧ channel.joined ∧ ¬ channel.refreshing then
        s.send transport { channel.join with ref := none, event := .postgresChanges, payload := eventPayload event }
      else s

end Session

open Session (KeyResult)

inductive SessionEvent where
  | begin (params : Option Params)
  | keyResolved (result : KeyResult) (connected : Option ReadyState)
  | replay
  | message (raw : Raw)
  | created (start id : Nat)
  | startSettled (start : Nat)
  | readySettled (start : Nat) (ok : Bool)
  | refreshChecked (refresh : Nat)
  | refreshSettled (refresh : Nat) (rejected : Bool)
  | ackSettled (ack : Nat)
  | upstreamMessage (raw : Raw)
  | upstreamOpen
  | upstreamEnding (readyState : ReadyState)
  | upstreamGone
  | joinTimeout (topic : JsString)
  | connectTimeout
  | nativeEvent (id : Nat) (event : ChangeEvent)
  | close

def sessionStep (transport : Transport) (count : JsString → Nat) (before : Session) (e : SessionEvent) : Session :=
  let s := { before with counting := [], backend := [], sent := [] }
  match e with
  | .begin params => s.begin params
  | .keyResolved result connected =>
    match result with
    | .resolved ref _ => s.bindProject result (count ref) connected
    | _ => s.bindProject result 0 connected
  | .replay => s.replayNext transport
  | .message raw => s.message transport raw
  | .created i id => s.created i id
  | .startSettled i => s.startSettled i
  | .readySettled i ok => s.readySettled transport i ok
  | .refreshChecked i => s.refreshChecked i
  | .refreshSettled i rejected => s.refreshSettled transport i rejected
  | .ackSettled i => s.ackSettled transport i
  | .upstreamMessage raw => s.receiveUpstream transport raw
  | .upstreamOpen => s.upstreamOpen transport
  | .upstreamEnding readyState => s.upstreamEnding readyState
  | .upstreamGone => s.close
  | .joinTimeout topic => s.joinTimeout transport topic
  | .connectTimeout => s.connectTimeout
  | .nativeEvent id event => s.nativeEvent transport id event
  | .close => s.close

/-! ## 中継の全体 -/

/-- `connectionCounts` の操作。数が 1 なら、項目を消す。 -/
def applyCount (counts : JsString → Nat) : CountCall → JsString → Nat
  | .set ref count, ref' => if ref' = ref then count else counts ref'
  | .release ref, ref' => if ref' = ref then (if counts ref > 1 then counts ref - 1 else 0) else counts ref'

structure Proxy where
  sessions : List Session
  counts : JsString → Nat

def Proxy.initial : Proxy := { sessions := [], counts := fun _ => 0 }

inductive ProxyEvent where
  | connect
  | session (i : Nat) (e : SessionEvent)

def proxyStep (transports : Nat → Transport) (p : Proxy) : ProxyEvent → Proxy
  | .connect => { p with sessions := p.sessions ++ [.initial] }
  | .session i e =>
    match p.sessions[i]? with
    | none => p
    | some s =>
      let s' := sessionStep (transports i) p.counts s e
      { sessions := p.sessions.set i s', counts := s'.counting.foldl applyCount p.counts }

def Session.boundTo (s : Session) (ref : JsString) : Bool := s.projectRef == some ref && !s.closed

def Session.Quiet (s : Session) : Prop := ∀ start ∈ s.starts, ∃ ok, start.stage = .settled ok

def Frame.isChange : Frame → Prop
  | .text message _ => message.event = .postgresChanges
  | .binary _ => False

def Standing.Open (standing : Standing) : Prop :=
  standing.joined = true ∧ standing.refreshing = false ∧ standing.awaiting = false ∧ standing.acknowledged = true

/-- 持っている購読状態と聞き手が、今のチャネルのもの、ちょうどである。 -/
structure Session.Owns (s : Session) : Prop where
  owned_nodup : s.owned.Nodup
  listeners_nodup : s.listeners.Nodup
  owned : ∀ id, id ∈ s.owned ↔ ∃ topic channel, s.channel topic = some channel ∧ channel.nativeId = some id
  listeners : ∀ id topic generation, (id, topic, generation) ∈ s.listeners ↔
    ∃ channel, s.channel topic = some channel ∧ channel.generation = generation ∧ channel.nativeId = some id

def Frame.seqOn (topic : JsString) : Frame → Option Nat
  | .text message (some stamp) => if message.topic = topic then some stamp.seq else none
  | _ => none

def Session.forwardedOn (s : Session) (topic : JsString) : List Nat := s.forwarded.filterMap (Frame.seqOn topic)

def Session.Live (s : Session) (r : Refresh) : Prop :=
  ∃ c, s.channel r.message.topic = some c ∧ c.generation = r.generation ∧ c.refreshVersion = r.version

def Session.Verifying (s : Session) (topic : JsString) (seq : Nat) : Prop :=
  ∃ r ∈ s.refreshes, s.Live r ∧ r.message.topic = topic ∧ r.stamp.seq < seq

def Session.Unread (s : Session) (topic : JsString) (seq : Nat) : Prop := ∃ frame ∈ s.replay, ∃ n, frame.seqOn topic = some n ∧ n < seq

/-- フレームが待たずに上流に向かうなら、同じ話題の前のフレームは待っていない。参加と離脱は、待っている札を無効にする。 -/
def Session.Unhindered (transport : Transport) (s : Session) (message : PhoenixMessage) (seq : Nat) : Prop :=
  s.passes transport message = true →
    ¬ s.Unread message.topic seq ∧ (message.event ≠ .join → message.event ≠ .leave → ¬ s.Verifying message.topic seq)

/-- 出来事が、同じ話題の前のフレームを待たせたまま、後のフレームを上流に向かわせない。 -/
def KeepsTurn (transport : Transport) (s : Session) : SessionEvent → Prop
  | .message (.text received) => s.closed = false → s.projectRef ≠ none → s.Unhindered transport (s.translate received) s.arrivals
  | .replay => ∀ received stamp rest, s.replay = .text received (some stamp) :: rest → s.Unhindered transport (s.translate received) stamp.seq
  | .refreshSettled i false => ∀ r, s.refreshes[i]? = some r → s.Live r → r.allowed = some true → ¬ s.Unread r.message.topic r.stamp.seq
  | _ => True

/-- 一つの接続の一歩。接続の数は、ほかの接続が変えるので、一歩ごとに任意である。 -/
def clientStep (transport : Transport) (s : Session) (e : (JsString → Nat) × SessionEvent) : Session := sessionStep transport e.1 s e.2

/-!
## 接続とテナントの配信をつないだもの

接続の `subscribeTenant` などの呼び出しは、その場でテナントの状態を変え、テナントの出す出来事は、その場で接続に届く。
札の検査の時は、`Check` に残る。
-/

/-- 送った変更の記録。`checked` は、見えるかどうかの検査に使った札、`accepted` は、そのチャネルで最後に認められた札である。 -/
structure Delivered where
  checked : Option JsString
  accepted : Option JsString
  deriving DecidableEq

/-- `accepted` は、認められた札の、新しい順の記録である。 -/
structure Wired where
  session : Session
  tenant : Tenant
  accepted : List (Nat × JsString)
  delivered : List Delivered

def Wired.initial (projectRef : JsString) : Wired := { session := .initial, tenant := .empty projectRef, accepted := [], delivered := [] }

/-- 接続の出来事、テナントが `subscribeTenant` の購読状態を作ること、テナントの出来事。`changes` と `token` は、チャネルがもう今のもの
でないときの引数である。 -/
inductive WiredEvent where
  | session (count : JsString → Nat) (e : SessionEvent)
  | subscribed (start skipped : Nat) (changes : List PostgresChangeConfig) (token : JsString)
  | service (e : ServiceEvent)

def applyBackend (w : Tenant) : BackendCall → Tenant
  | .unsubscribe id => unsubscribeSubscription w id
  | .updateToken id token => updateSubscriptionToken w id token
  | .registerIds id ids => { w with idMap := registerSubscriptionIds w.idMap (stateName w.projectRef id) ids }

def acceptedBy (s : Session) : SessionEvent → Option (Nat × JsString)
  | .refreshSettled i false =>
    match s.refreshes[i]? with
    | none => none
    | some r =>
      match s.current r.message.topic r.generation with
      | none => none
      | some c => if c.refreshVersion = r.version ∧ r.allowed = some true then some (r.generation, r.token) else none
  | _ => none

def deliveredOf (accepted : List (Nat × JsString)) (check : Check) (x : Sent) : Delivered :=
  { checked := check.token, accepted := x.standing.bind fun standing => accepted.lookup standing.generation }

namespace Wired

variable (transport : Transport) (visible : Nat → Nat → Nat → Bool) (w : Wired)

def sessionEvent (count : JsString → Nat) (e : SessionEvent) : Wired :=
  let session := sessionStep transport count w.session e
  { w with session, tenant := session.backend.foldl applyBackend w.tenant, accepted := (acceptedBy w.session e).toList ++ w.accepted }

def subscribed (i skipped : Nat) (changes : List PostgresChangeConfig) (token : JsString) : Wired :=
  match w.session.starts[i]? with
  | none => w
  | some start =>
    if start.stage = .calling then
      let call := (w.session.current start.topic start.generation).elim (changes, token) fun c => (c.changes, c.token)
      let tenant := subscribeTenant w.tenant skipped call.1 call.2
      { w with tenant, session := sessionStep transport (fun _ => 0) w.session (.created i tenant.subscriptionCounter) }
    else w

/-- 検査の終わり。見えるなら、出来事が聞き手に届いてから、配列の続きを進める。 -/
def resolved (k : Nat) : Wired :=
  match w.tenant.tasks[k]? with
  | none => w
  | some task =>
    match task.running with
    | none => w
    | some scan =>
      let checked := scan.checked ++ [scan.check.stateId]
      if visible k scan.work.offset scan.check.stateId then
        let session := sessionStep transport (fun _ => 0) w.session (.nativeEvent scan.check.stateId (formatEvent scan.work.change scan.check.ids))
        let tenant := session.backend.foldl applyBackend { w.tenant with log := w.tenant.log ++ [emission k scan] }
        { w with
          session
          tenant := resume transport.filters tenant k task scan.work scan.next checked
          delivered := w.delivered ++ session.sent.map (deliveredOf w.accepted scan.check) }
      else { w with tenant := resume transport.filters w.tenant k task scan.work scan.next checked }

end Wired

/-- テナントの出来事が、この接続の購読状態を直接に変えることはない。 -/
def Foreign (s : Session) : ServiceEvent → Bool
  | .unsubscribe id | .updateToken id _ => !s.owned.contains id
  | _ => true

def wiredStep (transport : Transport) (visible : Nat → Nat → Nat → Bool) (w : Wired) : WiredEvent → Wired
  | .session _ (.created _ _) | .session _ (.nativeEvent _ _) => w
  | .session count e => w.sessionEvent transport count e
  | .subscribed i skipped changes token => w.subscribed transport i skipped changes token
  | .service (.resolve k) => w.resolved transport visible k
  | .service e => if Foreign w.session e then { w with tenant := step transport.filters visible w.tenant e } else w

def Delivered.Current (d : Delivered) : Prop := ∀ token, d.accepted = some token → d.checked = some token

/-- 札が認められるとき、その購読状態の、見えることになる検査は、その札で始まっている。 -/
def NoStaleCheck (visible : Nat → Nat → Nat → Bool) (w : Wired) : WiredEvent → Prop
  | .session _ (.refreshSettled i false) =>
    ∀ r c id, w.session.refreshes[i]? = some r → w.session.current r.message.topic r.generation = some c → c.refreshVersion = r.version →
      r.allowed = some true → c.nativeId = some id →
        ∀ (k : Nat) (task : Task) (scan : Scan), w.tenant.tasks[k]? = some task → task.running = some scan → scan.check.stateId = id →
          visible k scan.work.offset id = true → scan.check.token = some r.token
  | _ => True

end Supacloud.RealtimeProxy
