import Mathlib.Data.List.AList
import Mathlib.Data.Rat.Defs

/-!
# 一つの接続の参加（`supacloud-lite/src/runtime/realtime/engine.ts`）

`phx_join` の処理は待つたびに中断し、接続ごとの待ち行列はない。届いたメッセージを送られた順に並べ、それぞれの処理の今を持つ。
-/

namespace Supacloud.LiteRealtime.Membership

structure Context where
  role : String
  exp : Option ℚ

structure BindingSpec where
  event : Option String
  schema : Option String
  table : Option String
  filter : Option String

structure PostgresBinding where
  id : ℕ
  event : String
  schema : String
  table : String
  filter : Option String

/-- `phx_join` の中身。`accessToken` は、文字列でない札のとき `none` である。 -/
structure Join where
  topic : String
  ref : Option String
  joinRef : Option String
  accessToken : Option (Option String)
  isPrivate : Bool
  broadcastSelf : Bool
  broadcastAck : Bool
  presenceKey : Option String
  presenceEnabled : Bool
  postgresChanges : List BindingSpec

structure Channel where
  expiryTimer : Option ℕ
  topic : String
  joinRef : Option String
  bindings : List PostgresBinding
  broadcastSelf : Bool
  broadcastAck : Bool
  presenceKey : String
  presenceEnabled : Bool
  ctx : Context
  isPrivate : Bool
  canBroadcast : Bool

structure Setup where
  ctx : Context
  canBroadcast : Bool
  bindings : List PostgresBinding
  presenceKey : String

/-- 処理の今。`trigger`、`schema`、`tables` は、終わりに加えた購読の表のトリガーを待つ。 -/
inductive Pc where
  | context
  | authorize (ctx : Context)
  | trigger (ctx : Context) (canBroadcast : Bool) (bindings : List PostgresBinding) (rest : List BindingSpec)
  | schema (ctx : Context) (canBroadcast : Bool) (bindings : List PostgresBinding) (rest : List BindingSpec)
  | tables (ctx : Context) (canBroadcast : Bool) (bindings : List PostgresBinding) (rest : List BindingSpec) (count : ℕ)
  | joined (setup : Setup)
  | refused (reason : String)

inductive Entry where
  | join (message : Join) (pc : Pc)
  | leave (topic : String)

def Entry.topic : Entry → String
  | .join message _ => message.topic
  | .leave topic => topic

def Entry.answeredOk : Entry → Bool
  | .join _ (.joined _) => true
  | .join _ _ => false
  | .leave _ => true

def Entry.running : Entry → Bool
  | .join _ (.joined _) | .join _ (.refused _) => false
  | .join _ _ => true
  | .leave _ => false

/-- `toUpperCase` は `String.prototype.toUpperCase` である。 -/
structure World where
  toUpperCase : String → String
  minimalBootstrap : Bool
  resolvesExternalToken : Bool
  closed : Bool
  channels : AList fun _ : String => Channel
  timers : List ℕ
  nextTimer : ℕ
  bindingCounter : ℕ
  entries : List Entry

structure Answer where
  failed : Option String
  ctx : Context
  read : Bool
  write : Bool
  tables : ℕ
  uuid : String

inductive Event where
  | join (message : Join)
  | leave (topic : String)
  | resume (id : ℕ) (answer : Answer)
  | close

namespace World

def clearTimer (w : World) (timer : Option ℕ) : World := { w with timers := w.timers.filter fun t => timer ≠ some t }

def leaveChannel (w : World) (topic : String) : World :=
  match w.channels.lookup topic with
  | none => w
  | some channel => { w.clearTimer channel.expiryTimer with channels := w.channels.erase topic }

def scheduleExternalExpiry (w : World) (topic : String) (channel : Channel) : World :=
  let w := w.clearTimer channel.expiryTimer
  if w.resolvesExternalToken && channel.ctx.exp.isSome then
    { w with
      channels := w.channels.insert topic { channel with expiryTimer := some w.nextTimer }
      timers := w.timers ++ [w.nextTimer]
      nextTimer := w.nextTimer + 1 }
  else { w with channels := w.channels.insert topic channel }

end World

def Join.channel (message : Join) (setup : Setup) : Channel where
  expiryTimer := none
  topic := message.topic
  joinRef := message.joinRef.or message.ref
  bindings := setup.bindings
  broadcastSelf := message.broadcastSelf
  broadcastAck := message.broadcastAck
  presenceKey := setup.presenceKey
  presenceEnabled := message.presenceEnabled
  ctx := setup.ctx
  isPrivate := message.isPrivate
  canBroadcast := setup.canBroadcast

def Join.subscribe (message : Join) (toUpperCase : String → String) (counter : ℕ) (ctx : Context) (canBroadcast : Bool) (bindings : List PostgresBinding) (uuid : String) :
    List BindingSpec → Pc
  | [] => .joined { ctx, canBroadcast, bindings, presenceKey := (message.presenceKey.filter (· ≠ "")).getD uuid }
  | spec :: rest =>
    let binding : PostgresBinding :=
      { id := counter
        event := toUpperCase (spec.event.getD "*")
        schema := spec.schema.getD "public"
        table := spec.table.getD "*"
        filter := spec.filter }
    if binding.table ≠ "*" then .trigger ctx canBroadcast (bindings ++ [binding]) rest
    else .schema ctx canBroadcast (bindings ++ [binding]) rest

def Join.advance (message : Join) (toUpperCase : String → String) (minimalBootstrap : Bool) (counter : ℕ) (answer : Answer) : Pc → Pc
  | .context =>
    match answer.failed with
    | some reason => .refused reason
    | none =>
      if message.isPrivate && !minimalBootstrap then .authorize answer.ctx
      else message.subscribe toUpperCase counter answer.ctx true [] answer.uuid message.postgresChanges
  | .authorize ctx =>
    if answer.read then message.subscribe toUpperCase counter ctx answer.write [] answer.uuid message.postgresChanges
    else .refused ("You do not have permissions to read from this Channel topic: " ++ (message.topic.dropPrefix "realtime:").toString)
  | .trigger ctx canBroadcast bindings rest =>
    match answer.failed, bindings.getLast? with
    | some _, some binding => .refused s!"unable to subscribe to changes on {binding.schema}.{binding.table}"
    | _, _ => message.subscribe toUpperCase counter ctx canBroadcast bindings answer.uuid rest
  | .schema ctx canBroadcast bindings rest =>
    match answer.failed, answer.tables with
    | some reason, _ => .refused reason
    | none, 0 => message.subscribe toUpperCase counter ctx canBroadcast bindings answer.uuid rest
    | none, count + 1 => .tables ctx canBroadcast bindings rest count
  | .tables ctx canBroadcast bindings rest count =>
    match count with
    | 0 => message.subscribe toUpperCase counter ctx canBroadcast bindings answer.uuid rest
    | count + 1 => .tables ctx canBroadcast bindings rest count
  | pc => pc

def Pc.subscribing : Pc → Bool
  | .trigger .. | .schema .. => true
  | _ => false

def World.step (w : World) : Event → World
  | .join message =>
    match message.accessToken with
    | none => { w with entries := w.entries ++ [.join message (.refused "Invalid Realtime access token")] }
    | some _ => { w with entries := w.entries ++ [.join message .context] }
  | .leave topic => { w.leaveChannel topic with entries := w.entries ++ [.leave topic] }
  | .resume id answer =>
    match w.entries[id]? with
    | some (.join message pc) =>
      if (Entry.join message pc).running then
        let next := message.advance w.toUpperCase w.minimalBootstrap w.bindingCounter answer pc
        let w := { w with
          entries := w.entries.set id (.join message next)
          bindingCounter := if next.subscribing then w.bindingCounter + 1 else w.bindingCounter }
        match next with
        | .joined setup => (w.leaveChannel message.topic).scheduleExternalExpiry message.topic (message.channel setup)
        | _ => w
      else w
    | _ => w
  | .close => { w.channels.keys.foldl World.leaveChannel w with closed := true }

end Supacloud.LiteRealtime.Membership
