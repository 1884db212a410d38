import Supacloud.Library.Lists

/-!
# 在席（`supacloud-lite/src/runtime/realtime/engine.ts`）

`metas` は topic とキーごとに一つの表にある。途切れない処理を一歩とし、在席の読まないチャネルの項目は省く。
-/

namespace Supacloud.LiteRealtime

open Library

/-- `payload` は、`phx_ref` と `phx_ref_prev` のほかの項目である。 -/
structure Meta (α : Type) where
  payload : List (String × α)
  phxRef : ℕ
  phxRefPrev : Option ℕ

/-- `tracked` は、参加の後の終わりの `track` の項目で、`untrack` で消える記録である。 -/
structure Channel (α : Type) where
  presenceKey : String
  presenceRef : Option ℕ
  tracked : Option (Meta α)

inductive Message (α : Type) where
  | presenceState (topic : String) (state : Lists String (Meta α))
  | presenceDiff (topic key : String) (joins leaves : List (Meta α))

/-- `live` は、`connections` にあること、`sent` は、送ったメッセージである。 -/
structure Connection (α : Type) where
  live : Bool
  channels : AList fun _ : String => Channel α
  sent : List (Message α)

structure World (α : Type) where
  count : ℕ
  connections : ℕ → Connection α
  presence : AList fun _ : String => Lists String (Meta α)
  phxRefCounter : ℕ

def World.start {α : Type} : World α where
  count := 0
  connections := fun _ => { live := false, channels := ∅, sent := [] }
  presence := ∅
  phxRefCounter := 1

namespace World

variable {α : Type}

variable (w : World α)

def channel (cid : ℕ) (topic : String) : Option (Channel α) := (w.connections cid).channels.lookup topic

def state (topic : String) : Lists String (Meta α) := (w.presence.lookup topic).getD ∅

def setConnection (cid : ℕ) (connection : Connection α) : World α :=
  { w with connections := Function.update w.connections cid connection }

def setChannel (cid : ℕ) (topic : String) (channel : Channel α) : World α :=
  w.setConnection cid { w.connections cid with channels := (w.connections cid).channels.insert topic channel }

def deleteChannel (cid : ℕ) (topic : String) : World α :=
  w.setConnection cid { w.connections cid with channels := (w.connections cid).channels.erase topic }

def send (cid : ℕ) (message : Message α) : World α :=
  w.setConnection cid { w.connections cid with sent := (w.connections cid).sent ++ [message] }

def broadcastToTopic (topic : String) (message : Message α) : World α :=
  { w with connections := fun cid =>
      if (w.connections cid).live && ((w.connections cid).channels.lookup topic).isSome then
        { w.connections cid with sent := (w.connections cid).sent ++ [message] }
      else w.connections cid }

/-- `phx_ref` の項目を除き、空になったキーと topic を消す。見つからなければ `none` である。 -/
def removeMeta (topic key : String) (presenceRef : ℕ) : Option (Meta α × World α) :=
  match w.presence.lookup topic with
  | none => none
  | some state =>
    match (state.listAt key).find? (·.phxRef = presenceRef) with
    | none => none
    | some leaving =>
      let state := state.prune (·.phxRef ≠ presenceRef) key
      some (leaving, { w with presence := if state.keys = [] then w.presence.erase topic else w.presence.insert topic state })

def removePresence (topic : String) (channel : Channel α) : World α :=
  match channel.presenceRef.bind (w.removeMeta topic channel.presenceKey) with
  | none => w
  | some (leaving, w) => w.broadcastToTopic topic (.presenceDiff topic channel.presenceKey [] [leaving])

def leaveChannel (cid : ℕ) (topic : String) : World α :=
  match w.channel cid topic with
  | none => w
  | some channel => (w.deleteChannel cid topic).removePresence topic channel

/-- `handleJoin` の、待ちが済んでからの部分。`key` が空のときは `crypto.randomUUID()` の値を使う。 -/
def handleJoin (cid : ℕ) (topic : String) (key : Option String) (uuid : String) : World α :=
  let presenceKey := (key.filter (· ≠ "")).getD uuid
  let w := (w.leaveChannel cid topic).setChannel cid topic { presenceKey, presenceRef := none, tracked := none }
  w.send cid (.presenceState topic (w.state topic))

def track (cid : ℕ) (topic : String) (payload : List (String × α)) : World α :=
  match w.channel cid topic with
  | none => w
  | some channel =>
    let state := w.state topic
    let current := state.listAt channel.presenceKey
    let previous := current.find? fun m => channel.presenceRef = some m.phxRef
    let entry : Meta α :=
      { payload := payload.filter fun field => field.1 ≠ "phx_ref" ∧ field.1 ≠ "phx_ref_prev"
        phxRef := w.phxRefCounter
        phxRefPrev := previous.map (·.phxRef) }
    let others := current.filter fun m => channel.presenceRef ≠ some m.phxRef
    let w := { w with
      phxRefCounter := w.phxRefCounter + 1
      presence := w.presence.insert topic (state.insert channel.presenceKey (others ++ [entry])) }
    (w.setChannel cid topic { channel with presenceRef := some entry.phxRef, tracked := some entry }).broadcastToTopic topic
      (.presenceDiff topic channel.presenceKey [entry] previous.toList)

def untrack (cid : ℕ) (topic : String) : World α :=
  match w.channel cid topic with
  | none => w
  | some channel => (w.setChannel cid topic { channel with presenceRef := none, tracked := none }).removePresence topic channel

def close (cid : ℕ) : World α :=
  let w := (w.connections cid).channels.keys.foldl (fun w topic => w.leaveChannel cid topic) w
  w.setConnection cid { w.connections cid with live := false }

end World

inductive Event (α : Type) where
  | connect
  | join (cid : ℕ) (topic : String) (key : Option String) (uuid : String)
  | track (cid : ℕ) (topic : String) (payload : List (String × α))
  | untrack (cid : ℕ) (topic : String)
  | leave (cid : ℕ) (topic : String)
  | expire (cid : ℕ) (topic : String)
  | close (cid : ℕ)

def Event.cid {α : Type} : Event α → Option ℕ
  | .connect => none
  | .join cid _ _ _ | .track cid _ _ | .untrack cid _ | .leave cid _ | .expire cid _ | .close cid => some cid

def World.apply {α : Type} (w : World α) : Event α → World α
  | .connect => { w.setConnection w.count { live := true, channels := ∅, sent := [] } with count := w.count + 1 }
  | .join cid topic key uuid => w.handleJoin cid topic key uuid
  | .track cid topic payload => w.track cid topic payload
  | .untrack cid topic => w.untrack cid topic
  | .leave cid topic | .expire cid topic => w.leaveChannel cid topic
  | .close cid => w.close cid

def World.step {α : Type} (w : World α) (event : Event α) : World α := if event.cid.all (· < w.count) then w.apply event else w

/-! ## クライアントの表 -/

/-- クライアントが、topic の終わりの `presence_state` に、その後の `presence_diff` を順に当てた表。 -/
def view {α : Type} (topic : String) (sent : List (Message α)) : String → List (Meta α) :=
  sent.foldl (fun view message =>
    match message with
    | .presenceState topic' state => if topic' = topic then state.listAt else view
    | .presenceDiff topic' key joins leaves =>
      if topic' = topic then
        Function.update view key ((view key).filter (fun m => m.phxRef ∉ leaves.map (·.phxRef)) ++ joins)
      else view) fun _ => []

end Supacloud.LiteRealtime
