import Mathlib.Data.List.AList
import Supacloud.Library.Runs

/-!
# 値と伝言（realtime-gateway/src/protocol.rs）

文字列は文字の列、`HashMap` は鍵の重ならない対の列、JSON の数はその印字で表す。JSON の印字、base64、
署名の検査、浮動小数点の数の読み取りは、外の部品である。
-/

namespace Supacloud.Realtime

abbrev Text := List Char

local instance : LawfulBEq Text := inferInstance

local instance : LawfulBEq (Option Text) := inferInstance

abbrev HashMap (κ α : Type) := AList fun _ : κ => α

inductive Value where
  | null
  | bool (b : Bool)
  | number (text : Text)
  | string (s : Text)
  | array (items : List Value)
  | object (entries : List (Text × Value))

namespace Value

def get (v : Value) (key : String) : Option Value :=
  match v with
  | .object entries => (entries.find? fun e => e.1 = key.toList).map Prod.snd
  | _ => none

def asStr : Value → Option Text
  | .string s => some s
  | _ => none

def asBool : Value → Option Bool
  | .bool b => some b
  | _ => none

def asArray : Value → Option (List Value)
  | .array items => some items
  | _ => none

def asObject : Value → Option (List (Text × Value))
  | .object entries => some entries
  | _ => none

def isEmptyObject : Value → Bool
  | .object [] => true
  | _ => false

def insert (entries : List (Text × Value)) (key : Text) (v : Value) : List (Text × Value) :=
  entries.filter (fun e => e.1 ≠ key) ++ [(key, v)]

theorem get_insert {entries key v} : (object (insert entries key.toList v)).get key = some v := by
  have hno : (entries.filter fun e => e.1 ≠ key.toList).find? (fun e => e.1 = key.toList) = none := by
    rw [List.find?_eq_none]
    intro e he
    simpa using (List.mem_filter.mp he).2
  rw [get, insert, List.find?_append, hno]
  simp

end Value

def field (key : String) (v : Value) : Text × Value := (key.toList, v)

/-- 外の部品。`F` は浮動小数点の数である。 -/
structure Serde (F : Type) where
  display : Value → Text
  parseF64 : Text → Option F
  asF64 : Text → Option F
  lt : F → F → Bool
  le : F → F → Bool

def displayed {F : Type} (serde : Serde F) : Value → Text
  | .string s => s
  | .number text => text
  | v => serde.display v

structure PhoenixV2Message where
  joinRef : Option Text
  reference : Option Text
  topic : Text
  event : Text
  payload : Value

namespace PhoenixV2Message

def reply (joinRef reference : Option Text) (topic : Text) (status : String) (response : Value) : PhoenixV2Message where
  joinRef
  reference
  topic
  event := "phx_reply".toList
  payload := .object [field "status" (.string status.toList), field "response" response]

def broadcast (topic : Text) (payload : Value) : PhoenixV2Message where
  joinRef := none
  reference := none
  topic
  event := "broadcast".toList
  payload

def postgresChanges (topic : Text) (payload : Value) : PhoenixV2Message where
  joinRef := none
  reference := none
  topic
  event := "postgres_changes".toList
  payload

def presenceDiff (topic : Text) (joins leaves : Value) : PhoenixV2Message where
  joinRef := none
  reference := none
  topic
  event := "presence_diff".toList
  payload := .object [field "joins" joins, field "leaves" leaves]

def presenceState (topic : Text) (state : Value) : PhoenixV2Message where
  joinRef := none
  reference := none
  topic
  event := "presence_state".toList
  payload := state

end PhoenixV2Message

/-!
## 列の絞り込み（realtime-gateway/src/filter.rs）

`id=eq.1` の形の文字列を読み、変更された行に当てる。
-/

variable {F : Type}

def isWhitespace (c : Char) : Bool :=
  c.toNat ∈ [0x20, 0x85, 0xA0, 0x1680, 0x2028, 0x2029, 0x202F, 0x205F, 0x3000] || (9 ≤ c.toNat && c.toNat ≤ 13) ||
    (0x2000 ≤ c.toNat && c.toNat ≤ 0x200A)

def trim (s : Text) : Text := ((s.dropWhile isWhitespace).reverse.dropWhile isWhitespace).reverse

def cut (c : Char) (s : Text) : Option (Text × Text) :=
  if c ∈ s then some (s.takeWhile (· ≠ c), (s.dropWhile (· ≠ c)).tail) else none

def eqIgnoreAsciiCase (a b : Text) : Bool := a.map Char.toLower = b.map Char.toLower

/-- 両端が同じ引用符の文字列は、引用符を除く。 -/
def stripQuotes (s : Text) : Text :=
  let trimmed := trim s
  if 2 ≤ trimmed.length ∧ (trimmed.head? = some '"' ∧ trimmed.getLast? = some '"' ∨
      trimmed.head? = some '\'' ∧ trimmed.getLast? = some '\'') then
    trimmed.tail.dropLast
  else trimmed

inductive FilterOp (F : Type) where
  | eq (expected : Text)
  | neq (expected : Text)
  | gt (num : F)
  | gte (num : F)
  | lt (num : F)
  | lte (num : F)
  | in (candidates : List Text)
  | isNull
  | isNotNull

structure ColumnFilter (F : Type) where
  column : Text
  op : FilterOp F

variable (serde : Serde F)

def parseOp (name : String) (val : Text) : Option (FilterOp F) :=
  match name with
  | "eq" => some (.eq (stripQuotes val))
  | "neq" => some (.neq (stripQuotes val))
  | "gt" => (serde.parseF64 val).map .gt
  | "gte" => (serde.parseF64 val).map .gte
  | "lt" => (serde.parseF64 val).map .lt
  | "lte" => (serde.parseF64 val).map .lte
  | "in" =>
    if 2 ≤ val.length ∧ val.head? = some '(' ∧ val.getLast? = some ')' then
      some (.in ((val.tail.dropLast.splitOn ',').map fun item => stripQuotes (trim item)))
    else none
  | "is" =>
    if eqIgnoreAsciiCase val "null".toList then some .isNull
    else if eqIgnoreAsciiCase val "not.null".toList then some .isNotNull
    else none
  | _ => none

def ColumnFilter.parse (filter : Text) : Option (ColumnFilter F) := do
  let (left, right) ← cut '=' (trim filter)
  let (name, val) ← cut '.' (trim right)
  let op ← parseOp serde (String.ofList name) val
  return { column := trim left, op }

/-! ## 行に当てる -/

def valueToString : Value → Text
  | .string s => s
  | .number text => text
  | .bool b => (toString b).toList
  | .null => "null".toList
  | other => serde.display other

def valueToF64 : Value → Option F
  | .number text => serde.asF64 text
  | .string s => serde.parseF64 s
  | _ => none

def Value.isNull : Value → Bool
  | .null => true
  | _ => false

/-- 列の値に当てる。`none` は、列がないことである。 -/
def FilterOp.matches (op : FilterOp F) (val : Option Value) : Bool :=
  match op with
  | .isNull => val.all Value.isNull
  | .isNotNull => val.any fun v => !v.isNull
  | .eq expected => val.any fun v => valueToString serde v = expected
  | .neq expected => val.all fun v => valueToString serde v ≠ expected
  | .gt num => (val.bind (valueToF64 serde)).any fun n => serde.lt num n
  | .gte num => (val.bind (valueToF64 serde)).any fun n => serde.le num n
  | .lt num => (val.bind (valueToF64 serde)).any fun n => serde.lt n num
  | .lte num => (val.bind (valueToF64 serde)).any fun n => serde.le n num
  | .in candidates => val.any fun v => valueToString serde v ∈ candidates

def ColumnFilter.matches (serde : Serde F) (filter : ColumnFilter F) (record : Value) : Bool :=
  match record with
  | .object entries => filter.op.matches serde ((entries.find? fun e => e.1 = filter.column).map Prod.snd)
  | _ => false

/-!
## 在席（realtime-gateway/src/presence.rs）

`phx_ref` は、呼び出しごとに新しい。
-/

abbrev ConnectionId := Nat

def ConnectionId.text (id : ConnectionId) : Text := "conn_".toList ++ (toString id).toList

structure PresenceMeta where
  phxRef : Text
  payload : Value

/-- U+001F で区切った、テナントと話題の名。 -/
def separator : Char := Char.ofNat 0x1f

def topicKey (tenantId topic : Text) : Text := tenantId ++ separator :: topic

structure PresenceManager where
  connectionPresences : HashMap (Text × ConnectionId) (List (Text × PresenceMeta))
  topicStates : HashMap Text (HashMap Text (List PresenceMeta))

def PresenceManager.new : PresenceManager := { connectionPresences := ∅, topicStates := ∅ }

structure PresenceDiff where
  joins : HashMap Text Value
  leaves : HashMap Text Value

/-- `json!({ "metas": metas })` -/
def metasValue (metas : List Value) : Value := .object [field "metas" (.array metas)]

variable {F : Type}

/-- 在席の鍵は、引数、`key`、`user_id`、接続の名の順に選ぶ。 -/
def resolvedKey (connectionId : ConnectionId) (key : Option Text) (payload : Value) : Text :=
  (key.or <| ((payload.get "key").bind Value.asStr).or <| (payload.get "user_id").map (displayed serde)).getD connectionId.text

def metaOf (phxRef : Text) (payload : Value) : PresenceMeta where
  phxRef
  payload := .object <| Value.insert (match payload with
    | .object entries => entries
    | _ => []) "phx_ref".toList (.string phxRef)

namespace PresenceManager

variable (manager : PresenceManager)

def state (scopedTopic : Text) : HashMap Text (List PresenceMeta) := (manager.topicStates.lookup scopedTopic).getD ∅

def track (serde : Serde F) (tenantId : Text) (connectionId : ConnectionId) (topic : Text) (key : Option Text) (payload : Value) (phxRef : Text) :
    PresenceDiff × PresenceManager :=
  let scopedTopic := topicKey tenantId topic
  let resolved := resolvedKey serde connectionId key payload
  let added := metaOf phxRef payload
  let connKey := (scopedTopic, connectionId)
  let topicMap := manager.state scopedTopic
  ({ joins := (∅ : HashMap Text Value).insert resolved (metasValue [added.payload]), leaves := ∅ },
    { connectionPresences := manager.connectionPresences.insert connKey
        ((manager.connectionPresences.lookup connKey).getD [] ++ [(resolved, added)])
      topicStates := manager.topicStates.insert scopedTopic
        (topicMap.insert resolved ((topicMap.lookup resolved).getD [] ++ [added])) })

def withdraw (topicMap : HashMap Text (List PresenceMeta)) (entry : Text × PresenceMeta) : HashMap Text (List PresenceMeta) :=
  match topicMap.lookup entry.1 with
  | none => topicMap
  | some metas =>
    let rest := metas.filter fun m => m.phxRef ≠ entry.2.phxRef
    if rest = [] then topicMap.erase entry.1 else topicMap.insert entry.1 rest

/-- 鍵ごとの知らせ。同じ鍵の在席は、最後のものだけが残る。 -/
def leavesOf (removed : List (Text × PresenceMeta)) : HashMap Text Value :=
  removed.foldl (fun leaves entry => leaves.insert entry.1 (metasValue [entry.2.payload])) ∅

def untrack (tenantId : Text) (connectionId : ConnectionId) (topic : Text) : Option PresenceDiff × PresenceManager :=
  let scopedTopic := topicKey tenantId topic
  let connKey := (scopedTopic, connectionId)
  match manager.connectionPresences.lookup connKey with
  | none => (none, manager)
  | some removed =>
    let manager := { manager with connectionPresences := manager.connectionPresences.erase connKey }
    if removed = [] then (none, manager)
    else match manager.topicStates.lookup scopedTopic with
      | none => (some { joins := ∅, leaves := ∅ }, manager)
      | some topicMap =>
        let topicMap := removed.foldl withdraw topicMap
        (some { joins := ∅, leaves := leavesOf removed }, { manager with
            topicStates := if topicMap.entries = [] then manager.topicStates.erase scopedTopic
              else manager.topicStates.insert scopedTopic topicMap })

def getState (tenantId topic : Text) : Value :=
  .object ((manager.state (topicKey tenantId topic)).entries.map fun e => (e.1, metasValue (e.2.map PresenceMeta.payload)))

end PresenceManager

/-!
## 差分から作る在席

加わる項目は列の後に足し、去る項目は `phx_ref` で選んで除く。
-/

def metasOf (v : Value) : List Value := ((v.get "metas").bind Value.asArray).getD []

def refOf (v : Value) : Option Text := (v.get "phx_ref").bind Value.asStr

abbrev PresenceView := HashMap Text (List Value)

namespace PresenceView

def join (view : PresenceView) (key : Text) (v : Value) : PresenceView :=
  view.insert key ((view.lookup key).getD [] ++ metasOf v)

def leave (view : PresenceView) (key : Text) (v : Value) : PresenceView :=
  match view.lookup key with
  | none => view
  | some metas =>
    let rest := metas.filter fun m => refOf m ∉ (metasOf v).map refOf
    if rest = [] then view.erase key else view.insert key rest

def apply (view : PresenceView) (diff : PresenceDiff) : PresenceView :=
  let joined := diff.joins.entries.foldl (fun view e => view.join e.1 e.2) view
  diff.leaves.entries.foldl (fun view e => view.leave e.1 e.2) joined

def Shows (view : PresenceView) (state : Value) : Prop :=
  ∀ key : Text, view.lookup key = (state.get (String.ofList key)).map metasOf

end PresenceView

inductive PresenceCall where
  | track (connectionId : ConnectionId) (key : Option Text) (payload : Value) (phxRef : Text)
  | untrack (connectionId : ConnectionId)

def PresenceCall.phxRef? : PresenceCall → Option Text
  | .track _ _ _ phxRef => some phxRef
  | .untrack _ => none

/-- 在席と、それまでの差分をすべて受け取った客。`used` は、それまでの `phx_ref` である。 -/
structure Watched where
  manager : PresenceManager
  view : PresenceView
  used : List Text

def Watched.start : Watched := { manager := .new, view := ∅, used := [] }

def Watched.step (tenantId topic : Text) (w : Watched) : PresenceCall → Watched
  | .track connectionId key payload phxRef =>
    let (diff, manager) := w.manager.track serde tenantId connectionId topic key payload phxRef
    { manager, view := w.view.apply diff, used := phxRef :: w.used }
  | .untrack connectionId =>
    let (diff, manager) := w.manager.untrack tenantId connectionId topic
    { w with manager, view := diff.elim w.view w.view.apply }

def Watched.Mirrored (tenantId topic : Text) (w : Watched) : Prop := w.view.Shows (w.manager.getState tenantId topic)

def Watched.SingleKeys (tenantId topic : Text) (w : Watched) : PresenceCall → Prop
  | .track .. => True
  | .untrack connectionId =>
    (((w.manager.connectionPresences.lookup (topicKey tenantId topic, connectionId)).getD []).map Prod.fst).Nodup

end Supacloud.Realtime
