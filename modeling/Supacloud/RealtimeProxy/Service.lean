import Supacloud.AuditChain.Values
import Supacloud.Library.Runs

/-!
# 変更の購読と配信の形（utils/realtime-change.ts、services/realtime-bun.service.ts）

絞り込みの式の読み取りと評価は、`Filters` の任意の関数とする。オブジェクトは、鍵の重ならない項目の並びである。
-/

namespace Supacloud.RealtimeProxy

open Contracts (JsString)

open Vectors (js)

abbrev Json := Supacloud.Contracts.CommandJson

abbrev Record := List (JsString × Json)

inductive ChangeType where
  | insert
  | update
  | delete
  deriving DecidableEq

inductive SubscriptionId where
  | text (s : JsString)
  | number (n : Nat)
  deriving DecidableEq

structure PostgresChangeConfig where
  id : Option SubscriptionId
  event : Option ChangeType
  schema : JsString
  table : Option JsString
  filter : Option JsString
  select : Option (List JsString)
  deriving DecidableEq

structure Column where
  name : JsString
  type : JsString
  deriving DecidableEq

structure RealtimeChange where
  columns : List Column
  commitTimestamp : JsString
  record : Record
  oldRecord : Option Record
  schema : JsString
  table : JsString
  type : ChangeType
  deriving DecidableEq

structure ChangeEvent where
  data : RealtimeChange
  errors : List JsString
  ids : List SubscriptionId
  deriving DecidableEq

/-- 絞り込みの式。`parses` は `parseRealtimeFilter` が読めること、`native` は `canEvaluateRealtimeFilterNatively`、`holds` は
`matchesRealtimeFilter` である。 -/
structure Filters where
  parses : JsString → Bool
  native : Option JsString → Bool
  holds : JsString → Record → Bool

/-! ## 購読の読み取り -/

def isLetter (u : UInt16) : Bool := (65 ≤ u && u ≤ 90) || (97 ≤ u && u ≤ 122) || u == 95

def isDigit (u : UInt16) : Bool := 48 ≤ u && u ≤ 57

/-- `/^[a-zA-Z_][a-zA-Z0-9_]{0,62}$/` -/
def isRealtimeIdentifier : JsString → Bool
  | [] => false
  | u :: rest => isLetter u && rest.all (fun v => isLetter v || isDigit v) && rest.length ≤ 62

def isRealtimePattern (s : JsString) : Bool :=
  s != [] && !s.contains 0 && (Supacloud.AuditChain.utf8 s).length ≤ 63

def maxSafeInteger : Nat := 9007199254740991

def member (entries : List (JsString × Json)) (name : String) : Option Json := entries.lookup (js name)

def readEvent : Option Json → Option (Option ChangeType)
  | some (.string s) =>
    if s = js "*" then some none
    else if s = js "INSERT" then some (some .insert)
    else if s = js "UPDATE" then some (some .update)
    else if s = js "DELETE" then some (some .delete)
    else none
  | _ => none

/-- 省いた項目は none、読めない項目は失敗である。 -/
def readId : Option Json → Option (Option SubscriptionId)
  | none => some none
  | some (.string s) => if s = [] then none else some (some (.text s))
  | some (.number q) =>
    if q.den = 1 ∧ 0 ≤ q.num ∧ q.num.toNat ≤ maxSafeInteger then some (some (.number q.num.toNat)) else none
  | some _ => none

/-- `null` と空の文字列は、省いたものとみなす。 -/
def readOptional (accepts : JsString → Bool) : Option Json → Option (Option JsString)
  | none | some .null => some none
  | some (.string s) => if s = [] then some none else if accepts s then some (some s) else none
  | some _ => none

def readColumn : Json → Option JsString
  | .string s => if isRealtimePattern s then some s else none
  | _ => none

def readSelect : Option Json → Option (Option (List JsString))
  | none => some none
  | some (.array items) =>
    if items.length > 100 then none else do
      let select ← items.mapM readColumn
      if select.Nodup then some (some select) else none
  | some _ => none

def readSubscription (filters : Filters) : Json → Option PostgresChangeConfig
  | .object entries => do
      let event ← readEvent (member entries "event")
      let .string schema ← member entries "schema" | none
      if !isRealtimePattern schema then none
      let id ← readId (member entries "id")
      let table ← readOptional isRealtimePattern (member entries "table")
      let filter ← readOptional filters.parses (member entries "filter")
      let select ← readSelect (member entries "select")
      some { id, event, schema, table, filter, select }
  | _ => none

def parsePostgresChangeSubscriptions (filters : Filters) : Json → Option (List PostgresChangeConfig)
  | .array items => if items = [] ∨ items.length > 100 then none else items.mapM (readSubscription filters)
  | _ => none

def canUseNativeRealtimeSubscriptions (filters : Filters) (subscriptions : List PostgresChangeConfig) : Bool :=
  subscriptions.all fun subscription =>
    isRealtimeIdentifier subscription.schema && subscription.table.any isRealtimeIdentifier && filters.native subscription.filter &&
      subscription.select.all fun select => select.all isRealtimeIdentifier

/-! ## サーバーの識別子 -/

def sameRealtimeSubscription (left right : PostgresChangeConfig) : Bool :=
  left.event == right.event && left.schema == right.schema && left.table == right.table && left.filter == right.filter &&
    (right.select == none || left.select == right.select)

/-- `JSON.stringify({ ...subscription, id: null })`。id の位置は、購読が id を持つかどうかで変わる。後に項目がなければ、綴りは同じ
である。 -/
def identity (subscription : PostgresChangeConfig) : PostgresChangeConfig × Bool :=
  ({ subscription with id := none },
    subscription.id.isSome && (subscription.table.isSome || subscription.filter.isSome || subscription.select.isSome))

def bindLoop (identities : List (SubscriptionId × (PostgresChangeConfig × Bool))) :
    List PostgresChangeConfig → List PostgresChangeConfig → Option (List PostgresChangeConfig)
  | [], _ => some []
  | _ :: _, [] => none
  | subscription :: subscriptions, mapping :: mappings =>
    match mapping.id with
    | none => none
    | some id =>
      if !sameRealtimeSubscription subscription mapping then none
      else if (identities.lookup id).any (· != identity subscription) then none
      else (bindLoop ((id, identity subscription) :: identities) subscriptions mappings).map ({ subscription with id := some id } :: ·)

def bindRealtimeSubscriptionIds (filters : Filters) (subscriptions : List PostgresChangeConfig) (value : Json) :
    Option (List PostgresChangeConfig) :=
  match parsePostgresChangeSubscriptions filters value with
  | none => none
  | some mappings => if mappings.length ≠ subscriptions.length then none else bindLoop [] subscriptions mappings

/-! ## 上流の経路の射影 -/

def textLe : JsString → JsString → Bool
  | [], _ => true
  | _ :: _, [] => false
  | a :: s, b :: t => a < b || (a == b && textLe s t)

def byText (a b : JsString) : Prop := textLe a b = true

instance : DecidableRel byText := fun a b => inferInstanceAs (Decidable (textLe a b = true))

structure Group where
  key : Option (List JsString)
  ids : List SubscriptionId
  select : Option (List JsString)

def groupKey (select : Option (List JsString)) : Option (List JsString) := select.map fun names => names.insertionSort byText

def addToGroup (id : SubscriptionId) (select : Option (List JsString)) : List Group → List Group
  | [] => [{ key := groupKey select, ids := [id], select }]
  | group :: groups =>
    if group.key = groupKey select then
      (if id ∈ group.ids then group else { group with ids := group.ids ++ [id] }) :: groups
    else group :: addToGroup id select groups

def decimal (n : Nat) : JsString := js (toString n)

def groupsFrom (ids : List SubscriptionId) (index : Nat) (groups : List Group) : List PostgresChangeConfig → List Group
  | [] => groups
  | subscription :: subscriptions =>
    let id := subscription.id.getD (.text (decimal index))
    groupsFrom ids (index + 1) (if id ∈ ids then addToGroup id subscription.select groups else groups) subscriptions

def project (names : List JsString) (record : Record) : Record := record.filter fun entry => names.contains entry.1

def projectData (select : Option (List JsString)) (data : RealtimeChange) : RealtimeChange :=
  match select with
  | none => data
  | some names =>
    if names.contains (js "*") then data
    else { data with
      record := project names data.record
      columns := data.columns.filter fun column => names.contains column.name
      oldRecord := data.oldRecord.map (project names) }

def projectRealtimeChangeEvents (event : ChangeEvent) (subscriptions : List PostgresChangeConfig) : List ChangeEvent :=
  (groupsFrom event.ids 0 [] subscriptions).map fun group =>
    { event with data := projectData group.select event.data, ids := group.ids }

/-! ## ネイティブの経路 -/

/-- `parseInt(s, 10)` が飛ばす空白。 -/
def isSpace (u : UInt16) : Bool :=
  (9 ≤ u && u ≤ 13) || u == 32 || u == 160 || u == 0x1680 || (0x2000 ≤ u && u ≤ 0x200A) || u == 0x2028 || u == 0x2029 ||
    u == 0x202F || u == 0x205F || u == 0x3000 || u == 0xFEFF

def parseDigits (s : JsString) : Option Int :=
  match s.takeWhile isDigit with
  | [] => none
  | digits => some (digits.foldl (fun value u => value * 10 + (u.toNat - 48 : Int)) 0)

/-- `parseInt(s, 10)`。none は NaN である。 -/
def parseInteger (s : JsString) : Option Int :=
  match s.dropWhile isSpace with
  | 45 :: rest => (parseDigits rest).map Neg.neg
  | 43 :: rest => parseDigits rest
  | rest => parseDigits rest

/-- 番号としての識別子。`String(undefined)` は番号でない。 -/
def numericId : Option SubscriptionId → Option Int
  | none => none
  | some (.number n) => some n
  | some (.text s) => parseInteger s

/-- `String(sub.id ?? i)` -/
def ownName (index : Nat) : Option SubscriptionId → JsString
  | none => decimal index
  | some (.number n) => decimal n
  | some (.text s) => s

abbrev IdMap := Int → Option JsString

def registerSubscriptionIds (map : IdMap) (stateId : JsString) (ids : List SubscriptionId) : IdMap :=
  ids.foldl (fun map id =>
    match id with
    | .number n => fun key => if key = n then some stateId else map key
    | .text _ => map) map

def emittedId (map : IdMap) (index : Nat) (id : Option SubscriptionId) : JsString :=
  match (numericId id).bind map with
  | some [] | none => ownName index id
  | some stateId => stateId

def matchesChange (filters : Filters) (change : RealtimeChange) (sub : PostgresChangeConfig) : Bool :=
  (sub.event == none || sub.event == some change.type) && sub.schema == change.schema &&
    sub.table.all (fun table => table == [] || table == change.table) &&
    sub.filter.all fun filter => filter == [] || filters.holds filter change.record

def matchingIdsFrom (filters : Filters) (map : IdMap) (change : RealtimeChange) (index : Nat) : List PostgresChangeConfig → List JsString
  | [] => []
  | sub :: subs =>
    let rest := matchingIdsFrom filters map change (index + 1) subs
    if matchesChange filters change sub then emittedId map index sub.id :: rest else rest

def matchingIds (filters : Filters) (map : IdMap) (change : RealtimeChange) (subs : List PostgresChangeConfig) : List JsString :=
  matchingIdsFrom filters map change 0 subs

def formatEvent (inner : RealtimeChange) (ids : List JsString) : ChangeEvent :=
  { data := inner, errors := [], ids := ids.map .text }

def stateEvents (filters : Filters) (map : IdMap) (change : RealtimeChange) (subs : List PostgresChangeConfig) : List ChangeEvent :=
  match matchingIds filters map change subs with
  | [] => []
  | ids => [formatEvent change ids]

/-! ## 二つの経路 -/

structure NativeChannel (filters : Filters) where
  changes : List PostgresChangeConfig
  native : canUseNativeRealtimeSubscriptions filters changes = true
  value : Json
  bindings : List PostgresChangeConfig
  bound : bindRealtimeSubscriptionIds filters changes value = some bindings
  nativeId : JsString

abbrev Registration := JsString × List SubscriptionId

def registered (registrations : List Registration) : IdMap :=
  registrations.foldl (fun map r => registerSubscriptionIds map r.1 r.2) fun _ => none

variable {filters : Filters} (channel : NativeChannel filters) (map : IdMap) (change : RealtimeChange)

def announcedIds : List SubscriptionId := channel.bindings.filterMap (·.id)

def matchingServerIds : List SubscriptionId := (channel.bindings.filter (matchesChange filters change)).filterMap (·.id)

def nativeFrames : List ChangeEvent := (stateEvents filters map change channel.changes).filter fun event => event.data.type ≠ .delete

def delegatedFrames : List ChangeEvent :=
  projectRealtimeChangeEvents { data := change, errors := [], ids := matchingServerIds channel change } channel.bindings

def SameData (a b : RealtimeChange) : Prop := a.record = b.record ∧ a.oldRecord = b.oldRecord ∧ a.columns = b.columns

structure Agrees : Prop where
  announced : ∀ frame ∈ nativeFrames channel map change, ∀ id ∈ frame.ids, id ∈ announcedIds channel
  exact : ∀ id, (∃ frame ∈ nativeFrames channel map change, id ∈ frame.ids) ↔ id ∈ matchingServerIds channel change
  data : ∀ frame ∈ nativeFrames channel map change, ∀ id ∈ frame.ids,
    ∃ projected ∈ delegatedFrames channel change, id ∈ projected.ids ∧ SameData frame.data projected.data

/-- 表にある番号なら、その購読状態の名、そうでなければ、クライアントの付けた識別子か位置である。 -/
inductive Called (map : IdMap) (index : Nat) (id : Option SubscriptionId) : JsString → Prop where
  | shadowed {n stateId} (hid : numericId id = some n) (hmap : map n = some stateId) (hne : stateId ≠ []) :
      Called map index id stateId
  | own (hfree : ∀ n stateId, numericId id = some n → map n = some stateId → stateId = []) : Called map index id (ownName index id)

def Covers (select : Option (List JsString)) (data : RealtimeChange) : Prop :=
  ∀ names, select = some names → js "*" ∈ names ∨
    ((∀ entry ∈ data.record, entry.1 ∈ names) ∧ (∀ old, data.oldRecord = some old → ∀ entry ∈ old, entry.1 ∈ names) ∧
      ∀ column ∈ data.columns, column.name ∈ names)

/-- 当てはまる購読の呼び名とサーバーの識別子が、全体として同じであり、どの購読も列を落とさない。 -/
structure Aligned : Prop where
  called : ∀ (i : Nat) sub name, channel.changes[i]? = some sub → matchesChange filters change sub = true → Called map i sub.id name →
    .text name ∈ matchingServerIds channel change
  served : ∀ id ∈ matchingServerIds channel change,
    ∃ (i : Nat) (sub : PostgresChangeConfig) (name : JsString), channel.changes[i]? = some sub ∧ matchesChange filters change sub = true ∧ Called map i sub.id name ∧ id = .text name
  covered : ∀ sub ∈ channel.changes, matchesChange filters change sub = true → Covers sub.select change

/-!
## 一つのテナントの変更の配信（services/realtime-bun.service.ts）

`await` の間を一歩とし、作業どうしは互いに待たない。見えるかどうかの検査は、いつ終わってもよく、その答えは、
変更と購読状態の組ごとに任意に決まっている。
-/

open Vectors (js)

/-- `RealtimeSubscriptionState`。番号 n の名は `${projectRef}:${n}` である。 -/
structure SubscriptionState where
  id : Nat
  subscriptions : List PostgresChangeConfig
  token : Option JsString
  deriving DecidableEq

def stateName (projectRef : JsString) (id : Nat) : JsString := projectRef ++ js ":" ++ decimal id

/-- 始めた検査。`ids` は、始めたときの名である。`registered` は、そのとき登録されていたことの記録である。 -/
structure Check where
  stateId : Nat
  token : Option JsString
  ids : List JsString
  registered : Bool

/-- 一つの変更の処理。`array` は、始めに取った配列の場所、`present` は、始めに登録されていた購読状態の記録である。 -/
structure Work where
  offset : Nat
  change : RealtimeChange
  array : Nat
  present : List Nat

/-- 検査の終わりを待つ処理。`next` は、配列の次に見る位置、`checked` は、検査の終わった購読状態の記録である。 -/
structure Scan where
  work : Work
  next : Nat
  check : Check
  checked : List Nat

structure Task where
  changes : List RealtimeChange
  position : Nat
  running : Option Scan

structure Emission where
  task : Nat
  offset : Nat
  stateId : Nat
  event : ChangeEvent
  token : Option JsString
  registered : Bool

/-- 終わった処理の記録。`kept` は、始めから終わりまで登録されていた購読状態である。 -/
structure Finished where
  task : Nat
  offset : Nat
  change : RealtimeChange
  kept : List SubscriptionState
  deriving DecidableEq

/-- テナントの状態。`arrays` は、これまでに作られた配列、`current` は、`tenantSubscriptions` にある配列の場所である。 -/
structure Tenant where
  projectRef : JsString
  arrays : List (List SubscriptionState)
  current : Option Nat
  idMap : IdMap
  subscriptionCounter : Nat
  tasks : List Task
  log : List Emission
  finished : List Finished

def Tenant.empty (projectRef : JsString) : Tenant :=
  { projectRef, arrays := [], current := none, idMap := fun _ => none, subscriptionCounter := 0, tasks := [], log := [], finished := [] }

namespace Tenant

variable (w : Tenant)

def states (array : Nat) : List SubscriptionState := (w.arrays[array]?).getD []

def currentStates : List SubscriptionState := w.current.elim [] w.states

def isRegistered (id : Nat) : Bool := w.currentStates.any (·.id == id)

def emittedTo (task offset id : Nat) : Nat := w.log.countP fun e => e.task == task && e.offset == offset && e.stateId == id

end Tenant

/-- 変更の到着、処理の始まり、検査の終わりと、テナントの接続の呼び出し。 -/
inductive ServiceEvent where
  | deliver (changes : List RealtimeChange)
  | start (task : Nat)
  | resolve (task : Nat)
  | subscribe (skipped : Nat) (subscriptions : List PostgresChangeConfig) (token : JsString)
  | unsubscribe (id : Nat)
  | updateToken (id : Nat) (token : JsString)
  | registerIds (id : Nat) (ids : List SubscriptionId)

/-! ## 登録 -/

/-- 番号は、ほかのテナントの登録の分だけ飛ぶ。 -/
def subscribeTenant (w : Tenant) (skipped : Nat) (subscriptions : List PostgresChangeConfig) (token : JsString) : Tenant :=
  let id := w.subscriptionCounter + skipped + 1
  let state : SubscriptionState := { id, subscriptions, token := some token }
  match w.current with
  | some array => { w with subscriptionCounter := id, arrays := w.arrays.set array (w.states array ++ [state]) }
  | none => { w with subscriptionCounter := id, arrays := w.arrays ++ [[state]], current := some w.arrays.length }

/-- `findIndex` で見つけた要素を抜く。空になった配列は、表から外れる。 -/
def unsubscribeSubscription (w : Tenant) (id : Nat) : Tenant :=
  match w.current with
  | none => w
  | some array =>
    let states := (w.states array).eraseIdx ((w.states array).findIdx (·.id == id))
    { w with arrays := w.arrays.set array states, current := if states = [] then none else some array }

def SubscriptionState.withToken (id : Nat) (token : JsString) (state : SubscriptionState) : SubscriptionState :=
  if state.id = id then { state with token := some token } else state

def updateSubscriptionToken (w : Tenant) (id : Nat) (token : JsString) : Tenant :=
  match w.current with
  | none => w
  | some array => { w with arrays := w.arrays.set array ((w.states array).map (.withToken id token)) }

/-! ## 配信 -/

def SubscriptionState.matchesChange (filters : Filters) (change : RealtimeChange) (state : SubscriptionState) : Bool :=
  state.subscriptions.any (RealtimeProxy.matchesChange filters change)

/-- 位置 next から先の、はじめの当てはまる購読状態。当てはまらないものは、待たずに飛ばす。 -/
def nextMatch (filters : Filters) (change : RealtimeChange) (next : Nat) : List SubscriptionState → Option (Nat × SubscriptionState)
  | [] => none
  | state :: rest => if state.matchesChange filters change then some (next, state) else nextMatch filters change (next + 1) rest

def resume (filters : Filters) (w : Tenant) (k : Nat) (task : Task) (work : Work) (next : Nat) (checked : List Nat) : Tenant :=
  let states := w.states work.array
  match nextMatch filters work.change next (states.drop next) with
  | none =>
    let kept := states.filter fun state => work.present.contains state.id
    { w with
      tasks := w.tasks.set k { task with running := none }
      finished := w.finished ++ [{ task := k, offset := work.offset, change := work.change, kept }] }
  | some (i, state) =>
    let check : Check :=
      { stateId := state.id, token := state.token, ids := matchingIds filters w.idMap work.change state.subscriptions
        registered := w.isRegistered state.id }
    { w with tasks := w.tasks.set k { task with running := some { work, next := i + 1, check, checked } } }

def filterAndEmit (filters : Filters) (w : Tenant) (k : Nat) (task : Task) (change : RealtimeChange) : Tenant :=
  let started : Task := { task with position := task.position + 1 }
  match w.current with
  | none => { w with tasks := w.tasks.set k started }
  | some array =>
    if w.states array = [] then { w with tasks := w.tasks.set k started }
    else resume filters w k started { offset := task.position, change, array, present := (w.states array).map (·.id) } 0 []

def emission (k : Nat) (scan : Scan) : Emission :=
  { task := k, offset := scan.work.offset, stateId := scan.check.stateId, event := formatEvent scan.work.change scan.check.ids
    token := scan.check.token, registered := scan.check.registered }

def finishCheck (filters : Filters) (visible : Nat → Nat → Nat → Bool) (w : Tenant) (k : Nat) (task : Task) (scan : Scan) : Tenant :=
  let w' := if visible k scan.work.offset scan.check.stateId then { w with log := w.log ++ [emission k scan] } else w
  resume filters w' k task scan.work scan.next (scan.checked ++ [scan.check.stateId])

def step (filters : Filters) (visible : Nat → Nat → Nat → Bool) (w : Tenant) : ServiceEvent → Tenant
  | .deliver changes => { w with tasks := w.tasks ++ [{ changes, position := 0, running := none }] }
  | .start k =>
    match w.tasks[k]? with
    | none => w
    | some task =>
      match task.running, task.changes[task.position]? with
      | none, some change => filterAndEmit filters w k task change
      | _, _ => w
  | .resolve k =>
    match w.tasks[k]? with
    | none => w
    | some task =>
      match task.running with
      | none => w
      | some scan => finishCheck filters visible w k task scan
  | .subscribe skipped subscriptions token => subscribeTenant w skipped subscriptions token
  | .unsubscribe id => unsubscribeSubscription w id
  | .updateToken id token => updateSubscriptionToken w id token
  | .registerIds id ids => { w with idMap := registerSubscriptionIds w.idMap (stateName w.projectRef id) ids }

/-! ## 条件 -/

/-- 登録の取り消しが、進行中の処理に、まだ調べていない購読状態を飛ばさせない。 -/
def KeepsPlace (filters : Filters) (visible : Nat → Nat → Nat → Bool) (w : Tenant) : ServiceEvent → Prop
  | .unsubscribe id =>
    ∀ (k : Nat) (task : Task) (scan : Scan), w.tasks[k]? = some task → task.running = some scan → w.current = some scan.work.array →
      (w.states scan.work.array).findIdx (·.id == id) < scan.next →
        ∀ state, (w.states scan.work.array)[scan.next]? = some state → state.id ∈ scan.work.present →
          state.matchesChange filters scan.work.change = true → visible k scan.work.offset state.id = false
  | _ => True

def Upcoming (filters : Filters) (visible : Nat → Nat → Nat → Bool) (w : Tenant) (k i id : Nat) : Prop :=
  visible k i id = true ∧ ∃ task, w.tasks[k]? = some task ∧ ((∃ scan, task.running = some scan ∧ scan.work.offset = i ∧
        (scan.check.stateId = id ∨ ∃ j state, scan.next ≤ j ∧ (w.states scan.work.array)[j]? = some state ∧ state.id = id ∧
          state.matchesChange filters scan.work.change = true)) ∨
      (task.position ≤ i ∧ ∃ change, task.changes[i]? = some change ∧ ∃ state ∈ w.currentStates, state.id = id ∧
        state.matchesChange filters change = true))

/-- 見えると分かった検査が終わるとき、同じ購読状態にこれから出ることになっている、より古い変更がない。 -/
def InTurn (filters : Filters) (visible : Nat → Nat → Nat → Bool) (w : Tenant) : ServiceEvent → Prop
  | .resolve k =>
    ∀ (task : Task) (scan : Scan), w.tasks[k]? = some task → task.running = some scan →
      visible k scan.work.offset scan.check.stateId = true → ∀ k' < k, ∀ i, ¬ Upcoming filters visible w k' i scan.check.stateId
  | _ => True

def produced (w : Tenant) : List (Nat × Nat × RealtimeChange) :=
  w.tasks.zipIdx.flatMap fun task => task.1.changes.zipIdx.map fun change => (task.2, change.2, change.1)

def emittedFor (w : Tenant) (id : Nat) : List (Nat × Nat × RealtimeChange) :=
  (w.log.filter fun e => e.stateId == id).map fun e => (e.task, e.offset, e.event.data)

end Supacloud.RealtimeProxy
