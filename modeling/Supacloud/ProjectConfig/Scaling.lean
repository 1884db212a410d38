import Supacloud.ProjectConfig.Writes
import Supacloud.Library.Numbers
import Supacloud.Library.Table

/-!
# 計算資源と読み取りレプリカの拡縮（`services/scaling.service.ts`）

どの呼び出しも、設定の全体を読み、返事を待ってから、キーを一つ差し替えて全体を書く。読みと書きは、それぞれ一歩である。
-/

namespace Supacloud.ProjectConfig.Scaling

open Library

/-! ## 設定の値 -/

def text (s : String) : Json := .text (.other s)

structure TierSpec where
  cpu : ℕ
  memory : String
  limits : String

def computeTiers : List (String × TierSpec) :=
  [("micro", ⟨1, "2g", "cpu=1,mem=2g"⟩), ("small", ⟨2, "4g", "cpu=2,mem=4g"⟩), ("pro", ⟨4, "8g", "cpu=4,mem=8g"⟩),
    ("team", ⟨8, "16g", "cpu=8,mem=16g"⟩)]

/-- 知られた段階。`Object.prototype` から受け継いだ名の値は、`cpu` なども持たない。 -/
def assertKnownTier (tier : String) : Option (Option TierSpec) :=
  if tier ∈ inheritedNames then some none else (computeTiers.lookup tier).map some

def computeState (tier : String) (spec : Option TierSpec) (status : String) (now : Date) (lastError : Option String) : Json :=
  .object ([("tier", text tier), ("status", text status)] ++ (spec.map fun s => [("cpu", .number s.cpu), ("memory", text s.memory)]).getD [] ++
    [("updated_at", .text (.date now))] ++ (lastError.map fun e => ("last_error", text e)).toList)

/-- `status` は、`String` で文字列にすると五つの名のどれかになる値である。 -/
structure ReadReplicaRecord where
  id : Text
  ip : Text
  region : Text
  status : Json
  createdAt : Text
  updatedAt : Text
  lastError : Option Text

def ReadReplicaRecord.json (r : ReadReplicaRecord) : Json :=
  .object ([("id", .text r.id), ("ip", .text r.ip), ("region", .text r.region), ("status", r.status), ("created_at", .text r.createdAt),
    ("updated_at", .text r.updatedAt)] ++ (r.lastError.map fun e => ("last_error", .text e)).toList)

def deleted (status : Option Json) : Bool := strictEq status (some (text "deleted"))

/-- `[..].includes(String(status))`。要素が一つの配列は、その要素の文字列になる。 -/
def isStatus : Json → Bool
  | .text (.other s) => s ∈ ["provisioning", "active", "deleting", "deleted", "failed"]
  | .array [item] => isStatus item
  | _ => false

def textOf : Option Json → Option Text
  | some (.text s) => some s
  | _ => none

def rawReplicas (config : Object) : List Object :=
  match Assoc.get "read_replicas" config with
  | some (.array items) => items.filterMap Json.fields?
  | _ => []

def toRecord (uuid : Text) (now : Date) (replica : Object) : ReadReplicaRecord where
  id := (textOf (Assoc.get "id" replica)).getD uuid
  ip := (textOf (Assoc.get "ip" replica)).getD (.other "")
  region := (textOf (Assoc.get "region" replica)).getD (.other "local")
  status := ((Assoc.get "status" replica).filter isStatus).getD (text "provisioning")
  createdAt := (textOf (Assoc.get "created_at" replica)).getD (.date now)
  updatedAt := (textOf (Assoc.get "updated_at" replica)).getD (.date now)
  lastError := textOf (Assoc.get "last_error" replica)

/-- `id` のない項目は、`crypto.randomUUID()` の値 `uuid i` を得る。 -/
def normalizeReadReplicas (uuid : ℕ → Text) (now : Date) (config : Object) : List ReadReplicaRecord :=
  ((rawReplicas config).mapIdx fun i replica => toRecord (uuid i) now replica).filter fun r => r.ip ≠ .other ""

def trim (s : List Char) : List Char := ((s.dropWhile isWhitespace).reverse.dropWhile isWhitespace).reverse

/-- `replica_ip` の `trim` の後の検査 `/^[A-Za-z0-9.:-]+$/`。 -/
def assertIpAddress (ip : String) : Option String :=
  let value := trim ip.toList
  if value ≠ [] && value.all fun c => c.isAlphanum || c == '.' || c == ':' || c == '-' then some (String.ofList value) else none

/-! ## 呼び出し -/

inductive Operation where
  | verticalScale (tier : String)
  | horizontalScale (replicaIp : String) (region : Text)
  | removeReadReplica (replicaId : Text)

/-- 次の一歩。`config` は読んだ文書、`list` はその後に書く列である。 -/
inductive Pc where
  | start
  | patchRead (compute : Json) (error : Option (Option String))
  | patchWrite (compute : Json) (error : Option (Option String)) (config : Object)
  | verticalShell (tier : String) (spec : Option TierSpec)
  | read
  | firstWrite (config : Object)
  | addReplica (config : Object) (list : List ReadReplicaRecord) (record : ReadReplicaRecord)
  | gateway (config : Object) (list : List ReadReplicaRecord) (record : ReadReplicaRecord)
  | lastWrite (config : Object) (list : List ReadReplicaRecord) (record : ReadReplicaRecord) (error : Option String)
  | finished (error : Option String)

structure Call where
  operation : Operation
  pc : Pc

/-- `others` は、ほかの書き手だけが書いた文書、`added` と `removed` は、これまでに加わったレプリカと、取り除いたレプリカの `id` で、三つは記録
である。 -/
structure World where
  ref : String
  row : Option Column
  calls : List Call
  others : Object
  added : List Text
  removed : List Text

/-- シェルかゲートウェイの返事、時計、`crypto.randomUUID` の値。 -/
structure Answer where
  success : Bool
  error : Option String
  now : Date
  uuid : ℕ → Text

inductive Event where
  | call (operation : Operation)
  | proceed (id : ℕ) (answer : Answer)
  | throws (id : ℕ) (error : String)
  | write (key : String) (value : Option Json)

/-! ## 一歩 -/

def replaceRecord (record : ReadReplicaRecord) (list : List ReadReplicaRecord) : List ReadReplicaRecord :=
  list.map fun r => if r.id = record.id then record else r

def withReplicas (list : List ReadReplicaRecord) (config : Object) : Object :=
  Object.set "read_replicas" (.array (list.map ReadReplicaRecord.json)) config

def Answer.message (answer : Answer) (fallback : String) : String := (answer.error.filter (· ≠ "")).getD fallback

def plan (answer : Answer) (ip : String) (region : Text) (config : Object) : Except String (List ReadReplicaRecord × ReadReplicaRecord) :=
  let replicas := (normalizeReadReplicas answer.uuid answer.now config).filter fun r => !deleted (some r.status)
  let existing := replicas.find? (·.ip = .other ip)
  let record (id createdAt : Text) : ReadReplicaRecord :=
    { id, ip := .other ip, region, status := text "provisioning", createdAt, updatedAt := .date answer.now, lastError := none }
  match existing with
  | none =>
    let new := record (answer.uuid (rawReplicas config).length) (.date answer.now)
    .ok (replicas ++ [new], new)
  | some existing =>
    if strictEq (some existing.status) (some (text "failed")) then
      let again := record existing.id existing.createdAt
      .ok (replaceRecord again replicas, again)
    else .error s!"Read replica {ip} already exists"

def World.setPc (w : World) (id : ℕ) (call : Call) (pc : Pc) : World := { w with calls := w.calls.set id { call with pc } }

/-- 引いた UUID は、取り除いたレプリカの `id` と重ならない。 -/
def Answer.Fresh (answer : Answer) (config : Object) (w : World) : Prop :=
  ∀ i ∈ List.range ((rawReplicas config).length + 1), answer.uuid i ∉ w.removed

instance {answer : Answer} {config : Object} {w : World} : Decidable (answer.Fresh config w) :=
  inferInstanceAs (Decidable (∀ i ∈ List.range _, _))

def World.firstWrite (w : World) (id : ℕ) (call : Call) (config : Object) (answer : Answer) : World :=
  match call.operation with
  | .horizontalScale replicaIp region =>
    match assertIpAddress replicaIp with
    | none => w
    | some ip =>
      match plan answer ip region config with
      | .error e => w.setPc id call (.finished (some e))
      | .ok (list, record) =>
        { w with row := replaceProjectConfig (withReplicas list config) w.row, added := record.id :: w.added }.setPc id call
          (.addReplica config list record)
  | .removeReadReplica replicaId =>
    let replicas := normalizeReadReplicas answer.uuid answer.now config
    match replicas.find? (·.id = replicaId) with
    | none => w.setPc id call (.finished none)
    | some existing =>
      if deleted (some existing.status) then w.setPc id call (.finished none)
      else
        let deleting := { existing with status := text "deleting", updatedAt := .date answer.now }
        { w with row := replaceProjectConfig (withReplicas (replaceRecord deleting replicas) config) w.row }.setPc id call
          (.gateway config replicas existing)
  | .verticalScale _ => w

def Operation.gatewayStatus : Operation → String × String
  | .removeReadReplica _ => ("deleted", "gateway removal failed")
  | _ => ("active", "gateway registration failed")

def World.proceed (w : World) (id : ℕ) (call : Call) (answer : Answer) : World :=
  let go := w.setPc id call
  let failed (record : ReadReplicaRecord) (message : String) : ReadReplicaRecord :=
    { record with status := text "failed", updatedAt := .date answer.now, lastError := some (.other message) }
  let notFound := s!"Project {w.ref} not found"
  match call.pc with
  | .start =>
    match call.operation with
    | .verticalScale tier =>
      match assertKnownTier tier with
      | none => go (.finished (some s!"Unknown compute tier '{tier}'. Supported tiers: micro, small, pro, team"))
      | some spec => go (.patchRead (computeState tier spec "scaling" answer.now none) none)
    | .horizontalScale replicaIp _ =>
      match assertIpAddress replicaIp with
      | none => go (.finished (some "replica_ip must be an IP address or DNS-safe host"))
      | some _ => go .read
    | .removeReadReplica _ => go .read
  | .patchRead compute error =>
    match w.row with
    | none => go (.finished (some notFound))
    | some column => go (.patchWrite compute error (normalizeProjectConfig column))
  | .patchWrite compute error config =>
    let written := { w with row := replaceProjectConfig (Object.set "compute" compute config) w.row }
    match w.row, error, call.operation with
    | none, _, _ => go (.finished (some notFound))
    | _, some error, _ => written.setPc id call (.finished error)
    | _, none, .verticalScale tier =>
      written.setPc id call (((assertKnownTier tier).map (.verticalShell tier)).getD (.finished none))
    | _, _, _ => w
  | .verticalShell tier spec =>
    let message := answer.message "compute scaling failed"
    if answer.success then go (.patchRead (computeState tier spec "active" answer.now none) (some none))
    else go (.patchRead (computeState tier spec "failed" answer.now (some message)) (some (some message)))
  | .read =>
    match w.row, call.operation with
    | some column, _ => go (.firstWrite (normalizeProjectConfig column))
    | none, .removeReadReplica _ => go (.finished none)
    | none, _ => go (.finished (some notFound))
  | .firstWrite config => if answer.Fresh config w then w.firstWrite id call config answer else w
  | .addReplica config list record =>
    let message := answer.message "replica initialization failed"
    if answer.success then go (.gateway config list record) else go (.lastWrite config list (failed record message) (some message))
  | .gateway config list record =>
    let (status, fallback) := call.operation.gatewayStatus
    if answer.success then go (.lastWrite config list { record with status := text status, updatedAt := .date answer.now } none)
    else go (.lastWrite config list (failed record (answer.message fallback)) (some (answer.message fallback)))
  | .lastWrite config list record error =>
    let removed := if deleted (some record.status) then record.id :: w.removed else w.removed
    { w with row := replaceProjectConfig (withReplicas (replaceRecord record list) config) w.row, removed }.setPc id call (.finished error)
  | .finished _ => w

/-- ほかの書き手が、キーを一つ書くか消す。`read_replicas` は書かない。 -/
def writeKey (key : String) (value : Option Json) (config : Object) : Object :=
  match value with
  | some value => Object.set key value config
  | none => Assoc.erase key config

def World.step (w : World) : Event → World
  | .call operation => { w with calls := w.calls ++ [⟨operation, .start⟩] }
  | .proceed id answer =>
    match w.calls[id]? with
    | none => w
    | some call => w.proceed id call answer
  | .throws id error =>
    match w.calls[id]? with
    | none => w
    | some call => w.setPc id call (.finished (some error))
  | .write key value =>
    if key = "read_replicas" then w
    else
      { w with
        row := w.row.map fun column => .object (writeKey key value (normalizeProjectConfig column))
        others := writeKey key value w.others }

def World.AllFinished (w : World) : Prop := ∀ call ∈ w.calls, ∃ error, call.pc = .finished error

end Supacloud.ProjectConfig.Scaling
