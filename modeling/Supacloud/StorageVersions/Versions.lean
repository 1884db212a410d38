import Mathlib.Data.Nat.Basic
import Mathlib.Logic.Function.Basic
import Mathlib.Data.List.MinMax
import Mathlib.Data.List.Sort
import Supacloud.Library.Runs

/-!
# 版を残すバケットへの書き込み

書き込みは、置き換わる版を内部のバケットへ写してから行を書き、最後に保存先へ書く一つの取引である。巻き戻しても、
保存先のファイルと使った識別子は戻らない。
-/

namespace Supacloud.StorageVersions

abbrev Bytes := List UInt8

inductive VersioningStatus where
  | disabled
  | enabled
  | suspended
  deriving DecidableEq

structure Metadata where
  fields : List (String × String)
  userMetadata : Option (List (String × String))
  deriving DecidableEq

/-- `{ ...metadata, userMetadata: metadata.userMetadata || {} }`。 -/
def Metadata.stored (m : Metadata) : Metadata :=
  { m with userMetadata := some (m.userMetadata.getD []) }

def Metadata.empty : Metadata := { fields := [], userMetadata := none }

structure ObjectRow where
  owner : Option String
  ownerId : Option String
  metadata : Metadata
  version : String
  createdAt : ℕ

structure VersionRow where
  id : String
  name : String
  versionId : String
  owner : Option String
  ownerId : Option String
  metadata : Metadata
  isDeleteMarker : Bool
  createdAt : ℕ
  archivedAt : ℕ
  deriving DecidableEq

structure Tables where
  objects : String → Option ObjectRow
  versions : List VersionRow

def storageVersionBucket : String := ".supacloud_versions"

abbrev Files := String × String → Option Bytes

def uploadFile (ok : Bool) (place : String × String) (bytes : Bytes) (files : Files) : Option Files :=
  if ok then some (Function.update files place (some bytes)) else none

def copyFile (ok : Bool) (src dest : String × String) (files : Files) : Option Files :=
  if ok then (files src).map fun bytes => Function.update files dest (some bytes) else none

def deleteFile (ok : Bool) (place : String × String) (files : Files) : Option Files :=
  if ok then some (Function.update files place none) else none

def objectVersionStorageKey (bucketId name versionId : String) : String :=
  bucketId ++ "/" ++ name ++ "/" ++ versionId

/-- `uuid` は `gen_random_uuid()` と `crypto.randomUUID()` の返す識別子の並びで、繰り返さず、斜線を含まない。 -/
structure Bucket where
  id : String
  versioning : VersioningStatus
  visible : id ≠ storageVersionBucket
  uuid : ℕ → String
  unique : Function.Injective uuid
  plain : ∀ n, '/' ∉ (uuid n).toList

structure World where
  tables : Tables
  files : Files
  issued : ℕ

inductive Rejection where
  | physicalUploadFailed
  | alreadyExists
  | notFound
  | denied

abbrev Attempt := Except (Rejection × World)

/-! ## 書き込みの依頼 -/

inductive Action where
  | upload (upsert : Bool)
  | update
  | delete
  deriving DecidableEq

/-- 行ごとの方針が、この依頼に許すこと。`archive` は `storage.object_versions` への挿入である。 -/
structure Policies where
  select : Bool
  insert : Bool
  update : Bool
  delete : Bool
  archive : Bool

structure Outcomes where
  ensured : Bool
  copied : Bool
  physical : Bool

structure Request where
  action : Action
  owner : Option String
  metadata : Metadata
  bytes : Bytes
  policies : Policies
  outcomes : Outcomes

/-! ## 置き換わる版の保存 -/

namespace Bucket

variable (B : Bucket)

def place (name : String) : String × String := (B.id, name)

def archivePlace (name versionId : String) : String × String :=
  (storageVersionBucket, objectVersionStorageKey B.id name versionId)

end Bucket

def archivedRow (id name : String) (now : ℕ) (current : ObjectRow) : VersionRow :=
  { id := id, name := name, versionId := current.version, owner := current.owner, ownerId := current.ownerId
    metadata := current.metadata, isDeleteMarker := false, createdAt := current.createdAt, archivedAt := now }

def deleteMarker (id versionId name : String) (now : ℕ) (current : ObjectRow) : VersionRow :=
  { id := id, name := name, versionId := versionId, owner := current.owner, ownerId := current.ownerId
    metadata := .empty, isDeleteMarker := true, createdAt := now, archivedAt := now + 1000 }

/-- `ON CONFLICT (bucket_id, name, version_id) DO NOTHING` の挿入。 -/
def insertVersion (row : VersionRow) (versions : List VersionRow) : List VersionRow :=
  if versions.any fun v => v.name == row.name && v.versionId == row.versionId then versions else versions ++ [row]

def recordVersions (B : Bucket) (now : ℕ) (name : String) (action : Action) (current : ObjectRow) (w : World) : World :=
  let archived := insertVersion (archivedRow (B.uuid w.issued) name now current) w.tables.versions
  match action with
  | .delete =>
    { w with
      tables := { w.tables with versions := archived ++ [deleteMarker (B.uuid (w.issued + 1)) (B.uuid (w.issued + 2)) name now current] }
      issued := w.issued + 3 }
  | _ => { w with tables := { w.tables with versions := archived }, issued := w.issued + 1 }

/-- `FOR UPDATE` の読み出しも、今ある行の置き換えも、`SELECT` と `UPDATE` の両方の方針に従う。 -/
def Request.locks (r : Request) : Bool := r.policies.select && r.policies.update

def archiveCurrent (B : Bucket) (now : ℕ) (name : String) (r : Request) (w : World) : Attempt World :=
  if B.versioning = .enabled then
    match w.tables.objects name with
    | none => .ok w
    | some current =>
      if r.locks then
        if r.outcomes.ensured then
          match copyFile r.outcomes.copied (B.place name) (B.archivePlace name current.version) w.files with
          | none => .error (.physicalUploadFailed, w)
          | some files =>
            if r.policies.archive then .ok (recordVersions B now name r.action current { w with files := files })
            else .error (.denied, { w with files := files })
        else .error (.physicalUploadFailed, w)
      else .ok w
  else .ok w

def putObject (name : String) (row : Option ObjectRow) (w : World) : World :=
  { w with tables := { w.tables with objects := Function.update w.tables.objects name row }, issued := w.issued + 1 }

def insertedRow (B : Bucket) (now : ℕ) (r : Request) (w : World) : ObjectRow :=
  { owner := r.owner, ownerId := none, metadata := r.metadata.stored, version := B.uuid w.issued, createdAt := now }

def updatedRow (B : Bucket) (r : Request) (w : World) (row : ObjectRow) : ObjectRow :=
  { row with metadata := r.metadata.stored, version := B.uuid w.issued }

def writeObject (B : Bucket) (now : ℕ) (name : String) (r : Request) (w : World) : Attempt World :=
  match r.action, w.tables.objects name with
  | .upload _, none => if r.policies.insert then .ok (putObject name (some (insertedRow B now r w)) w) else .error (.denied, w)
  | .upload upsert, some row =>
    if r.policies.insert then
      if upsert then
        if r.locks then .ok (putObject name (some (updatedRow B r w row)) w) else .error (.denied, w)
      else .error (.alreadyExists, w)
    else .error (.denied, w)
  | .update, none => .error (.notFound, w)
  | .update, some row =>
    if r.policies.select then
      if r.policies.update then .ok (putObject name (some (updatedRow B r w row)) w) else .error (.denied, w)
    else .error (.notFound, w)
  | .delete, none => .error (.notFound, w)
  | .delete, some _ =>
    if r.policies.select && r.policies.delete then .ok (putObject name none w) else .error (.notFound, w)

/-! ## 取引 -/

def prepare (B : Bucket) (now : ℕ) (name : String) (r : Request) (w : World) : Attempt World :=
  archiveCurrent B now name r w >>= writeObject B now name r

def physicalAction (B : Bucket) (name : String) (r : Request) (w : World) : Attempt World :=
  let written :=
    match r.action with
    | .delete => deleteFile r.outcomes.physical (B.place name) w.files
    | _ => uploadFile r.outcomes.physical (B.place name) r.bytes w.files
  match written with
  | none => .error (.physicalUploadFailed, w)
  | some files => .ok { w with files := files }

def settle (w : World) : Attempt World → Except Rejection Unit × World
  | .ok w' => (.ok (), w')
  | .error (e, w') => (.error e, { w' with tables := w.tables })

def authorizeAction (B : Bucket) (now : ℕ) (name : String) (r : Request) (w : World) : Except Rejection Unit × World :=
  settle w (prepare B now name r w >>= physicalAction B name r)

/-!
## 残した版の取り除きと復元

版の一覧は、行の時刻をミリ秒に切り詰めて読む。
-/

/-- `toISOString` はミリ秒より下を落とす。 -/
def toIsoTimestamp (t : ℕ) : ℕ := t / 1000 * 1000

structure Removal where
  ensured : Bool
  copied : Bool
  deleted : String → Bool

def dropVersion (id : String) (w : World) : World :=
  { w with tables := { w.tables with versions := w.tables.versions.filter fun v => v.id != id } }

/-! ## 復元 -/

def restorable (marker : VersionRow) (versions : List VersionRow) : List VersionRow :=
  versions.filter fun v => v.name == marker.name && decide (v.archivedAt < toIsoTimestamp marker.archivedAt) && !v.isDeleteMarker

/-- `ORDER BY archived_at DESC LIMIT 1`。同じ時刻の行の順は決まっていないので、表の中で先のものとする。 -/
def previousVersion (marker : VersionRow) (versions : List VersionRow) : Option VersionRow :=
  (restorable marker versions).argmax fun v => v.archivedAt

def restoredRow (now : ℕ) (v : VersionRow) : ObjectRow :=
  { owner := v.owner, ownerId := v.ownerId, metadata := v.metadata, version := v.versionId, createdAt := now }

def restorePreviousVersion (B : Bucket) (now : ℕ) (o : Removal) (marker : VersionRow) (w : World) : Bool × World :=
  if o.ensured then
    match previousVersion marker w.tables.versions with
    | none => (true, dropVersion marker.id w)
    | some v =>
      match copyFile o.copied (B.archivePlace v.name v.versionId) (B.place v.name) w.files with
      | none => (false, w)
      | some files =>
        let objects := Function.update w.tables.objects v.name (some (restoredRow now v))
        let restored : World := { w with tables := { w.tables with objects := objects }, files := files }
        (true, dropVersion marker.id (dropVersion v.id restored))
  else (false, w)

def hasNewer (marker : VersionRow) (versions : List VersionRow) : Bool :=
  versions.any fun v => v.name == marker.name && v.id != marker.id && decide (toIsoTimestamp marker.archivedAt < v.archivedAt)

def findVersion (name versionId : String) (versions : List VersionRow) : Option VersionRow :=
  versions.find? fun v => v.name == name && v.versionId == versionId

def deleteExactVersion (B : Bucket) (now : ℕ) (name versionId : String) (o : Removal) (w : World) : Bool × World :=
  match findVersion name versionId w.tables.versions with
  | none => (false, w)
  | some version =>
    if version.isDeleteMarker then
      if (w.tables.objects name).isSome || hasNewer version w.tables.versions then (true, dropVersion version.id w)
      else restorePreviousVersion B now o version w
    else
      match deleteFile (o.deleted (objectVersionStorageKey B.id name versionId)) (B.archivePlace name versionId) w.files with
      | none => (false, w)
      | some files => (true, dropVersion version.id { w with files := files })

/-- 途中で保存先の削除に失敗すると投げるが、それまでに除いた行は戻らない。 -/
def purgeRows (B : Bucket) (deleted : String → Bool) (count : ℕ) : List VersionRow → World → Option ℕ × World
  | [], w => (some count, w)
  | v :: rows, w =>
    if v.isDeleteMarker then purgeRows B deleted (count + 1) rows (dropVersion v.id w)
    else
      match deleteFile (deleted (objectVersionStorageKey B.id v.name v.versionId)) (B.archivePlace v.name v.versionId) w.files with
      | none => (none, w)
      | some files => purgeRows B deleted (count + 1) rows (dropVersion v.id { w with files := files })

def purgeBucketVersions (B : Bucket) (deleted : String → Bool) (w : World) : Option ℕ × World :=
  purgeRows B deleted 0 w.tables.versions w

/-! ## 期限による取り除き -/

structure LifecycleRule where
  enabled : Bool
  noncurrentDays : ℕ
  newerNoncurrentVersions : Option ℕ
  daysRange : 1 ≤ noncurrentDays ∧ noncurrentDays ≤ 36500

structure CleanupStats where
  versionsDeleted : ℕ
  markersDeleted : ℕ

def dayMicros : ℕ := 24 * 60 * 60 * 1000000

def recency (versions : List VersionRow) (v : VersionRow) : ℕ :=
  1 + versions.countP fun v' =>
    !v'.isDeleteMarker && v'.name == v.name &&
      (decide (v.archivedAt < v'.archivedAt) || (v'.archivedAt == v.archivedAt && decide (v.id < v'.id)))

def expired (now : ℕ) (rule : LifecycleRule) (versions : List VersionRow) : List VersionRow :=
  versions.filter fun v =>
    !v.isDeleteMarker && decide (v.archivedAt + rule.noncurrentDays * dayMicros < now) &&
      decide (rule.newerNoncurrentVersions.getD 0 < recency versions v)

/-- `ORDER BY name ASC, archived_at DESC`。 -/
def cleanupOrder (a b : VersionRow) : Bool :=
  decide (a.name < b.name) || (a.name == b.name && decide (b.archivedAt ≤ a.archivedAt))

def cleanupRows (B : Bucket) (now : ℕ) (o : Removal) : List VersionRow → CleanupStats → World → CleanupStats × World
  | [], stats, w => (stats, w)
  | v :: rows, stats, w =>
    match deleteExactVersion B now v.name v.versionId o w with
    | (false, w') => cleanupRows B now o rows stats w'
    | (true, w') =>
      let counted :=
        if v.isDeleteMarker then { stats with markersDeleted := stats.markersDeleted + 1 }
        else { stats with versionsDeleted := stats.versionsDeleted + 1 }
      cleanupRows B now o rows counted w'

def cleanupRules (B : Bucket) (now : ℕ) (o : Removal) : List LifecycleRule → CleanupStats → World → CleanupStats × World
  | [], stats, w => (stats, w)
  | rule :: rules, stats, w =>
    if rule.enabled then
      let candidates := (expired now rule w.tables.versions).insertionSort fun a b => cleanupOrder a b
      let (stats, w) := cleanupRows B now o candidates stats w
      cleanupRules B now o rules stats w
    else cleanupRules B now o rules stats w

def cleanupProjectVersions (B : Bucket) (now : ℕ) (rules : List LifecycleRule) (o : Removal) (w : World) : CleanupStats × World :=
  cleanupRules B now o rules { versionsDeleted := 0, markersDeleted := 0 } w

/-!
## 処理の並び

一つ目は終わった処理の列、二つ目は時刻を決めてから名前ごとの錠を待つ取引、三つ目は保存先への書き込みと確定を分けた取引で、
確定に失敗したものの後始末は、錠を放した後に走る。
-/

open Library

inductive Operation where
  | write (now : ℕ) (name : String) (r : Request)
  | deleteVersion (now : ℕ) (name versionId : String) (o : Removal)
  | cleanup (now : ℕ) (rules : List LifecycleRule) (o : Removal)
  | purge (deleted : String → Bool)

def perform (B : Bucket) (w : World) : Operation → World
  | .write now name r => (authorizeAction B now name r w).2
  | .deleteVersion now name versionId o => (deleteExactVersion B now name versionId o w).2
  | .cleanup now rules o => (cleanupProjectVersions B now rules o w).2
  | .purge deleted => (purgeBucketVersions B deleted w).2

inductive Call where
  | write (name : String) (r : Request)
  | deleteVersion (name versionId : String) (o : Removal)

def Call.operation (now : ℕ) : Call → Operation
  | .write name r => .write now name r
  | .deleteVersion name versionId o => .deleteVersion now name versionId o

/-- `waiting` は、始まって錠を待っている取引と、その `now()`。 -/
structure Timeline where
  world : World
  clock : ℕ
  waiting : List (ℕ × Call)

inductive TimelineEvent where
  | tick (d : ℕ)
  | start (c : Call)
  | acquire (i : ℕ)

def timelineStep (B : Bucket) (s : Timeline) : TimelineEvent → Timeline
  | .tick d => { s with clock := s.clock + d }
  | .start c => { s with waiting := s.waiting ++ [(s.clock, c)] }
  | .acquire i =>
    match s.waiting[i]? with
    | none => s
    | some (now, c) => { s with world := perform B s.world (c.operation now), waiting := s.waiting.eraseIdx i }

/-! ## 確定の前後 -/

/-- 錠を持つ取引。`tables` はまだ確定していない行、`written` は保存先に書き終えたこと。 -/
structure Holder where
  request : Request
  tables : Tables
  written : Bool

structure Commits where
  world : World
  holder : Option Holder
  compensations : List Request
  writer : Option Request

/-- `left` は、書き込みに失敗した保存先に残るもの。 -/
inductive CommitEvent where
  | acquire (now : ℕ) (r : Request)
  | write (left : Option Bytes)
  | commit
  | abort
  | compensate (i : ℕ) (ok : Bool)

/-- 経路が後始末を渡すのは、上書きしないアップロードだけである。 -/
def Request.compensated (r : Request) : Bool := r.action == .upload false

def Request.writer (r : Request) : Option Request :=
  match r.action with
  | .delete => none
  | _ => some r

def commitStep (B : Bucket) (name : String) (s : Commits) : CommitEvent → Commits
  | .acquire now r =>
    match s.holder with
    | some _ => s
    | none =>
      match prepare B now name r s.world with
      | .ok w => { s with world := { w with tables := s.world.tables }, holder := some { request := r, tables := w.tables, written := false } }
      | .error (_, w) => { s with world := { w with tables := s.world.tables } }
  | .write left =>
    match s.holder with
    | none => s
    | some h =>
      if h.written then s
      else
        match physicalAction B name h.request s.world with
        | .ok w => { s with world := w, holder := some { h with written := true } }
        | .error (_, w) => { s with world := { w with files := Function.update w.files (B.place name) left }, holder := none }
  | .commit =>
    match s.holder with
    | none => s
    | some h => if h.written then { s with world := { s.world with tables := h.tables }, holder := none, writer := h.request.writer } else s
  | .abort =>
    match s.holder with
    | none => s
    | some h =>
      { s with
        holder := none
        compensations := if h.written && h.request.compensated then s.compensations ++ [h.request] else s.compensations }
  | .compensate i ok =>
    match s.compensations[i]? with
    | none => s
    | some _ =>
      { s with
        world := { s.world with files := (deleteFile ok (B.place name) s.world.files).getD s.world.files }
        compensations := s.compensations.eraseIdx i }

end Supacloud.StorageVersions
