import Supacloud.Library.Table
import Supacloud.Library.Runs
import Mathlib.Data.Int.Notation
import Mathlib.Logic.Function.Basic

/-!
# S3 互換の受け口の置き物（supacloud-lite/src/runtime/storage/s3.ts）

問い合わせと保存先の呼び出しの一つずつを一歩とし、依頼はその間で入れ替わる。保存先の鍵は、行の版から決まる。
-/

namespace Supacloud.S3Handler

open Library

abbrev Bytes := List UInt8

abbrev DriverKey := String

abbrev Version := String

structure S3Error where
  status : ℕ
  code : String
  message : String

structure Place where
  bucket : String
  key : String
  deriving DecidableEq

structure Metadata where
  size : Option ℕ
  mimetype : Option String
  cacheControl : Option String
  eTag : Option String
  lastModified : Option ℕ
  others : List (String × String)

def Metadata.empty : Metadata where
  size := none
  mimetype := none
  cacheControl := none
  eTag := none
  lastModified := none
  others := []

structure ObjectRow where
  bucketId : String
  name : String
  version : Option Version
  metadata : Option Metadata

structure BucketRow where
  fileSizeLimit : Option ℕ
  allowedMimeTypes : Option (List String)

structure Runtime where
  defaultFileSizeLimit : ℕ
  sha256Hex : Bytes → String
  trim : String → String
  toLowerCase : String → String

def maxObjectBytes : ℕ := 64 * 1024 * 1024

/-! ## 検査 -/

namespace Runtime

variable (env : Runtime)

def mimeTypeAllowed (bucket : BucketRow) (contentType : String) : Bool :=
  match bucket.allowedMimeTypes with
  | none | some [] => true
  | some allowed =>
    let base := env.toLowerCase (env.trim ((contentType.splitOn ";").headD ""))
    allowed.any fun mimeType =>
      let normalized := env.toLowerCase (env.trim mimeType)
      normalized == base || "/*".toList.isSuffixOf normalized.toList && normalized.toList.dropLast.isPrefixOf base.toList

def assertMimeType (bucket : BucketRow) (contentType : String) : Except S3Error Unit :=
  if env.mimeTypeAllowed bucket contentType then .ok ()
  else .error { status := 415, code := "InvalidRequest", message := "The content type is not allowed for this bucket" }

def assertObjectPolicy (bucket : BucketRow) (size : ℤ) (contentType : Option String) : Except S3Error Unit :=
  if size < 0 ∨ size > min maxObjectBytes (bucket.fileSizeLimit.getD env.defaultFileSizeLimit) then
    .error { status := 413, code := "EntityTooLarge", message := "The object exceeded the bucket file size limit" }
  else
    match contentType with
    | none | some "" => .ok ()
    | some contentType => env.assertMimeType bucket contentType

end Runtime

def noSuchBucket : S3Error where
  status := 404
  code := "NoSuchBucket"
  message := "The specified bucket does not exist"

def noSuchKey : S3Error where
  status := 404
  code := "NoSuchKey"
  message := "The specified key does not exist."

def versionPrefix : String := "v2-"

def objectKey (version : Version) : DriverKey := ".supacloud-lite/objects/" ++ version

def Version.isPrefixed (version : Version) : Bool := versionPrefix.toList.isPrefixOf version.toList

def driverKey (row : ObjectRow) : DriverKey :=
  match row.version with
  | some version => if Version.isPrefixed version then objectKey version else row.bucketId ++ "/" ++ row.name
  | none => row.bucketId ++ "/" ++ row.name

/-! ## 依頼 -/

structure Headers where
  contentType : Option String
  cacheControl : Option String

inductive Request where
  | putObject (body : Bytes) (headers : Headers)
  | copyObject (source : Place) (headers : Headers) (replace : Bool)
  | deleteObject

structure Put where
  body : Bytes
  headers : Headers
  metadata : Option Metadata
  etag : Option String

def Put.contentType (put : Put) : String :=
  put.headers.contentType.getD ((put.metadata.bind Metadata.mimetype).getD "application/octet-stream")

def Put.meta (env : Runtime) (put : Put) (now : ℕ) : Metadata :=
  { put.metadata.getD .empty with
    size := some put.body.length, mimetype := some put.contentType,
    cacheControl := some (put.headers.cacheControl.getD "no-cache"),
    eTag := some (env.sha256Hex put.body), lastModified := some now }

/-- 次に行う問い合わせか保存先の呼び出し。`discarding` は、古い版の中身を消すところである。 -/
inductive Pc where
  | findingSource (source : Place) (headers : Headers) (replace : Bool)
  | readingSource (row : ObjectRow) (headers : Headers) (replace : Bool)
  | loading (put : Put)
  | finding (put : Put) (version : Version) (metadata : Metadata)
  | storing (put : Put) (version : Version) (metadata : Metadata) (existing : Option ObjectRow)
  | upserting (put : Put) (version : Version) (metadata : Metadata) (existing : Option ObjectRow)
  | deleting
  | removing (row : ObjectRow)
  | discarding (row : ObjectRow) (etag : Option String)
  | done (outcome : Except S3Error (Option String))

structure Call where
  place : Place
  pc : Pc

structure World where
  buckets : String → Option BucketRow
  objects : Place → Option ObjectRow
  blobs : DriverKey → Option Bytes
  calls : List Call
  issued : List (Version × Place)

def Request.start (env : Runtime) : Request → Pc
  | .putObject body headers => .loading { body, headers, metadata := none, etag := some (env.sha256Hex body) }
  | .copyObject source headers replace => .findingSource source headers replace
  | .deleteObject => .deleting

def copiedPut (row : ObjectRow) (headers : Headers) (replace : Bool) (body : Bytes) : Put where
  body
  headers
  metadata := some (if replace then .empty else row.metadata.getD .empty)
  etag := some (((row.metadata.getD .empty).eTag).getD "")

namespace World

variable (env : Runtime) (w : World)

def goto (id : ℕ) (call : Call) (pc : Pc) : World := { w with calls := w.calls.set id { call with pc } }

def findObject (place : Place) : Option ObjectRow := w.objects place

def loadBucket (bucket : String) : Option BucketRow := w.buckets bucket

def fresh (version : Version) : Bool := version ∉ w.issued.map Prod.fst

def load (id : ℕ) (call : Call) (put : Put) (version : Version) (now : ℕ) : World :=
  match w.loadBucket call.place.bucket with
  | none => w.goto id call (.done (.error noSuchBucket))
  | some bucket =>
    match env.assertObjectPolicy bucket put.body.length (some put.contentType) with
    | .error error => w.goto id call (.done (.error error))
    | .ok () =>
      if w.fresh version then
        { w.goto id call (.finding put version (put.meta env now)) with issued := (version, call.place) :: w.issued }
      else w

def upsert (id : ℕ) (call : Call) (put : Put) (version : Version) (metadata : Metadata) (existing : Option ObjectRow) : World :=
  let row : ObjectRow := { bucketId := call.place.bucket, name := call.place.key, version := some version, metadata := some metadata }
  let pc : Pc := match existing with
    | some row => .discarding row put.etag
    | none => .done (.ok put.etag)
  { w.goto id call pc with objects := Function.update w.objects call.place (some row) }

/-- 依頼の次の一歩。`uuid` と `now` は、版を決める一歩だけが使う。 -/
def proceed (id : ℕ) (call : Call) (uuid : String) (now : ℕ) : World :=
  match call.pc with
  | .findingSource source headers replace =>
    match w.findObject source with
    | none => w.goto id call (.done (.error noSuchKey))
    | some row => w.goto id call (.readingSource row headers replace)
  | .readingSource row headers replace =>
    match w.blobs (driverKey row) with
    | none => w.goto id call (.done (.error noSuchKey))
    | some body => w.goto id call (.loading (copiedPut row headers replace body))
  | .loading put => w.load env id call put (versionPrefix ++ uuid) now
  | .finding put version metadata => w.goto id call (.storing put version metadata (w.findObject call.place))
  | .storing put version metadata existing =>
    { w.goto id call (.upserting put version metadata existing) with blobs := Function.update w.blobs (objectKey version) (some put.body) }
  | .upserting put version metadata existing => w.upsert id call put version metadata existing
  | .deleting =>
    match w.findObject call.place with
    | none => w.goto id call (.done (.ok none))
    | some row => w.goto id call (.removing row)
  | .removing row => { w.goto id call (.discarding row none) with objects := Function.update w.objects call.place none }
  | .discarding row etag => { w.goto id call (.done (.ok etag)) with blobs := Function.update w.blobs (driverKey row) none }
  | .done _ => w

end World

inductive Event where
  | request (place : Place) (request : Request)
  | proceed (id : ℕ) (uuid : String) (now : ℕ)

def step (env : Runtime) (w : World) : Event → World
  | .request place request => { w with calls := w.calls ++ [{ place, pc := request.start env }] }
  | .proceed id uuid now => (w.calls[id]?).elim w fun call => w.proceed env id call uuid now

/-! ## 行と中身の一致 -/

/-- その名前のために作った版のうち、中身が残っているのは、行の版だけである。行の指す中身は欠けない。 -/
def World.Agrees (w : World) (place : Place) : Prop :=
  (∀ version, (version, place) ∈ w.issued →
      ((w.blobs (objectKey version)).isSome ↔ ∃ row, w.objects place = some row ∧ row.version = some version)) ∧
    ∀ row, w.objects place = some row → ∃ version, row.version = some version ∧ (version, place) ∈ w.issued

structure World.Start (w : World) : Prop where
  calls : w.calls = []
  issued : (w.issued.map Prod.fst).Nodup
  prefixed : ∀ e ∈ w.issued, Version.isPrefixed e.1
  agrees : ∀ place, w.Agrees place

def Pc.isDone : Pc → Bool
  | .done _ => true
  | _ => false

def World.Quiet (w : World) (place : Place) : Prop := ∀ call ∈ w.calls, call.place = place → call.pc.isDone = true

def Pc.remembers : Pc → Option ObjectRow
  | .storing _ _ _ existing => existing
  | .upserting _ _ _ existing => existing
  | .removing row => some row
  | .discarding row _ => some row
  | _ => none

def Pc.replaces : Pc → Bool
  | .upserting .. => true
  | .removing _ => true
  | _ => false

/-- その名前の行を置き換えるか消すとき、行があれば、その版は、残っている依頼のどれかが見て覚えている。 -/
def World.Remembered (w : World) (place : Place) : Event → Prop
  | .request _ _ => True
  | .proceed id _ _ =>
    ∀ call ∈ w.calls[id]?, call.place = place → call.pc.replaces = true →
      ∀ row ∈ w.objects place, ∃ other ∈ w.calls, other.place = place ∧ other.pc.remembers.any (fun found => found.version = row.version) = true

instance World.Remembered.decidable (w : World) (place : Place) : (e : Event) → Decidable (w.Remembered place e)
  | .request _ _ => isTrue trivial
  | .proceed id _ _ => by unfold World.Remembered; infer_instance

end Supacloud.S3Handler
