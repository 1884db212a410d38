import Mathlib.Data.Finset.Card
import Mathlib.Data.Nat.Cast.Order.Ring
import Mathlib.Algebra.Order.Ring.Rat
import Supacloud.Library.Lists
import Supacloud.Library.Numbers

/-!
# S3 互換の受け口の一覧（supacloud-lite/src/runtime/storage/s3.ts）

`listObjects` は、名を照合順に頁へ切り、切ったあとで `delimiter` でまとめる。
-/

namespace Supacloud.S3Handler

open Library

abbrev Text := List Char

/-- データベースの照合順と、`Number`、`base64url` の綴り。空の名が照合順のはじめである。 -/
structure Platform (K : Type) [LinearOrder K] where
  collate : Text → K
  collate_injective : Function.Injective collate
  collate_nil_le : ∀ name, collate [] ≤ collate name
  number : Text → Number
  toBase64url : Text → Text
  fromBase64url : Text → Text
  toBase64url_nil : toBase64url [] = []
  fromBase64url_toBase64url : ∀ text, fromBase64url (toBase64url text) = text

/-- データベースの文字列は NUL を含まず、NUL を含む引数の問い合わせは誤りになる。 -/
def storable (text : Text) : Bool := Char.ofNat 0 ∉ text

structure Names where
  names : List Text
  nodup : names.Nodup
  stored : ∀ name ∈ names, storable name

structure ListParams where
  namePrefix : Option Text
  delimiter : Option Text
  maxKeys : Option Text
  startAfter : Option Text

structure ListPage where
  contents : List Text
  common : Finset Text
  maxKeys : ℚ
  isTruncated : Bool
  nextToken : Option Text

namespace ListPage

def keyCount (page : ListPage) : ℕ := page.contents.length + page.common.card

def listed (page : ListPage) : List Text × Finset Text := (page.contents, page.common)

end ListPage

def replaceAll (c : Char) (r s : Text) : Text := s.flatMap fun d => if d = c then r else [d]

def escapeLikePrefix (value : Text) : Text :=
  replaceAll '_' ['\\', '_'] (replaceAll '%' ['\\', '%'] (replaceAll '\\' ['\\', '\\'] value))

/-- `like … escape '\'`。`\` で終わる型は誤りになるが、`escapeLikePrefix` はこれを作らない。 -/
def like : Text → Text → Bool
  | [], s => s.isEmpty
  | '%' :: p, s => s.tails.any (like p)
  | '\\' :: c :: p, d :: s => c = d && like p s
  | ['\\'], _ => false
  | '_' :: p, _ :: s => like p s
  | c :: p, d :: s => c = d && like p s
  | _ :: _, [] => false

/-- `Math.min(Math.max(Number(…) || 1000, 0), 1000)` -/
def clampKeys : Number → ℚ
  | .nan => 1000
  | .infinite negative => if negative then 0 else 1000
  | .finite q => min (max (if q = 0 then 1000 else q) 0) 1000

def indexOf (d : Text) : Text → Option ℕ
  | [] => if d = [] then some 0 else none
  | c :: s => if d.isPrefixOf (c :: s) then some 0 else (indexOf d s).map (· + 1)

variable {K : Type} [LinearOrder K] (P : Platform K) (b : Names) (q : ListParams)

namespace ListParams

def start : Text := q.startAfter.getD []

def number : Number := q.maxKeys.elim (.finite 1000) P.number

def after : Option Text → Text
  | some token => if token = [] then q.start else P.fromBase64url token
  | none => q.start

/-- 名のまとめ先。まとめない名は `none` である。 -/
def group (name : Text) : Option Text :=
  let head := q.namePrefix.getD []
  let delimiter := q.delimiter.getD []
  let relative := name.drop head.length
  if delimiter = [] then none else (indexOf delimiter relative).map fun slash => head ++ relative.take (slash + delimiter.length)

end ListParams

/-- `select * … where name like $2 and name > $3 order by name limit $4` の名の列 -/
def selectNames (pattern after : Text) (limit : ℕ) : List Text :=
  ((b.names.insertionSort (P.collate · ≤ P.collate ·)).filter fun name => like pattern name ∧ P.collate after < P.collate name).take limit

/-- `maxKeys + 1` は倍精度の和である。端数のある `limit` は、問い合わせの誤り（`none`）になる。`slice` は端数を捨てる。 -/
def listObjects (token : Option Text) : Option ListPage :=
  let maxKeys := clampKeys (q.number P)
  let limit := roundDouble (maxKeys + 1)
  if limit.den = 1 ∧ storable (q.namePrefix.getD []) ∧ storable (q.after P token) then
    let rows := selectNames P b (escapeLikePrefix (q.namePrefix.getD []) ++ ['%']) (q.after P token) limit.num.toNat
    let shown := rows.take ⌊maxKeys⌋.toNat
    let lastKey := shown.getLast?.getD []
    some {
      contents := shown.filter (q.group · = none)
      common := (shown.filterMap q.group).toFinset
      maxKeys
      isTruncated := maxKeys < rows.length
      nextToken := if maxKeys < rows.length ∧ lastKey ≠ [] then some (P.toBase64url lastKey) else none }
  else none

/-- `NextContinuationToken` を追って得る頁の列。誤りと、終わらないことは `none` である。 -/
def ListParams.follow (P : Platform K) (b : Names) (q : ListParams) (token : Option Text) : Option (List ListPage) := do
  let page ← listObjects P b q token
  match page.nextToken with
  | none => pure [page]
  | some next => do
    let pages ← q |>.follow P b (some next)
    pure (page :: pages)
partial_fixpoint

open ListParams (follow)

/-! ## 一覧の約束 -/

def matching (after : Text) : List Text :=
  (b.names.insertionSort (P.collate · ≤ P.collate ·)).filter fun name => q.namePrefix.getD [] <+: name ∧ P.collate after < P.collate name

/-- 一つの名が、自らの鍵か、まとめ先として、頁に現れる回数 -/
def ListParams.listings (q : ListParams) (name : Text) (content : List Text × Finset Text) : ℕ :=
  content.1.count name + if ∃ g ∈ q.group name, g ∈ content.2 then 1 else 0

def Bounds : Number → ℕ → Prop
  | .nan, _ => True
  | .infinite negative, _ => negative = false
  | .finite n, count => count ≤ n

/-- `max-keys` が負でなく、1 を足した倍精度の和に端数がなく、1 より小さいときは載せる名がない。 -/
def Honest (l : List Text) : Number → Prop
  | .nan => True
  | .infinite negative => negative = false
  | .finite n => (roundDouble (clampKeys (.finite n) + 1)).den = 1 ∧ 0 ≤ n ∧ (n < 1 → l = [])

/-- 最初の頁から辿った頁が、`namePrefix` で始まり `start-after` のあとに来る名を、どれもちょうど一度ずつ載せる。 -/
def Covers : Prop :=
  ∃ pages, follow P b q none = some pages ∧ (∀ page ∈ pages, Bounds (q.number P) page.keyCount) ∧
    ∀ name ∈ b.names, q.namePrefix.getD [] <+: name → P.collate q.start < P.collate name →
      ((pages.map ListPage.listed).map (q.listings name)).sum = 1

end Supacloud.S3Handler
