import Mathlib
import Supacloud.Library.Numbers

/-!
# 配信物の書庫（delivery/src/frontend-archive.ts、delivery/src/frontend-archive-reader.ts）

パスは UTF-16 の符号単位の列である。tar-stream は書いた項目を同じ順に渡し、zstd は元の列を返すので、書庫を、
tar の長さ、圧縮した長さ、項目の列で表す。
-/

namespace Supacloud.FrontendArchive

open Library

abbrev Path := List UInt16

local instance : LawfulBEq Path := inferInstance

inductive ArchiveError where
  | unsafePath
  | nonRegular
  | duplicate
  | limits
  | conflict
  | truncated
  | byteLimit
  | fileCount
  | empty

def maxBytes : ℕ := 500 * 1024 * 1024

def maxFiles : ℕ := 10000

def maxSourceBytes : ℕ := 500 * 1024 * 1024

def maxTarBytes : ℕ := maxSourceBytes + maxFiles * 2048 + 1024

/-- `Buffer.byteLength`。対になる代用符号は合わせて四バイト、対のないものは置き換えの三バイトになる。 -/
def byteLength : Path → ℕ
  | a :: b :: rest =>
    if 0xD800 ≤ a ∧ a ≤ 0xDBFF ∧ 0xDC00 ≤ b ∧ b ≤ 0xDFFF then 4 + byteLength rest
    else (if a < 0x80 then 1 else if a < 0x800 then 2 else 3) + byteLength (b :: rest)
  | [a] => if a < 0x80 then 1 else if a < 0x800 then 2 else 3
  | [] => 0

def slash : UInt16 := 0x2F

def segments (path : Path) : List Path := path.splitOn slash

def join (segments : List Path) : Path := [slash].intercalate segments

/-- `/^[A-Za-z]:/` -/
def hasDrive : Path → Bool
  | a :: b :: _ => (0x41 ≤ a && a ≤ 0x5A || 0x61 ≤ a && a ≤ 0x7A) && b == 0x3A
  | _ => false

def assertFrontendArchivePath (path : Path) : Except ArchiveError Unit :=
  if path.isEmpty || path.length > 1024 || byteLength path > 4096 || path.head? == some slash || path.contains 0x5C
    || path.any (fun u => u ≤ 0x1F || u == 0x7F) || (segments path).any (fun s => s == [] || s == [0x2E] || s == [0x2E, 0x2E])
    || hasDrive path then .error .unsafePath
  else .ok ()

/-- 末尾から一つずつ区切りを除いた、上の階層。引数は、逆に並べた区切りである。 -/
def parents : List Path → List Path
  | [] => []
  | s :: rest => join (s :: rest).reverse :: parents rest

def ancestorsOf (path : Path) : List Path := parents (segments path).reverse.tail

/-! ## 読み取り -/

/-- tar の項目。中身は、負でない大きさならばその長さがある。 -/
structure TarEntry where
  name : Path
  isFile : Bool
  linkname : Option Path
  size : Number
  content : List ℕ
  whole : ∀ n, 0 ≤ n → size.safeInteger? = some n → (content.sum : ℤ) = n

structure Reader where
  entries : List (Path × ℤ) := []
  paths : List Path := []
  ancestors : List Path := []
  sourceBytes : ℤ := 0

def readContent (size : ℤ) : (readBytes : ℤ) → List ℕ → Except ArchiveError Unit
  | readBytes, [] => if readBytes ≠ size then .error .truncated else .ok ()
  | readBytes, bytes :: rest =>
    if readBytes + bytes > size then .error .limits else readContent size (readBytes + bytes) rest

def addAncestors (paths : List Path) : (found : List Path) → List Path → Except ArchiveError (List Path)
  | found, [] => .ok found
  | found, a :: rest => if a ∈ paths then .error .conflict else addAncestors paths (found ++ [a]) rest

def Reader.consume (s : Reader) (header : TarEntry) : Except ArchiveError Reader := do
  let path := header.name
  assertFrontendArchivePath path
  match header.size.safeInteger? with
  | none => .error .nonRegular
  | some size =>
    if !header.isFile || (header.linkname.getD []) ≠ [] || size < 0 then .error .nonRegular
    else if path ∈ s.paths then .error .duplicate
    else
      let sourceBytes := s.sourceBytes + size
      if s.paths.length ≥ maxFiles ∨ sourceBytes > maxSourceBytes then .error .limits
      else if path ∈ s.ancestors then .error .conflict
      else do
        let found ← addAncestors s.paths s.ancestors (ancestorsOf path)
        readContent size 0 header.content
        return { entries := s.entries ++ [(path, size)], paths := s.paths ++ [path], ancestors := found, sourceBytes }

structure Archive where
  compressedBytes : ℕ
  tarBytes : ℕ
  entries : List TarEntry

def readFrontendTarZstd (archive : Archive) : Except ArchiveError (List (Path × ℤ)) := do
  if archive.compressedBytes > maxBytes ∨ archive.tarBytes > maxTarBytes then throw .byteLimit
  let s ← archive.entries.foldlM Reader.consume {}
  if s.entries.length < 1 then throw .empty
  return s.entries

/-- `.` と空の区切りを除き、`..` は一つ戻る。相対のパスでは、戻れない `..` が残る。 -/
def normalizeStep (absolute : Bool) (out : List Path) (s : Path) : List Path :=
  if s = [] ∨ s = [0x2E] then out
  else if s = [0x2E, 0x2E] ∧ (absolute ∨ out.getLast?.any (· ≠ [0x2E, 0x2E])) then out.dropLast
  else out ++ [s]

/-- `path.join` の正規化。 -/
def normalize (segments : List Path) : List Path := segments.foldl (normalizeStep (segments.head? == some [])) []

def outputPath (outputDirectory : Path) (path : Path) : List Path :=
  normalize (segments (outputDirectory ++ slash :: path))

/-! ## 書き出し -/

/-- `ReadonlyMap<string, Uint8Array>`。鍵は重ならない。 -/
structure Files where
  toList : List (Path × List UInt8)
  nodup : (toList.map Prod.fst).Nodup

example : Files := ⟨[([0x61], [1]), ([0x62], [])], by decide⟩

def Files.sorted (files : Files) : List (Path × List UInt8) := files.toList.mergeSort fun a b => decide (a.1 ≤ b.1)

def Files.check (files : Files) : (sourceBytes : ℕ) → List (Path × List UInt8) → Except ArchiveError Unit
  | _, [] => .ok ()
  | sourceBytes, (path, content) :: rest => do
    assertFrontendArchivePath path
    let sourceBytes := sourceBytes + content.length
    if sourceBytes > maxSourceBytes then throw .limits
    if (ancestorsOf path).any fun a => a ∈ files.toList.map Prod.fst then throw .conflict
    files.check sourceBytes rest

def packed (file : Path × List UInt8) : TarEntry where
  name := file.1
  isFile := true
  linkname := none
  size := .finite file.2.length
  content := [file.2.length]
  whole n _ hn := by
    rw [safeInteger?_natCast] at hn
    simp_all

/-- `createFrontendTarZstd`。`tarSize` と `zstdSize` は、tar と圧縮した列の長さである。 -/
def createFrontendTarZstd (tarSize zstdSize : List (Path × List UInt8) → ℕ) (files : Files) : Except ArchiveError Archive := do
  if files.toList.length < 1 ∨ files.toList.length > maxFiles then throw .fileCount
  files.check 0 files.sorted
  if tarSize files.sorted > maxTarBytes then throw .byteLimit
  if zstdSize files.sorted > maxBytes then throw .byteLimit
  return { compressedBytes := zstdSize files.sorted, tarBytes := tarSize files.sorted, entries := files.sorted.map packed }

end Supacloud.FrontendArchive
