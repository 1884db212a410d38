import Mathlib
import Supacloud.AuditChain.Values

/-!
# 診断の伏せ字（services/branch.service.ts）

流れは、届いたかたまりの列である。`TextDecoder` の返す文字列にはサロゲートが残らないので、文字の列とする。
-/

namespace Supacloud.Diagnostics

open Contracts (JsString)
open Vectors (js isWellFormed toWellFormed)

/-- バイトは 256 未満の数である。 -/
abbrev Bytes := List ℕ

def maxPostgresSecretBytes : ℕ := 1024

def replacement : Bytes := "[REDACTED]".toList.map Char.toNat

/-- `TextEncoder` は、対のないサロゲートを U+FFFD に替える。 -/
def encode (s : JsString) : Bytes := AuditChain.utf8 (toWellFormed s)

/-! ## 秘密の綴り -/

def hexDigit (n : ℕ) : UInt16 := (js "0123456789ABCDEF").getD n 0

def unreserved (b : ℕ) : Bool := (Char.ofNat b).isAlphanum || "-_.!~*'()".toList.contains (Char.ofNat b)

/-- 対のないサロゲートがあれば、例外になる。 -/
def encodeURIComponent (s : JsString) : Option JsString :=
  if isWellFormed s then
    some ((AuditChain.utf8 s).flatMap fun b => if unreserved b then [b.toUInt16] else [37, hexDigit (b / 16), hexDigit (b % 16)])
  else none

def isUpperHex (u : UInt16) : Bool := (js "0123456789ABCDEF").contains u

def lowerUnit (u : UInt16) : UInt16 := if 65 ≤ u && u ≤ 90 then u + 32 else u

/-- `%[0-9A-F]{2}` に合う所を、小文字に替える。 -/
def lowerEscapes : JsString → JsString
  | u :: a :: b :: rest =>
    if u = 37 && isUpperHex a && isUpperHex b then u :: lowerUnit a :: lowerUnit b :: lowerEscapes rest
    else u :: lowerEscapes (a :: b :: rest)
  | s => s

def candidates (secret : JsString) : List JsString :=
  match encodeURIComponent secret with
  | some encoded => [secret, encoded, lowerEscapes encoded]
  | none => [secret]

def diagnosticSecretPatterns (secrets : List JsString) : Except String (List Bytes) :=
  if secrets.any fun secret => (encode secret).length > maxPostgresSecretBytes then
    .error "PostgreSQL diagnostic secret exceeds 1024 UTF-8 bytes"
  else
    .ok (((((secrets.filter (· ≠ [])).flatMap candidates).eraseDups.map encode).filter (0 < ·.length)).mergeSort
      fun left right => right.length ≤ left.length)

/-! ## 流れの読み取り -/

structure Output where
  captured : Bytes := []
  outputBytes : ℕ := 0

variable (patterns : List Bytes) (maxBytes : ℕ)

def appendOutput (out : Output) (value : Bytes) : Output where
  captured := out.captured ++ value.take (maxBytes + 1 - out.outputBytes)
  outputBytes := out.outputBytes + value.length

def bytePatternMatches (source : Bytes) (offset : ℕ) (pattern : Bytes) : Bool := pattern.isPrefixOf (source.drop offset)

/-- 位置 offset から limit まで進む。上限を超えたら、そこで止まる。一周で一つは進むので、limit 周で足りる。 -/
def redactPending (pending : Bytes) (limit : ℕ) : ℕ → ℕ → Output → ℕ × Output
  | 0, offset, out => (offset, out)
  | fuel + 1, offset, out =>
    if offset < limit then
      match patterns.find? (bytePatternMatches pending offset) with
      | some pattern =>
        let out := appendOutput maxBytes out replacement
        if out.outputBytes > maxBytes then (offset, out) else redactPending pending limit fuel (offset + pattern.length) out
      | none =>
        let out := appendOutput maxBytes out ((pending.drop offset).take 1)
        if out.outputBytes > maxBytes then (offset, out) else redactPending pending limit fuel (offset + 1) out
    else (offset, out)

def longestPattern : ℕ := (patterns.head?.map (·.length)).getD 1

def readStream : List Bytes → Bytes → Output → Output
  | [], pending, out => (redactPending patterns maxBytes pending pending.length pending.length 0 out).2
  | chunk :: chunks, pending, out =>
    let pending := pending ++ chunk
    let limit := pending.length + 1 - longestPattern patterns
    let (offset, out) := redactPending patterns maxBytes pending limit limit 0 out
    if out.outputBytes > maxBytes then out else readStream chunks (pending.drop offset) out

/-! ## 長さを限った文字列 -/

def byteLength (text : List Char) : ℕ := (text.map Char.utf8Size).sum

def truncationMarker : List Char := "\n[output truncated]".toList

def takePrefix (limit : ℤ) : List Char → ℕ → List Char
  | [], _ => []
  | c :: text, used => if used + c.utf8Size > limit then [] else c :: takePrefix limit text (used + c.utf8Size)

def boundedUtf8Text (text : List Char) (maxBytes : ℕ) : List Char :=
  if byteLength text ≤ maxBytes then text
  else takePrefix (maxBytes - byteLength truncationMarker) text 0 ++ truncationMarker

def readCaptured (secrets : List JsString) (chunks : List Bytes) (maxBytes : ℕ) : Except String Bytes :=
  (diagnosticSecretPatterns secrets).map fun patterns => (readStream patterns maxBytes chunks [] {}).captured

def readRedactedBoundedText (decode : Bytes → List Char) (secrets : List JsString) (chunks : List Bytes) (maxBytes : ℕ) :
    Except String (List Char) :=
  (readCaptured secrets chunks maxBytes).map fun captured => boundedUtf8Text (decode captured) maxBytes

/-! ## 流れの全体の伏せ字 -/

def longestMatch (s : Bytes) : Option Bytes := (patterns.filter (·.isPrefixOf s)).argmax List.length

/-- 左から、合う型のうち最も長いものを印に替え、なければ一つを写す。初めの数は、替えた型の残りの長さである。 -/
def redactFrom : ℕ → Bytes → Bytes
  | _, [] => []
  | skip + 1, _ :: s => redactFrom skip s
  | 0, b :: s =>
    match longestMatch patterns (b :: s) with
    | some pattern => replacement ++ redactFrom (pattern.length - 1) s
    | none => b :: redactFrom 0 s

def redact (s : Bytes) : Bytes := redactFrom patterns 0 s

end Supacloud.Diagnostics
