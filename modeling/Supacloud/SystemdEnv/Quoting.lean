import Supacloud.Vectors.Values

/-!
# 環境ファイルの値の引用（utils/systemd-env.ts）

文字列は UTF-16 の符号単位の列である。`readValue` と `readLine` は、systemd が `EnvironmentFile` の引用された値を読む規則である。
-/

namespace Supacloud.SystemdEnv

open Contracts (JsString)

open Vectors (js isHighSurrogate isLowSurrogate)

def doubleQuote : UInt16 := 0x22

def singleQuote : UInt16 := 0x27

def backslash : UInt16 := 0x5C

def newline : UInt16 := 0x0A

def tab : UInt16 := 0x09

/-! ## 書く側 -/

def isUpper (u : UInt16) : Bool := 0x41 ≤ u && u ≤ 0x5A

/-- `/^[A-Z][A-Z0-9_]*$/` -/
def environmentName : JsString → Bool
  | [] => false
  | u :: rest => isUpper u && rest.all fun v => isUpper v || (0x30 ≤ v && v ≤ 0x39) || v == 0x5F

/-- `/[\u0000-\u001f\u007f]/` -/
def forbidden (value : JsString) : Bool := value.any fun u => u ≤ 0x1F || u == 0x7F

/-- `/[\u0000-\u0008\u000b-\u001f\u007f]/` -/
def unsupported (value : JsString) : Bool := value.any fun u => u ≤ 0x08 || (0x0B ≤ u && u ≤ 0x1F) || u == 0x7F

def hexDigit (n : ℕ) : UInt16 := if n % 16 < 10 then .ofNat (0x30 + n % 16) else .ofNat (0x57 + n % 16)

def unicodeEscape (u : UInt16) : JsString :=
  [backslash, 0x75, hexDigit (u.toNat / 4096), hexDigit (u.toNat / 256), hexDigit (u.toNat / 16), hexDigit u.toNat]

def isSurrogate (u : UInt16) : Bool := isHighSurrogate u || isLowSurrogate u

def escapeUnit (u : UInt16) : JsString :=
  if u = doubleQuote ∨ u = backslash then [backslash, u]
  else if u = 0x08 then [backslash, 0x62]
  else if u = tab then [backslash, 0x74]
  else if u = newline then [backslash, 0x6E]
  else if u = 0x0C then [backslash, 0x66]
  else if u = 0x0D then [backslash, 0x72]
  else if u < 0x20 ∨ isSurrogate u then unicodeEscape u
  else [u]

/-- `JSON.stringify` の引用符の中。対になっていないサロゲートも、符号で書かれる。 -/
def stringified : JsString → JsString
  | [] => []
  | [u] => escapeUnit u
  | u :: v :: rest =>
    if isHighSurrogate u && isLowSurrogate v then u :: v :: stringified rest else escapeUnit u ++ stringified (v :: rest)

def renderSystemdEnvLine (name value : JsString) : Except JsString JsString :=
  if !environmentName name then .error (js "Invalid EnvironmentFile variable name: " ++ name)
  else if forbidden value then .error (name ++ js " EnvironmentFile value contains a forbidden control character")
  else .ok (name ++ 0x3D :: doubleQuote :: (stringified value ++ [doubleQuote]))

/-- `value.replace(/u/g, replacement)` -/
def replace (u : UInt16) (replacement value : JsString) : JsString := value.flatMap fun v => if v = u then replacement else [v]

def quoteSystemdEnvValue (value : JsString) : Except JsString JsString :=
  if unsupported value then .error (js "systemd EnvironmentFile value contains a forbidden control character")
  else if value.contains doubleQuote && !value.contains singleQuote then .ok (singleQuote :: (value ++ [singleQuote]))
  else .ok (doubleQuote :: (replace tab [backslash, 0x74] (replace newline [backslash, 0x6E]
    (replace doubleQuote [backslash, doubleQuote] (replace backslash [backslash, backslash] value))) ++ [doubleQuote]))

/-! ## 読む側 -/

/-- 前に `\` を置ける文字：`"`、`\`、`$`、「`」。 -/
def escapable (u : UInt16) : Bool := u == doubleQuote || u == backslash || u == 0x24 || u == 0x60

def readDouble : JsString → Option (JsString × JsString)
  | [] => none
  | [u] => if u = doubleQuote then some ([], []) else none
  | u :: v :: rest =>
    if u = doubleQuote then some ([], v :: rest)
    else if u = backslash then
      if v = newline then readDouble rest
      else (readDouble rest).map (Prod.map ((if escapable v then [v] else [u, v]) ++ ·) id)
    else (readDouble (v :: rest)).map (Prod.map (u :: ·) id)

def readValue : JsString → Option JsString
  | [] => none
  | u :: rest =>
    if u = singleQuote then if rest.getLast? = some singleQuote ∧ singleQuote ∉ rest.dropLast then some rest.dropLast else none
    else if u = doubleQuote then (readDouble rest).bind fun (value, rest) => if rest = [] then some value else none
    else none

def readLine (line : JsString) : Option (JsString × JsString) :=
  let (name, rest) := line.span (· != 0x3D)
  (readValue rest.tail).map (name, ·)

/-! ## 元に戻る条件 -/

def Quotable (value : JsString) : Prop := (doubleQuote ∈ value ∧ singleQuote ∉ value) ∨ (newline ∉ value ∧ tab ∉ value)

end Supacloud.SystemdEnv
