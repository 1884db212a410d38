import Mathlib.Data.Int.Notation
import Mathlib.Data.Nat.Notation
import Supacloud.Library.Table

/-!
# PostgREST の問いの文法（supacloud-lite/src/runtime/rest/parse.ts）

文字列は文字の列である。`parseTree` の `fuel` は長さだけあればよい。
-/

namespace Supacloud.LiteRest

abbrev Text := List Char

local instance : LawfulBEq Text := inferInstance

/-- `String.prototype.trim` の除く文字。 -/
def isSpace (c : Char) : Bool :=
  ('\t' ≤ c && c ≤ '\r') || ('\u2000' ≤ c && c ≤ '\u200a') ||
    [' ', '\u00a0', '\u1680', '\u2028', '\u2029', '\u202f', '\u205f', '\u3000', '\ufeff'].contains c

def trim (s : Text) : Text := ((s.dropWhile isSpace).reverse.dropWhile isSpace).reverse

def isLineTerminator (c : Char) : Bool := ['\n', '\r', '\u2028', '\u2029'].contains c

def after (head s : Text) : Option Text := if head.isPrefixOf s then some (s.drop head.length) else none

inductive ParseError where
  | malformedTree (raw : Text)
  | malformedCondition (part : Text)
  | unknownOperator (op : Text)

structure Scan where
  depth : ℤ := 0
  inQuote : Bool := false

def Scan.step (s : Scan) (c : Char) : Scan :=
  if s.inQuote then { s with inQuote := c ≠ '"' }
  else if c = '"' then { s with inQuote := true }
  else if c = '(' then { s with depth := s.depth + 1 }
  else if c = ')' then { s with depth := s.depth - 1 }
  else s

def Scan.splits (s : Scan) (delim c : Char) : Bool := !s.inQuote && c ≠ '"' && c ≠ '(' && c ≠ ')' && c = delim && s.depth = 0

def splitFrom (delim : Char) : Scan → (current : Text) → Text → List Text
  | _, current, [] => if current = [] then [] else [current]
  | s, current, c :: rest =>
    if s.splits delim c then current :: splitFrom delim s [] rest else splitFrom delim (s.step c) (current ++ [c]) rest

def splitTopLevel (str : Text) (delim : Char) : List Text := splitFrom delim {} [] str

/-- `replaceAll('\\"', '"')` -/
def unescape : Text → Text
  | '\\' :: '"' :: rest => '"' :: unescape rest
  | c :: rest => c :: unescape rest
  | [] => []

def unquote (s : Text) : Text :=
  if 2 ≤ s.length ∧ s.head? = some '"' ∧ s.getLast? = some '"' then unescape s.tail.dropLast else s

/-! ## 条件 -/

inductive LogicOp where
  | and
  | or

def LogicOp.text : LogicOp → Text
  | .and => "and".toList
  | .or => "or".toList

inductive Cond where
  | filter (path : List Text) (column : Text) (negated : Bool) (op value : Text) (ftsConfig : Option Text)
  | logic (path : List Text) (op : LogicOp) (negated : Bool) (conditions : List Cond)

def ftsOps : List Text := ["fts".toList, "plfts".toList, "phfts".toList, "wfts".toList]

def filterOps : List Text :=
  ["eq", "neq", "gt", "gte", "lt", "lte", "like", "ilike", "match", "imatch", "is", "in", "cs", "cd", "ov", "sl", "sr", "nxr", "nxl", "adj",
    "fts", "plfts", "phfts", "wfts", "isdistinct"].map String.toList

/-- `op.match(/^(fts|plfts|phfts|wfts)\((.+)\)$/)` -/
def ftsMatch (op : Text) : Option (Text × Text) :=
  ftsOps.findSome? fun name => do
    let rest ← after (name ++ ['(']) op
    if rest.getLast? = some ')' ∧ rest.dropLast ≠ [] ∧ !rest.dropLast.any isLineTerminator then some (name, rest.dropLast) else none

def cutNot (s : Text) : Bool × Text :=
  match after "not.".toList s with
  | some rest => (true, rest)
  | none => (false, s)

def cutDot (s : Text) : Text × Option Text :=
  match s.span (· ≠ '.') with
  | (before, []) => (before, none)
  | (before, _ :: rest) => (before, some rest)

def parseFilterValue (column raw : Text) (path : List Text) : Except ParseError Cond :=
  let (negated, rest) := cutNot raw
  let (op, value) := cutDot rest
  match ftsMatch op with
  | some (name, config) => .ok (.filter path column negated name (value.getD []) (some config))
  | none =>
    if op ∈ filterOps ∨ op ∈ Library.inheritedNames.map String.toList then .ok (.filter path column negated op (value.getD []) none)
    else .error (.unknownOperator op)

/-- `p.match(/^(not\.)?(and|or)(\(.*\))$/s)` -/
def nestedMatch (p : Text) : Option (Bool × LogicOp × Text) :=
  let (negated, rest) := cutNot p
  [LogicOp.and, LogicOp.or].findSome? fun op => do
    let group ← after op.text rest
    if group.head? = some '(' ∧ group.getLast? = some ')' ∧ 2 ≤ group.length then some (negated, op, group) else none

def parsePart (parseNested : LogicOp → Text → Bool → Except ParseError Cond) (path : List Text) (part : Text) : Except ParseError Cond :=
  let p := trim part
  match nestedMatch p with
  | some (negated, op, group) => parseNested op group negated
  | none =>
    match cutDot p with
    | (_, none) => .error (.malformedCondition p)
    | (column, some rest) => parseFilterValue (unquote column) rest path

def parseTree : (fuel : ℕ) → (op : LogicOp) → (raw : Text) → (path : List Text) → (negated : Bool) → Except ParseError Cond
  | 0, _, raw, _, _ => .error (.malformedTree raw)
  | fuel + 1, op, raw, path, negated =>
    let trimmed := trim raw
    if trimmed.head? ≠ some '(' ∨ trimmed.getLast? ≠ some ')' then .error (.malformedTree raw)
    else do
      let conditions ← (splitTopLevel trimmed.tail.dropLast ',').mapM
        (parsePart (fun op group negated => parseTree fuel op group path negated) path)
      return .logic path op negated conditions

def parseLogicTree (op : LogicOp) (raw : Text) (path : List Text) (negated : Bool) : Except ParseError Cond :=
  parseTree (raw.length + 1) op raw path negated

end Supacloud.LiteRest
