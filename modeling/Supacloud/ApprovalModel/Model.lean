import Mathlib
import Supacloud.Library.Closure
import Supacloud.Library.Numbers

/-!
# 承認の模型（approval/src/index.ts、approval/src/validation.ts）

文字列は UTF-16 の符号単位の列である。xstate の `transition` は、条件の成り立つ最初の辺を取る。
番人の結末は、値か、例外か、`Promise` である。
-/

namespace Supacloud.ApprovalModel

open Library

abbrev Text := List UInt16

local instance : LawfulBEq Text := inferInstance

structure ApprovalTransition where
  source : Text
  event : Text
  target : Text
  guard : Text
deriving DecidableEq

structure ApprovalDefinition where
  key : Text
  version : Text
  initial : Text
  states : List Text
  terminal : List Text
  transitions : List ApprovalTransition

/-! ## 形の検査 -/

def isSpace (u : UInt16) : Bool :=
  (9 ≤ u && u ≤ 13) || (0x2000 ≤ u && u ≤ 0x200A) || [0x20, 0xA0, 0x1680, 0x2028, 0x2029, 0x202F, 0x205F, 0x3000, 0xFEFF].contains u

def isLineTerminator (u : UInt16) : Bool := [10, 13, 0x2028, 0x2029].contains u

/-- `typebox` の数える文字数。符号単位の数ではなく、書記素の数である。 -/
class Graphemes where
  count : Text → ℕ

/-- `Type.String({ minLength: 1, maxLength: 256, pattern: '^\\S(?:.*\\S)?$' })` -/
def isText [Graphemes] (s : Text) : Bool :=
  Graphemes.count s ≤ 256 && s.head?.any (!isSpace ·) && s.getLast?.any (!isSpace ·) && !s.any isLineTerminator

/-- `Type.Integer({ minimum: 1, maximum: Number.MAX_SAFE_INTEGER })` -/
def isVersion (n : Number) : Bool := n.safeInteger?.any (1 ≤ ·)

def isStates [Graphemes] (states : List Text) : Bool :=
  1 ≤ states.length && states.length ≤ 128 && states.all isText && decide states.Nodup

def checkDefinition [Graphemes] (d : ApprovalDefinition) : Bool :=
  isText d.key && isText d.version && isText d.initial && isStates d.states && isStates d.terminal && d.transitions.length ≤ 1024 &&
    d.transitions.all fun edge => isText edge.source && isText edge.event && isText edge.target && isText edge.guard

def nonempty (s : Text) : Bool := s.any (!isSpace ·)

def isLetter (u : UInt16) : Bool := (0x41 ≤ u && u ≤ 0x5A) || (0x61 ≤ u && u ≤ 0x7A)

def ofString (s : String) : Text := s.toList.map fun c => UInt16.ofNat c.toNat

def validName (s : Text) : Bool :=
  s.length ≤ 100 && s.head?.any isLetter && (s.all fun u => isLetter u || (0x30 ≤ u && u ≤ 0x39) || u == 0x5F || u == 0x2D)
    && ! [ofString "constructor", ofString "prototype", ofString "__proto__"].contains s

/-- `event === '*' || event.endsWith('.*')` -/
def isWildcard (event : Text) : Bool := event = ofString "*" || (ofString ".*").isSuffixOf event

structure ApprovalSnapshot where
  definitionKey : Text
  definitionVersion : Text
  tenantId : Text
  entityId : Text
  state : Text
  rowVersion : Number

structure ApprovalInput (C : Type) where
  snapshot : ApprovalSnapshot
  expectedRowVersion : Number
  requestId : Text
  actorId : Text
  event : Text
  context : C

structure Scope where
  snapshot : ApprovalSnapshot
  event : Text
  actorId : Text

inductive GuardOutcome where
  | allowed
  | denied (reason : Text)
  | malformed
  | promise
  | threw

abbrev ApprovalGuard (C : Type) := C → Scope → GuardOutcome

structure Model (C : Type) where
  definition : ApprovalDefinition
  guards : Text → Option (ApprovalGuard C)

inductive ApprovalBlockCode where
  | invalidSnapshot
  | definitionMismatch
  | staleVersion
  | invalidTransition
  | guardDenied
  | guardFailed
  | ambiguousTransition

inductive ApprovalEvaluation where
  | contractError
  | blocked (code : ApprovalBlockCode) (reasons : List Text)
  | proposal (nextState : Text)

variable {C : Type}

def checkInput [Graphemes] (input : ApprovalInput C) : Bool :=
  let s := input.snapshot
  [s.definitionKey, s.definitionVersion, s.tenantId, s.entityId, s.state, input.requestId, input.actorId, input.event].all isText &&
    isVersion s.rowVersion && isVersion input.expectedRowVersion

namespace Model

variable (m : Model C)

def candidates (state event : Text) : List (ApprovalTransition × ℕ) :=
  m.definition.transitions.zipIdx.filter fun c => c.1.source = state && c.1.event = event

def runGuards (context : C) (scope : Scope) : List (ApprovalTransition × ℕ) → Option (List (ApprovalTransition × ℕ) × List Text)
  | [] => some ([], [])
  | candidate :: rest => do
    let guard ← m.guards candidate.1.guard
    match guard context scope with
    | .allowed =>
      let (allowed, reasons) ← runGuards context scope rest
      return (candidate :: allowed, reasons)
    | .denied reason =>
      if nonempty reason && reason.length ≤ 256 then
        let (allowed, reasons) ← runGuards context scope rest
        return (allowed, reason :: reasons)
      else none
    | .malformed | .promise | .threw => none

/-- `transition(machine, current, event)`。条件 `context.selected === index` の成り立つ最初の辺を取る。 -/
def next (state event : Text) (selected : ℕ) : Text :=
  match (m.candidates state event).find? fun c => c.2 = selected with
  | some c => c.1.target
  | none => state

/-- `immutable` は `immutableData` で、写せなければ `none` を返す。 -/
def evaluate [Graphemes] (immutable : C → Option C) (input : ApprovalInput C) : ApprovalEvaluation :=
  let before := input.snapshot
  if !nonempty before.tenantId || !nonempty before.entityId || !nonempty input.requestId || !isVersion before.rowVersion
    || !isVersion input.expectedRowVersion || !m.definition.states.contains before.state then .blocked .invalidSnapshot []
  else if !checkInput input then .contractError
  else if before.definitionKey ≠ m.definition.key || before.definitionVersion ≠ m.definition.version then .blocked .definitionMismatch []
  else if before.rowVersion ≠ input.expectedRowVersion then .blocked .staleVersion []
  else if (m.candidates before.state input.event).isEmpty then .blocked .invalidTransition []
  else
    match immutable input.context with
    | none => .blocked .guardFailed []
    | some context =>
      match m.runGuards context { snapshot := before, event := input.event, actorId := input.actorId }
        (m.candidates before.state input.event) with
      | none => .blocked .guardFailed []
      | some ([], reasons) => .blocked .guardDenied reasons
      | some ([selected], _) =>
        if m.next before.state input.event selected.2 ≠ selected.1.target then .blocked .guardFailed []
        else .proposal selected.1.target
      | some _ => .blocked .ambiguousTransition []

end Model

end Supacloud.ApprovalModel
