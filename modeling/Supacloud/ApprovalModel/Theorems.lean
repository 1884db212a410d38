import Supacloud.ApprovalModel.Lemmas

/-! 受け入れられる定義と、提案の連なり。 -/

namespace Supacloud.ApprovalModel

open Library List

variable {C : Type} {d : ApprovalDefinition} {guards : Text → Option (ApprovalGuard C)} {m : Model C} {immutable : C → Option C}
  {input : ApprovalInput C} {next : Text}

namespace Model

def scope (input : ApprovalInput C) : Scope := { snapshot := input.snapshot, event := input.event, actorId := input.actorId }

def Chosen (m : Model C) (immutable : C → Option C) (input : ApprovalInput C) (next : Text) : Prop :=
  ∃ context edge index, immutable input.context = some context ∧ m.definition.transitions[index]? = some edge ∧
    edge.source = input.snapshot.state ∧ edge.event = input.event ∧ edge.target = next ∧
    (m.candidates input.snapshot.state input.event).filter (m.allows context (scope input)) = [(edge, index)]

def Chain [Graphemes] (m : Model C) (immutable : C → Option C) : (state : Text) → List (ApprovalInput C × Text) → Prop
  | _, [] => True
  | state, (input, next) :: rest => input.snapshot.state = state ∧ m.evaluate immutable input = .proposal next ∧ m.Chain immutable next rest

end Model

/-- 符号単位と書記素が一つずつ対になる文での数え方。 -/
instance : Graphemes := ⟨length⟩

end Supacloud.ApprovalModel
