import Supacloud.ApprovalModel.Model

/-! 定義の検査が受け入れる条件と、番人を呼んだ結果。 -/

namespace Supacloud.ApprovalModel

open Library ApprovalDefinition List

variable {C : Type} {d : ApprovalDefinition}

namespace ApprovalDefinition

def edges (d : ApprovalDefinition) : List (Text × Text) := d.transitions.map fun edge => (edge.source, edge.target)

structure Sound (d : ApprovalDefinition) : Prop where
  names : ∀ s ∈ d.states, validName s
  distinct : d.states.Nodup
  initial : d.initial ∈ d.states
  terminal : ∀ s ∈ d.terminal, s ∈ d.states
  endpoints : ∀ edge ∈ d.transitions, edge.source ∈ d.states ∧ edge.target ∈ d.states
  events : ∀ edge ∈ d.transitions, ¬ isWildcard edge.event
  final : ∀ edge ∈ d.transitions, edge.source ∉ d.terminal
  unique : d.transitions.Nodup
  reachable : ∀ s ∈ d.states, Follows d.edges d.initial s
  finishes : ∀ s ∈ d.states, ∃ t ∈ d.terminal, Follows d.edges s t

end ApprovalDefinition

namespace Model

variable {m : Model C}

def allows (m : Model C) (context : C) (scope : Scope) (candidate : ApprovalTransition × ℕ) : Bool :=
  (m.guards candidate.1.guard).any fun guard => guard context scope matches .allowed

end Model

end Supacloud.ApprovalModel
