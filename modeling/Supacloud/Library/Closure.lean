import Mathlib.Data.Finset.Card
import Mathlib.Logic.Relation

/-!
# 辺の列による閉包

辺の列を前から順に見て、始点が集合にあれば終点を加えることを、何周か繰り返す。
-/

namespace Supacloud.Library

variable {α : Type} [DecidableEq α] {edges : List (α × α)} {s whole : Finset α} {a b x : α} {n : ℕ}

def visit (s : Finset α) (e : α × α) : Finset α := if e.1 ∈ s then insert e.2 s else s

def sweep (edges : List (α × α)) (s : Finset α) : Finset α := edges.foldl visit s

def Follows (edges : List (α × α)) : α → α → Prop := Relation.ReflTransGen fun a b => (a, b) ∈ edges

end Supacloud.Library
