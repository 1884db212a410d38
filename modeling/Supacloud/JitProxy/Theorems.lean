import Supacloud.JitProxy.Lemmas.Streams

/-!
# 中継の性質
-/

namespace Supacloud.JitProxy

open Library

def Fidelity (events : List Event) : Prop :=
  ∀ before after, events = before ++ after → (run step .start before).Faithful ∧ (run step .start before).Counted

/-- 待っているバイトを追い越す書き込みも、つながる前の書き戻しもない走行では、中継は届いた順を守る。 -/
theorem fidelity_of_inTurn (events : List Event) (h : Along step Pair.InTurn .start events) : Fidelity events := by
  intro before after hsp
  rw [hsp, Along.append] at h
  have hsts := h.1.invariant (I := fun p => p.Wired ∧ p.Counted ∧ p.Streams Pair.nothingOwed)
    (fun p e hp htu => ⟨hp.1.step e, hp.2.1.step e, hp.2.2.step hp.1 hp.2.1 e htu⟩)
    ⟨Pair.wired_start, Pair.counted_start, Pair.streams_start⟩
  exact ⟨hsts.2.2.delivered, hsts.2.1⟩

def backpressured : List Event :=
  [.data .client [1, 2] [], .upstreamOpen [1], .data .client [3] [-1], .drain .upstream [1, 1], .data .upstream [4, 5] [2]]

theorem fidelity_backpressured : Fidelity backpressured := fidelity_of_inTurn backpressured (by decide)

def overtaken : List Event := [.data .client [1, 2] [], .data .client [3] [], .upstreamOpen [1, 1]]

theorem overtaken_reordered : ¬ Fidelity overtaken := by
  intro h
  exact absurd ((h overtaken [] (List.append_nil _).symm).1 .upstream) (by decide)

end Supacloud.JitProxy
