import Supacloud.LiteRest.Lemmas.Logic

/-! 印字と解析の往復。 -/

namespace Supacloud.LiteRest

/-- 設定の名が空でなく、点と行末の文字を含まず、釣り合うなら、印字した条件の木は、同じ木に解析される。 -/
theorem parseLogicTree_print (op : LogicOp) (path : List Text) (negated : Bool) (conditions : List Cond) (h : PrintableAll path conditions) :
    parseLogicTree op (printGroup (printConds conditions)) path negated = .ok (.logic path op negated conditions) := by
  refine parseTree_group h (parseParts_prints h fun s hs => ?_)
  have hle := length_le_joined hs
  simp only [printGroup, List.length_append, List.length_cons]
  omega

def sampleConds : List Cond :=
  [.logic [] .or true [.filter [] "not".toList true "fts".toList "\"x,(\"".toList (some "english".toList), .logic [] .and false []],
    .filter [] "or".toList false "in".toList "(1,2)".toList none]

theorem parseLogicTree_print_sample : parseLogicTree .and (printGroup (printConds sampleConds)) [] false = .ok (.logic [] .and false sampleConds) := by
  refine parseLogicTree_print .and [] false sampleConds ⟨⟨rfl, ⟨rfl, by decide, by decide, ?_, ?_⟩, ⟨rfl, trivial⟩, trivial⟩,
    ⟨rfl, by decide, by decide, ?_, by simp⟩, trivial⟩
  · exact ⟨by decide, by simp; decide, by simp; decide⟩
  · rintro c ⟨⟩
    exact ⟨by decide, by decide, by decide, by decide, by decide⟩
  · exact ⟨by decide, by simp; decide, by simp; decide⟩

theorem parseLogicTree_dotted : parseLogicTree .and
    (printGroup (printConds [.filter [] "q".toList false "fts".toList "c".toList (some "a.b".toList)])) [] false =
      .error (.unknownOperator "fts(a".toList) := by
  rfl

end Supacloud.LiteRest
