import Mathlib.Data.List.TakeDrop
import Supacloud.LiteRest.Lemmas.Split

/-! # 条件の木の往復 -/

namespace Supacloud.LiteRest

open List

variable {column op value : Text} {negated : Bool} {config : Option Text} {head s : Text}

def printNot (negated : Bool) : Text := if negated then "not.".toList else []

def printConfig (config : Option Text) : Text := config.elim [] fun config => '(' :: (config ++ [')'])

def printFilter (column : Text) (negated : Bool) (op value : Text) (config : Option Text) : Text :=
  column ++ '.' :: (printNot negated ++ (op ++ printConfig config ++ '.' :: value))

def printGroup (pieces : List Text) : Text := '(' :: (joined pieces ++ [')'])

mutual
def printCond : Cond → Text
  | .filter _ column negated op value config => printFilter column negated op value config
  | .logic _ op negated conditions => printNot negated ++ (op.text ++ printGroup (printConds conditions))

def printConds : List Cond → List Text
  | [] => []
  | c :: cs => printCond c :: printConds cs
end

/-- 文字の全体は有限なので、列の文字だけを調べる判定を先に選ばせる。 -/
instance (priority := 2000) decidableChars (s : Text) (p : Char → Prop) [DecidablePred p] : Decidable (∀ c ∈ s, p c) := List.decidableBAll p s

/-- 点、引用符、括弧、コンマを含まず、空白で始まらない名。 -/
def IsIdentifier (column : Text) : Prop :=
  (∀ c ∈ column, c ≠ '.' ∧ c ≠ '"' ∧ c ≠ '(' ∧ c ≠ ')' ∧ c ≠ ',') ∧ column.head?.all (!isSpace ·)

instance (column : Text) : Decidable (IsIdentifier column) :=
  inferInstanceAs (Decidable ((∀ c ∈ column, _) ∧ _ = true))

/-- 釣り合い、引用符と括弧の外にコンマがなく、前後に空白のない値。 -/
structure IsValue (value : Text) : Prop where
  plain : plain 0 false value
  first : ∀ c, value.head? = some c → isSpace c = false
  last : ∀ c, value.getLast? = some c → isSpace c = false

/-- 空でなく、点と行末の文字を含まず、引用符と括弧の釣り合う設定の名。 -/
structure IsConfig (config : Text) : Prop where
  nonempty : config ≠ []
  undotted : '.' ∉ config
  line : ∀ c ∈ config, isLineTerminator c = false
  balanced : plain 1 false (config ++ [')'])

mutual
def Printable (path : List Text) : Cond → Prop
  | .filter p column _ op value config =>
    p = path ∧ IsIdentifier column ∧ op ∈ filterOps ∧ IsValue value ∧ ∀ c, config = some c → op ∈ ftsOps ∧ IsConfig c
  | .logic p _ _ conditions => p = path ∧ PrintableAll path conditions

def PrintableAll (path : List Text) : List Cond → Prop
  | [] => True
  | c :: cs => Printable path c ∧ PrintableAll path cs
end

/-! ## 頭の切り取り -/

theorem after_append (head s) : after head (head ++ s) = some s := by
  have hpre : head.isPrefixOf (head ++ s) = true := isPrefixOf_iff_prefix.mpr (prefix_append head s)
  simp [after]

theorem after_eq_some {t} : after head s = some t ↔ s = head ++ t := by
  constructor
  · intro h
    simp only [after, Option.ite_none_right_eq_some, Option.some.injEq] at h
    obtain ⟨u, rfl⟩ := isPrefixOf_iff_prefix.mp h.1
    simpa using h.2
  · rintro rfl
    exact after_append head t

theorem filterOps_special : ∀ op ∈ filterOps, ∀ c ∈ op, c ≠ '.' ∧ c ≠ '"' ∧ c ≠ '(' ∧ c ≠ ')' ∧ c ≠ ',' := by decide

theorem filterOps_start : ∀ op ∈ filterOps, op.head? ≠ none ∧ op.take 2 ≠ "no".toList ∧ op.take 2 ≠ "an".toList ∧ op.take 2 ≠ "or".toList ∧
    2 ≤ op.length := by decide

theorem take_two {op t} (hop : 2 ≤ op.length) (hhe : 2 ≤ head.length) (h : op ++ s = head ++ t) : op.take 2 = head.take 2 := by
  have htk := congrArg (take 2) h
  rwa [take_append_of_le_length hop, take_append_of_le_length hhe] at htk

theorem after_op (hop : op ∈ filterOps) (hhe : head ∈ ["not.".toList, "and".toList, "or".toList]) : after head (op ++ s) = none := by
  obtain ⟨-, hno, han, hor, hln⟩ := filterOps_start op hop
  cases h : after head (op ++ s) with
  | none => rfl
  | some t =>
    have heq := after_eq_some.mp h
    simp only [mem_cons, not_mem_nil, or_false] at hhe
    rcases hhe with rfl | rfl | rfl
    · exact absurd (take_two hln (by decide) heq) hno
    · exact absurd (take_two hln (by decide) heq) han
    · exact absurd (take_two hln (by decide) heq) hor

theorem cutDot_append {before rest : Text} (h : '.' ∉ before) : cutDot (before ++ '.' :: rest) = (before, some rest) := by
  have hspa : (before ++ '.' :: rest).span (· ≠ '.') = (before, '.' :: rest) := by
    rw [span_eq_takeWhile_dropWhile _ _, takeWhile_append_of_pos, dropWhile_append_of_pos]
    · simp
    · exact fun c hc => by simpa using fun hdot : c = '.' => h (hdot ▸ hc)
    · exact fun c hc => by simpa using fun hdot : c = '.' => h (hdot ▸ hc)
  rw [cutDot, hspa]

/-! ## 葉 -/

theorem ftsMatch_op (hop : op ∈ filterOps) : ftsMatch op = none := by
  rw [ftsMatch, findSome?_eq_none_iff]
  intro name _
  have hnn : after (name ++ ['(']) op = none := by
    cases h : after (name ++ ['(']) op with
    | none => rfl
    | some rest =>
      have heq := after_eq_some.mp h
      exact absurd rfl (filterOps_special op hop '(' (by simp [heq])).2.2.1
  simp [hnn]

theorem ftsMatch_config {c} (hop : op ∈ ftsOps) (hc : IsConfig c) : ftsMatch (op ++ '(' :: (c ++ [')'])) = some (op, c) := by
  have hre : ∀ name, name ++ ['('] ++ (c ++ [')']) = name ++ '(' :: (c ++ [')']) := by simp
  have hot : ∀ name ∈ ftsOps, name ≠ op → after (name ++ ['(']) (op ++ '(' :: (c ++ [')'])) = none := by
    intro name hna hne
    have hpr : ∀ x ∈ ftsOps, ∀ y ∈ ftsOps, x ≠ y → ¬ (x ++ ['(']).take 4 = (y ++ ['(']).take 4 := by decide
    have hln : ∀ x ∈ ftsOps, 4 ≤ (x ++ ['(']).length := by decide
    cases h : after (name ++ ['(']) (op ++ '(' :: (c ++ [')'])) with
    | none => rfl
    | some rest =>
      have htk := congrArg (take 4) ((hre op).trans (after_eq_some.mp h))
      rw [take_append_of_le_length (hln op hop), take_append_of_le_length (hln name hna)] at htk
      exact absurd htk.symm (hpr name hna op hop hne)
  have hse : after (op ++ ['(']) (op ++ '(' :: (c ++ [')'])) = some (c ++ [')']) := after_eq_some.mpr (hre op).symm
  rw [ftsMatch]
  refine findSome?_eq_some_iff.mpr ?_
  obtain ⟨before, rest, hsp, hfr⟩ : ∃ before rest, ftsOps = before ++ op :: rest ∧ op ∉ before := eq_append_cons_of_mem hop
  refine ⟨before, op, rest, hsp, by simpa [hse, hc.nonempty] using hc.line, fun name hna => ?_⟩
  simp [hot name (by rw [hsp]; exact mem_append_left _ hna) fun heq => hfr (heq ▸ hna)]

theorem cutNot_append (negated) (h : after "not.".toList s = none) : cutNot (printNot negated ++ s) = (negated, s) := by
  cases negated with
  | true => rw [cutNot, printNot, if_pos rfl, after_append]
  | false => simp only [cutNot, printNot, Bool.false_eq_true, if_false, nil_append, h]

theorem parseFilterValue_print (hop : op ∈ filterOps) (hcn : ∀ c, config = some c → op ∈ ftsOps ∧ IsConfig c) :
    parseFilterValue column (printNot negated ++ (op ++ printConfig config ++ '.' :: value)) path =
      .ok (.filter path column negated op value config) := by
  have hcut : cutDot (op ++ printConfig config ++ '.' :: value) = (op ++ printConfig config, some value) := by
    refine cutDot_append fun hdot => ?_
    rcases mem_append.mp hdot with hdot | hdot
    · exact (filterOps_special op hop '.' hdot).1 rfl
    · cases config with
      | none => cases hdot
      | some c =>
        have hmem : '.' ∈ c := by simpa [printConfig] using hdot
        exact (hcn c rfl).2.undotted hmem
  have hnn := @after_op _ "not.".toList (printConfig config ++ '.' :: value) hop (by simp)
  rw [← append_assoc] at hnn
  simp only [parseFilterValue, cutNot_append negated hnn, hcut]
  cases config with
  | none => simp [printConfig, ftsMatch_op hop, hop]
  | some c =>
    obtain ⟨hfts, hc⟩ := hcn c rfl
    simp [printConfig, ftsMatch_config hfts hc]

theorem after_column {tail : Text} {o : LogicOp} {group : Text} (hco : ∀ c ∈ column, c ≠ '(')
    (h : after o.text (column ++ '.' :: tail) = some group) : group.head? ≠ some '(' := by
  intro hope
  obtain ⟨rest, rfl⟩ : ∃ rest, group = '(' :: rest := by
    cases group with
    | nil => cases hope
    | cons c rest =>
      cases hope
      exact ⟨rest, rfl⟩
  have heq := after_eq_some.mp h
  have hund : '.' ∉ o.text ∧ '(' ∉ o.text := by cases o <;> decide
  rcases append_eq_append_iff.mp heq with ⟨as, ho, hta⟩ | ⟨as, hc, hta⟩
  · cases as with
    | nil =>
      simp only [nil_append] at hta
      cases hta
    | cons c as =>
      simp only [cons_append, cons.injEq] at hta
      exact hund.1 (by simp [ho, ← hta.1])
  · cases as with
    | nil =>
      simp only [nil_append] at hta
      cases hta
    | cons c as =>
      simp only [cons_append, cons.injEq] at hta
      exact hco c (by simp [hc]) hta.1.symm

theorem nestedMatch_filter (hco : IsIdentifier column) (hop : op ∈ filterOps) :
    nestedMatch (printFilter column negated op value config) = none := by
  have hope : ∀ c ∈ column, c ≠ '(' := fun c hc => (hco.1 c hc).2.2.1
  have hnn : ∀ {column tail} {negated : Bool}, (∀ c ∈ column, c ≠ '(') → ([LogicOp.and, LogicOp.or].findSome? fun o => do
      let group ← after o.text (column ++ '.' :: tail)
      if group.head? = some '(' ∧ group.getLast? = some ')' ∧ 2 ≤ group.length then some (negated, o, group) else none) = none := by
    intro column tail negated hope
    rw [findSome?_eq_none_iff]
    intro o _
    cases h : after o.text (column ++ '.' :: tail) with
    | none => rfl
    | some group => simp [after_column hope h]
  cases h : after "not.".toList (printFilter column negated op value config) with
  | none =>
    rw [nestedMatch, cutNot, h]
    exact hnn hope
  | some rest =>
    -- 列の名は `not` で、残りは演算で始まる。
    have heq := after_eq_some.mp h
    have hcut := congrArg cutDot heq
    rw [printFilter, cutDot_append fun hdot => (hco.1 '.' hdot).1 rfl] at hcut
    have hdot : cutDot ("not.".toList ++ rest) = ("not".toList, some rest) := @cutDot_append "not".toList _ (by decide)
    rw [hdot, Prod.mk.injEq, Option.some.injEq] at hcut
    rw [nestedMatch, cutNot, h, ← hcut.2]
    cases negated with
    | true => exact @hnn "not".toList _ _ (by decide)
    | false =>
      have hand : after LogicOp.and.text (op ++ (printConfig config ++ '.' :: value)) = none := after_op hop (by simp [LogicOp.text])
      have hor : after LogicOp.or.text (op ++ (printConfig config ++ '.' :: value)) = none := after_op hop (by simp [LogicOp.text])
      simp [printNot, hand, hor]

theorem plain_filter (hco : IsIdentifier column) (hop : op ∈ filterOps) (hva : IsValue value)
    (hcn : ∀ c, config = some c → op ∈ ftsOps ∧ IsConfig c) : plain 0 false (printFilter column negated op value config) := by
  have hhe : plain 0 false (column ++ '.' :: (printNot negated ++ op)) := by
    refine plain_of_no_special fun c hc => ?_
    have hspe : (c ∈ column ∨ c = '.' ∨ c ∈ printNot negated ∨ c ∈ op) → c ≠ '"' ∧ c ≠ '(' ∧ c ≠ ')' ∧ c ≠ ',' := by
      rintro (hc | rfl | hc | hc)
      · exact (hco.1 c hc).2
      · decide
      · have hnot : ∀ c ∈ "not.".toList, c ≠ '"' ∧ c ≠ '(' ∧ c ≠ ')' ∧ c ≠ ',' := by decide
        cases negated with
        | true => exact hnot c hc
        | false => cases hc
      · exact (filterOps_special op hop c hc).2
    exact hspe (by simpa using hc)
  have hta : plain 0 false ('.' :: value) := by simpa [plain] using hva.plain
  have hmi : plain 0 false (printConfig config ++ '.' :: value) := by
    cases config with
    | none => exact hta
    | some c =>
      have hre := plain_append (k := 0) (t := '.' :: value) (hcn c rfl).2.balanced
      simpa [printConfig, plain] using hre.trans hta
  have hre := plain_append (k := 0) (t := printConfig config ++ '.' :: value) hhe
  have hpri : printFilter column negated op value config = (column ++ '.' :: (printNot negated ++ op)) ++ (printConfig config ++ '.' :: value) := by
    simp [printFilter]
  rw [hpri]
  exact hre.trans hmi

theorem trim_filter (hco : IsIdentifier column) (hva : IsValue value) :
    trim (printFilter column negated op value config) = printFilter column negated op value config := by
  refine trim_eq (fun c hc => ?_) fun c hc => ?_
  · cases column with
    | nil =>
      cases hc
      decide
    | cons c' column =>
      cases hc
      simpa using hco.2
  · have hla : (printFilter column negated op value config).getLast? = some (value.getLast?.getD '.') := by
      simp [printFilter, getLast?_cons]
    rw [hla] at hc
    cases hv : value.getLast? with
    | none =>
      rw [hv] at hc
      cases hc
      decide
    | some v =>
      rw [hv] at hc
      cases hc
      exact hva.last v hv

/-! ## 群 -/

theorem group_ends (pieces) : (printGroup pieces).head? = some '(' ∧ (printGroup pieces).getLast? = some ')' ∧
    2 ≤ (printGroup pieces).length ∧ (printGroup pieces).tail.dropLast = joined pieces := by
  simp [printGroup, getLast?_cons]

theorem nestedMatch_group (o pieces) :
    nestedMatch (printNot negated ++ (o.text ++ printGroup pieces)) = some (negated, o, printGroup pieces) := by
  obtain ⟨hhe, hla, hln, -⟩ := group_ends pieces
  have hfi : ∀ negated : Bool, ([LogicOp.and, LogicOp.or].findSome? fun op => do
      let group ← after op.text (o.text ++ printGroup pieces)
      if group.head? = some '(' ∧ group.getLast? = some ')' ∧ 2 ≤ group.length then some (negated, op, group) else none) =
        some (negated, o, printGroup pieces) := by
    intro negated
    cases o with
    | and => simp [after_append, hhe, hla, hln]
    | or =>
      have hnn : after LogicOp.and.text (LogicOp.or.text ++ printGroup pieces) = none := by simp [after, LogicOp.text, isPrefixOf]
      simp [hnn, after_append, hhe, hla, hln]
  have hnn : after "not.".toList (o.text ++ printGroup pieces) = none := by cases o <;> simp [after, LogicOp.text]
  rw [nestedMatch, cutNot_append negated hnn]
  exact hfi negated

theorem trim_group (o : LogicOp) (pieces) :
    trim (printNot negated ++ (o.text ++ printGroup pieces)) = printNot negated ++ (o.text ++ printGroup pieces) := by
  obtain ⟨-, hla, -, -⟩ := group_ends pieces
  refine trim_eq (fun c hc => ?_) fun c hc => ?_
  · cases negated <;> cases o <;> cases hc <;> decide
  · have hend : (printNot negated ++ (o.text ++ printGroup pieces)).getLast? = some ')' := by simp [hla]
    rw [hend] at hc
    cases hc
    decide

/-! ## 木 -/

mutual
theorem plain_print : ∀ {cond}, Printable path cond → plain 0 false (printCond cond)
  | .filter _ column negated op value config, ⟨_, hco, hop, hva, hcn⟩ => plain_filter hco hop hva hcn
  | .logic _ op negated conditions, ⟨_, hall⟩ => by
    have hbe : plain 0 false (printNot negated ++ op.text) := by cases negated <;> cases op <;> decide
    have hgr := plain_group hbe (plain_prints hall)
    simpa [printCond, printGroup] using hgr

theorem plain_prints : ∀ {conditions}, PrintableAll path conditions → ∀ s ∈ printConds conditions, plain 0 false s
  | [], _ => by simp [printConds]
  | _ :: _, ⟨hcon, hrs⟩ => forall_mem_cons.mpr ⟨plain_print hcon, plain_prints hrs⟩
end

theorem print_nonempty (cond) : printCond cond ≠ [] := by
  cases cond with
  | filter _ column => simp [printCond, printFilter]
  | logic _ op => simp [printCond, printGroup]

theorem prints_nonempty (conditions) : ∀ s ∈ printConds conditions, s ≠ [] := by
  induction conditions with
  | nil => simp [printConds]
  | cons cond conditions ih => exact forall_mem_cons.mpr ⟨print_nonempty cond, ih⟩

theorem length_le_joined {pieces} (h : s ∈ pieces) : s.length ≤ (joined pieces).length := by
  induction pieces with
  | nil => cases h
  | cons t pieces ih =>
    cases pieces with
    | nil =>
      rw [mem_singleton.mp h]
      exact Nat.le_refl _
    | cons u pieces =>
      rcases mem_cons.mp h with rfl | h
      · simp [joined]
      · have hle := ih h
        simp only [joined, length_append, length_cons]
        omega

theorem parseTree_group {fuel o conditions} (hall : PrintableAll path conditions)
    (hpas : (printConds conditions).mapM (parsePart (fun op group negated => parseTree fuel op group path negated) path) = .ok conditions) :
    parseTree (fuel + 1) o (printGroup (printConds conditions)) path negated = .ok (.logic path o negated conditions) := by
  obtain ⟨hhe, hla, -, hinn⟩ := group_ends (printConds conditions)
  have htr : trim (printGroup (printConds conditions)) = printGroup (printConds conditions) := by
    refine trim_eq (fun c hc => ?_) fun c hc => ?_
    · cases hhe.symm.trans hc
      decide
    · cases hla.symm.trans hc
      decide
  have hsp := splitTopLevel_joined fun s hs => ⟨plain_prints hall s hs, prints_nonempty conditions s hs⟩
  simp only [parseTree, htr, hhe, hla, hinn, hsp, ne_eq, not_true_eq_false, or_self, if_false, hpas]
  rfl

mutual
theorem parsePart_print : ∀ {cond fuel}, Printable path cond → (printCond cond).length < fuel →
    parsePart (fun op group negated => parseTree fuel op group path negated) path (printCond cond) = .ok cond
  | .filter _ column negated op value config, fuel, ⟨rfl, hco, hop, hva, hcn⟩, _ => by
    have hunq : unquote column = column := by
      rw [unquote, if_neg]
      rintro ⟨-, hqu, -⟩
      exact (hco.1 '"' (mem_of_head? hqu)).2.1 rfl
    have hcut := @cutDot_append _ (printNot negated ++ (op ++ printConfig config ++ '.' :: value)) fun hdot => (hco.1 '.' hdot).1 rfl
    simp only [parsePart, printCond, trim_filter hco hva, nestedMatch_filter hco hop]
    rw [printFilter, hcut]
    simp only [hunq]
    exact parseFilterValue_print hop hcn
  | .logic _ op negated conditions, fuel, ⟨rfl, hall⟩, hfu => by
    cases fuel with
    | zero => omega
    | succ fuel =>
      simp only [parsePart, printCond, trim_group, nestedMatch_group]
      refine parseTree_group hall (parseParts_prints hall fun s hs => ?_)
      have hle := length_le_joined hs
      simp only [printCond, printGroup, length_append, length_cons] at hfu
      omega

theorem parseParts_prints : ∀ {conditions fuel}, PrintableAll path conditions →
    (∀ s ∈ printConds conditions, s.length < fuel) → (printConds conditions).mapM (parsePart (fun op group negated => parseTree fuel op group path negated) path) = .ok conditions
  | [], _, _, _ => rfl
  | cond :: conditions, fuel, ⟨hcon, hrs⟩, hfu => by
    obtain ⟨hlt, hlts⟩ := forall_mem_cons.mp hfu
    simp [printConds, parsePart_print hcon hlt, parseParts_prints hrs hlts, bind, Except.bind, pure, Except.pure]
end

end Supacloud.LiteRest
