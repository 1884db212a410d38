import Supacloud.Commands.Transactional
import Supacloud.Commands.Lemmas.Session

/-! # 実行方針の正しさ -/

namespace Supacloud.Commands

open Contracts Library

variable {α : Type} {I : World → Prop} {R G : World → World → Prop} {A : Oracle → World → Prop}
  {Q : α → World → Prop} {E : Thrown → World → Prop} {C : Prop} {p : ExecutionPolicy} {n : Nat}

structure PolicyFrame (p : ExecutionPolicy) (n : Nat) (I : World → Prop) (R G : World → World → Prop) : Prop where
  refl : ∀ w, R w w
  idle : ∀ w, I w → G w w
  closed : ∀ w, I w → p.circuit = none → (w.policy n).openUntil = 0
  set : ∀ w s, I w → (p.circuit = none → s.openUntil = 0) → I (w.setPolicy n s) ∧ G w (w.setPolicy n s) ∧ R w (w.setPolicy n s)

structure PolicyOracle (A : Oracle → World → Prop) (E : Thrown → World → Prop) (C : Prop) : Prop where
  signal : ∀ o w, A o w → (({} : Signal).after o).aborted = true → C
  classified : ∀ o w, A o w → o.classified = none → ∀ w, E .other w
  isFailure : ∀ o w, A o w → o.isFailure = none → ∀ w, E .other w

def RunPost (Q : α → World → Prop) (E : Thrown → World → Prop) (C : Prop) (r : Except Thrown α × Signal)
    (w : World) : Prop :=
  (r.2.aborted = true → C) ∧ Proc.Post Q E r.1 w

def PolicyPost (p : ExecutionPolicy) (Q : α → World → Prop) (E : Thrown → World → Prop) (C : Prop) :
    Except PolicyError α → World → Prop
  | .ok a, w => Q a w
  | .error (.thrown e), w => E e w
  | .error (.policy .CIRCUIT_OPEN), _ => p.circuit ≠ none
  | .error (.policy _), _ => C

theorem Signal.after_aborted {s : Signal} {o} (h : (s.after o).aborted = true) :
    s.aborted = true ∨ (({} : Signal).after o).aborted = true := by
  simp only [Signal.after, Bool.or_eq_true] at h ⊢
  tauto

theorem cancelled_post {s w} (h : C) : PolicyPost p Q E C (.error (p.cancelled s)) w := by
  unfold ExecutionPolicy.cancelled
  cases p.kind with
  | command => exact h
  | read => by_cases he : s.expired = true <;> simpa [he, PolicyPost] using h

section Stable

variable (hQ : ∀ a w w', I w' → R w w' → Q a w → Q a w') (hE : ∀ e w w', I w' → R w w' → E e w → E e w')

include hQ hE in
theorem PolicyPost.stable (r w w') (hi : I w') (hr : R w w') (h : PolicyPost p Q E C r w) : PolicyPost p Q E C r w' := by
  cases r with
  | ok a => exact hQ a w w' hi hr h
  | error e =>
    cases e with
    | thrown e => exact hE e w w' hi hr h
    | policy code => cases code <;> exact h

include hQ hE in
theorem ret_safe {r w} (h : PolicyPost p Q E C r w) : Proc.Safe I R G A (PolicyPost p Q E C) (.ret r) w :=
  Proc.Safe.ret fun w' hi hr => PolicyPost.stable hQ hE r w w' hi hr h

include hQ hE in
theorem retryAttempt_safe (hF : PolicyFrame p n I R G) (hO : PolicyOracle A E C) {halfOpen}
    {again : Option (Signal → Proc Oracle World (Except PolicyError α))} {e s w} (hs : s.aborted = false) (he : E e w)
    (hag : ∀ f, again = some f → ∀ s w', I w' → R w w' → (s.aborted = true → C) →
      Proc.Safe I R G A (PolicyPost p Q E C) (f s) w') (htrs : ∀ a b c, R a b → R b c → R a c) :
    Proc.Safe I R G A (PolicyPost p Q E C) (retryAttempt p halfOpen again e s) w := by
  have hth : ∀ w', I w' → R w w' → Proc.Safe I R G A (PolicyPost p Q E C) (.ret (.error (.thrown e))) w' :=
    fun w' hi hr => ret_safe hQ hE (hE e w w' hi hr he)
  unfold retryAttempt
  split
  · exact ret_safe hQ hE he
  · cases again with
    | none => exact ret_safe hQ hE he
    | some f =>
      simp only
      split
      · exact ret_safe hQ hE he
      · -- 判定の段と待つ段は世界を変えない。
        refine Proc.Safe.bind hF.refl (Q := fun decision w' => R w w' ∧ (decision = none → ∀ w, E .other w))
          (Proc.Safe.atomic fun w' hi hr o ho => ⟨hi, hF.idle w' hi, fun w'' _ hr' =>
            ⟨htrs _ _ _ hr hr', fun h => hO.classified o _ ho h⟩⟩) ?_
        intro decision w₁ hi₁ ⟨hr₁, hnn⟩
        cases decision with
        | none => exact ret_safe hQ hE (hnn rfl w₁)
        | some decision =>
          simp only
          split
          · exact hth w₁ hi₁ hr₁
          · refine Proc.Safe.bind hF.refl (Q := fun s w' => R w w' ∧ (s.aborted = true → C))
              (Proc.Safe.atomic fun w' hi hr o ho => ⟨hi, hF.idle w' hi, fun w'' _ hr' =>
                ⟨htrs _ _ _ hr₁ (htrs _ _ _ hr hr'), fun h => ?_⟩⟩)
              fun s' w₂ hi₂ h₂ => hag f rfl s' w₂ hi₂ h₂.1 h₂.2
            rcases Signal.after_aborted h with h | h
            · rw [hs] at h
              cases h
            · exact hO.signal o _ ho h

variable {P : World → Prop} (hP : ∀ w w', I w' → R w w' → P w → P w')
  {run : Signal → Proc Oracle World (Except Thrown α × Signal)}
  (hrun : ∀ s w, s.aborted = false → I w → P w → Proc.Safe I R G A (fun r w => RunPost Q E C r w ∧ P w) (run s) w)
  (htrs : ∀ a b c, R a b → R b c → R a c)

include hQ hE hP hrun htrs in
theorem attempt_safe (hF : PolicyFrame p n I R G) (hO : PolicyOracle A E C) {halfOpen generation}
    {again : Option (Signal → Proc Oracle World (Except PolicyError α))} {s w} (hi : I w) (hpre : P w) (hs : s.aborted = true → C)
    (hag : ∀ f, again = some f → ∀ s w', I w' → P w' → (s.aborted = true → C) → Proc.Safe I R G A (PolicyPost p Q E C) (f s) w') :
    Proc.Safe I R G A (PolicyPost p Q E C) (attempt p n halfOpen generation run again s) w := by
  unfold attempt
  split
  · rename_i h
    exact ret_safe hQ hE (cancelled_post (hs h))
  · rename_i h
    refine Proc.Safe.bind hF.refl (hrun s w (by simpa using h) hi hpre) fun r w₁ hi₁ ⟨⟨hab, hres⟩, hpr₁⟩ => ?_
    obtain ⟨result, s₁⟩ := r
    simp only
    split
    · rename_i h₁
      exact ret_safe hQ hE (cancelled_post (hab h₁))
    · rename_i h₁
      cases result with
      | ok a =>
        refine Proc.Safe.bind hF.refl (Q := fun _ w => Q a w) ?_ fun _ w₂ _ hq => ret_safe hQ hE hq
        refine Proc.Safe.atomic fun w' hi' hr' o _ => ?_
        have hcl : p.circuit = none → (((w'.policy n).succeed halfOpen generation).release halfOpen).openUntil = 0 := by
          intro hc
          have h0 := hF.closed w' hi' hc
          unfold PolicyState.release PolicyState.succeed
          split <;> split <;> simp_all
        obtain ⟨hI, hG, hR⟩ := hF.set w' _ hi' hcl
        exact ⟨hI, hG, fun w'' hi'' hr'' =>
          hQ a _ w'' hi'' hr'' (hQ a w' _ hI hR (hQ a w₁ w' hi' hr' hres))⟩
      | error e =>
        refine retryAttempt_safe hQ hE hF hO (by simpa using h₁) hres (fun f hf s' w' hi' hr' hs' => ?_) htrs
        exact hag f hf s' w' hi' (hP w₁ w' hi' hr' hpr₁) hs'

include hQ hE hP hrun htrs in
theorem attempts_safe (hF : PolicyFrame p n I R G) (hO : PolicyOracle A E C) {halfOpen generation}
    (remaining) {s w} (hi : I w) (hpre : P w) (hs : s.aborted = true → C) :
    Proc.Safe I R G A (PolicyPost p Q E C) (attempts p n halfOpen generation run remaining s) w := by
  induction remaining generalizing s w with
  | zero => exact attempt_safe hQ hE hP hrun htrs hF hO hi hpre hs (by simp)
  | succ remaining ih =>
    refine attempt_safe hQ hE hP hrun htrs hF hO hi hpre hs ?_
    intro f hf s' w' hi' hpr' hs'
    cases hf
    exact ih hi' hpr' hs'

theorem settleFailure_frame (halfOpen generation e o) {w} (hF : PolicyFrame p n I R G) (hi : I w) :
    I (settleFailure p n halfOpen generation e o w).2 ∧ G w (settleFailure p n halfOpen generation e o w).2 ∧
      R w (settleFailure p n halfOpen generation e o w).2 := by
  have hrl : p.circuit = none → ((w.policy n).release halfOpen).openUntil = 0 := by
    intro hc
    have h0 := hF.closed w hi hc
    unfold PolicyState.release
    split <;> simp_all
  unfold settleFailure
  cases hc : p.circuit with
  | none => exact hF.set w _ hi hrl
  | some c => grind [hF.set]

include hQ hE hP hrun htrs in
theorem ExecutionPolicy.execute_safe (hF : PolicyFrame p n I R G) (hO : PolicyOracle A E C) {w}
    (hpre : P w) : Proc.Safe I R G A (PolicyPost p Q E C) (p.execute n run) w := by
  refine Proc.Safe.bind hF.refl
    (Q := fun r w => P w ∧ ∀ e, r = .error e → PolicyPost p Q E C (.error e) w) ?_ fun r w₁ hi₁ ⟨hpr₁, herr⟩ => ?_
  · refine Proc.Safe.atomic fun w' hi' hr' o ho => ?_
    have hpr' := hP w w' hi' hr' hpre
    unfold admission
    simp only
    split
    · rename_i hab
      refine ⟨hi', hF.idle w' hi', fun w'' hi'' hr'' => ⟨hP w' w'' hi'' hr'' hpr', ?_⟩⟩
      intro e he
      cases he
      exact hO.signal o _ ho (by simp [Signal.after, hab])
    · split
      · rename_i hop
        refine ⟨hi', hF.idle w' hi', fun w'' hi'' hr'' => ⟨hP w' w'' hi'' hr'' hpr', ?_⟩⟩
        intro e he
        cases he
        intro hc
        simp [hF.closed w' hi' hc] at hop
      · grind [hF.set, hF.closed]
  · cases r with
    | error e => exact ret_safe hQ hE (herr e rfl)
    | ok x =>
      obtain ⟨halfOpen, generation⟩ := x
      refine Proc.Safe.bind hF.refl
        (attempts_safe hQ hE hP hrun htrs hF hO p.retries hi₁ hpr₁ (by simp)) fun r w₂ _ hr₂ => ?_
      cases r with
      | ok a => exact ret_safe hQ hE hr₂
      | error e =>
        refine Proc.Safe.bind hF.refl (Q := fun e w => PolicyPost p Q E C (.error e) w) ?_
          fun e w₃ _ he => ret_safe hQ hE he
        refine Proc.Safe.atomic fun w' hi' hr' o ho => ?_
        obtain ⟨hI, hG, hR⟩ := settleFailure_frame halfOpen generation e o hF hi'
        refine ⟨hI, hG, fun w'' hi'' hr'' => ?_⟩
        have hse : PolicyPost p Q E C
            (.error (settleFailure p n halfOpen generation e o w').1) w' := by
          have he' := PolicyPost.stable hQ hE (.error e) w₂ w' hi' hr' hr₂
          unfold settleFailure
          cases p.circuit with
          | none => exact he'
          | some c =>
            simp only
            split
            · exact he'
            · cases hf : o.isFailure with
              | none => exact hO.isFailure o _ ho hf w'
              | some b => exact he'
        exact PolicyPost.stable hQ hE _ _ w'' hi'' hr'' (PolicyPost.stable hQ hE _ w' _ hI hR hse)

end Stable

end Supacloud.Commands

/-! ## トランザクション型のコマンドの並行実行 -/

namespace Supacloud.Commands.Transactional

open Contracts Library Session

variable {ρ : Type} {d : Definition ρ} {policies : Nat → ExecutionPolicy} {calls : Nat → Call} {call : Call}
  {i : Nat} {o : Oracle} {t t' : Tables} {w w' : World} {ref : OperationReference} {c : CommandJson}

/-! ## 本体の変化 -/

def Call.Executes (d : Definition ρ) (call : Call) (ref : OperationReference) (c : CommandJson) : Prop :=
  ∃ n identity key value input, call = .execute n identity key value ∧ reference d identity key = .ok ref ∧
    decodeInput d value = some (input, c)

def Stores (d : Definition ρ) (ref : OperationReference) (row : Row) (r : DurableCommandReceipt ρ) : Prop :=
  r.reference = ref ∧ r.dispatchKey = row.dispatchKey ∧
    ∃ raw res, row.result = some raw ∧ d.result raw.toValue = some res ∧ r.state = .confirmed .complete res

variable {identity : CommandIdentity} {r : DurableCommandReceipt ρ} {q : Prepared}

variable {value : JsValue} {row : Row}

theorem stores_of_shows {res} (h : Shows d q .transactional row r) (hs : r.state = .confirmed .complete res) : Stores d q.reference row r := by
  obtain ⟨st, hst, hd⟩ := h.state
  rw [hs] at hd
  obtain ⟨raw, rfl⟩ := decodes_confirmed hd
  exact ⟨h.reference, h.dispatchKey, raw, res, (Row.state_confirmed hst).2.2, hd.2, hs⟩

theorem abortWhen_ok {b u} (h : abortWhen b o t = .ok (u, t')) : t' = t := by
  unfold abortWhen at h
  split at h
  · simp at h
  · simp only [pure_ok, Prod.mk.injEq] at h
    exact h.2

theorem executeDefinition_ok {r} (h : executeDefinition d q o t = .ok (r, t')) : ∃ v, t' = t.addEffect q.reference v := by
  simp only [executeDefinition, bind_ok, oracle_ok, Prod.mk.injEq] at h
  obtain ⟨o', _, ⟨rfl, rfl⟩, h⟩ := h
  cases he : o'.executed with
  | error e => simp [he] at h
  | ok v =>
    simp only [he, bind_ok, getTables_ok, setTables_ok, orThrow_ok, pure_ok, Prod.mk.injEq] at h
    obtain ⟨_, _, ⟨rfl, rfl⟩, _, _, ⟨-, rfl⟩, raw, _, ⟨-, rfl⟩, res, _, ⟨-, rfl⟩, -, rfl⟩ := h
    exact ⟨v, rfl⟩

structure Written (ref : OperationReference) (fingerprint : String) (t : Tables) (v : JsValue) (row : Row)
    (a : AuditRow) (t' : Tables) : Prop where
  none : t.rows ref = none
  tables : t' = ((t.addEffect ref v).setRow ref row).addAudit ref a
  fingerprint : row.inputFingerprint = fingerprint
  state : ∃ raw, row.state = some (.confirmed .complete raw)

variable {aborted : Bool}

theorem executeFresh_ok (h : executeFresh d q aborted o t = .ok (r, t')) :
    ∃ v row a, Written q.reference q.fingerprint t v row a t' ∧ Stores d q.reference row r := by
  simp only [executeFresh, bind_ok, oracle_ok, Prod.mk.injEq] at h
  obtain ⟨o', _, ⟨rfl, rfl⟩, x, t₁, hdef, _, t₂, ha₁, _, t₃, hins, _, t₄, haud, _, t₅, ha₂, found, t₆, hf, h⟩ := h
  obtain ⟨v, rfl⟩ := executeDefinition_ok hdef
  cases abortWhen_ok ha₁
  obtain ⟨hnn, row, rfl, -, hfp, -, hsta⟩ := insertReceipt_ok hins
  obtain ⟨-, a, rfl⟩ := audit_ok haud
  cases abortWhen_ok ha₂
  obtain ⟨rfl, ⟨hn, rfl⟩ | ⟨row', receipt, hro', rfl, hsh, hco⟩⟩ := find_ok hf
  · simp at hn
  · simp only [pure_ok, Prod.mk.injEq] at h
    obtain ⟨rfl, rfl⟩ := h
    simp only [addAudit_rows, setRow_rows, ↓reduceIte, Option.some.injEq] at hro'
    subst hro'
    obtain ⟨res, hres⟩ := hco rfl
    exact ⟨v, row, a, ⟨hnn, rfl, hfp, x.1, hsta⟩, stores_of_shows hsh hres⟩

theorem executeBody_ok (h : executeBody d q aborted o t = .ok (r, t')) :
    (t' = t ∧ ∃ row, t.rows q.reference = some row ∧ row.inputFingerprint = q.fingerprint ∧ Stores d q.reference row r) ∨
    ∃ v row a, Written q.reference q.fingerprint t v row a t' ∧ Stores d q.reference row r := by
  simp only [executeBody, bind_ok, oracle_ok, Prod.mk.injEq] at h
  obtain ⟨o', _, ⟨rfl, rfl⟩, _, t₁, ha, _, t₂, hl, found, t₃, hf, h⟩ := h
  cases abortWhen_ok ha
  cases lockRequest_ok hl
  obtain ⟨rfl, ⟨-, rfl⟩ | ⟨row, receipt, hrow, rfl, hsh, hco⟩⟩ := find_ok hf
  · exact Or.inr (executeFresh_ok h)
  · simp only [pure_ok, Prod.mk.injEq] at h
    obtain ⟨rfl, rfl⟩ := h
    obtain ⟨res, hres⟩ := hco rfl
    exact Or.inl ⟨rfl, row, hrow, hsh.fingerprint, stores_of_shows hsh hres⟩

/-! ## 一段の変化と不変条件 -/

inductive Change (d : Definition ρ) (call : Call) (w : World) : Tables → Prop where
  | same : Change d call w w.tables
  | write {ref : OperationReference} {c} (v : JsValue) (row : Row) (a : AuditRow) (t : Tables)
      (hcall : call.Executes d ref c) (h : Written ref (d.digest c) w.tables v row a t) : Change d call w t
  | redact {ref : OperationReference} (row : Row) (hcall : call = .redactCompleted ref)
      (hrow : w.tables.rows ref = some row) :
      Change d call w (w.tables.setRow ref { row with inputPayload := none })

inductive Effect (d : Definition ρ) (policies : Nat → ExecutionPolicy) (call : Call) (i : Nat) (w : World) :
    World → Prop where
  | idle : Effect d policies call i w w
  | policy (n : Nat) (s : PolicyState) (h : (policies n).circuit = none → s.openUntil = 0) :
      Effect d policies call i w (w.setPolicy n s)
  | commit (t : Tables) (h : Change d call w t) : Effect d policies call i w (w.commit i t)

def TablesOk (t : Tables) (ref : OperationReference) : Prop :=
  match t.rows ref with
  | some row => (∃ raw, row.state = some (.confirmed .complete raw)) ∧ (t.effects ref).length = 1 ∧ (t.audits ref).length = 1
  | none => t.effects ref = [] ∧ t.audits ref = []

structure Inv (d : Definition ρ) (policies : Nat → ExecutionPolicy) (calls : Nat → Call) (w : World) : Prop where
  tables : ∀ ref, TablesOk w.tables ref
  policy : ∀ n, (policies n).circuit = none → (w.policy n).openUntil = 0
  origin : ∀ j b a, (j, Event.committed b a) ∈ w.log → a ≠ b → (∃ ref, calls j = .redactCompleted ref) ∨
    ∃ ref c row, (calls j).Executes d ref c ∧ w.tables.rows ref = some row ∧ row.inputFingerprint = d.digest c
  source : ∀ ref row, w.tables.rows ref = some row → ∃ j c, (calls j).Executes d ref c ∧ row.inputFingerprint = d.digest c

def Keeps (w w' : World) : Prop :=
  ∀ ref row, w.tables.rows ref = some row → ∃ payload, w'.tables.rows ref = some { row with inputPayload := payload }

theorem Keeps.refl (w) : Keeps w w := fun _ row h => ⟨row.inputPayload, h⟩

theorem Keeps.trans {a b c} (h : Keeps a b) (h' : Keeps b c) : Keeps a c := by
  intro ref row hrow
  obtain ⟨p, hp⟩ := h ref row hrow
  obtain ⟨p', hp'⟩ := h' ref _ hp
  exact ⟨p', hp'⟩

theorem Effect.keeps (h : Effect d policies call i w w') : Keeps w w' := by
  cases h with
  | idle | policy n s _ => exact .refl w
  | commit t hc =>
    cases hc with
    | same => exact .refl w
    | write v row a t _ hw =>
      intro ref' row' hro'
      rw [commit_tables, hw.tables, addAudit_rows, setRow_rows]
      split
      · rename_i he
        rw [he, hw.none] at hro'
        cases hro'
      · exact ⟨row'.inputPayload, hro'⟩
    | redact row _ hrow =>
      intro ref' row' hro'
      rw [commit_tables, setRow_rows]
      split
      · rename_i he
        rw [he, hrow] at hro'
        cases hro'
        exact ⟨none, rfl⟩
      · exact ⟨row'.inputPayload, hro'⟩

theorem Change.tablesOk (h : Change d call w t) (hw : ∀ ref, TablesOk w.tables ref) (r) : TablesOk t r := by
  have hr := hw r
  cases h with
  | same => exact hr
  | @write ref c v row a t _ h =>
    obtain ⟨hnn, rfl, -, hsta⟩ := h
    unfold TablesOk at hr ⊢
    by_cases he : r = ref
    · subst he
      rw [hnn] at hr
      simp [hsta, hr.1, hr.2]
    · simpa [he] using hr
  | @redact ref row _ hrow =>
    unfold TablesOk at hr ⊢
    by_cases he : r = ref
    · subst he
      rw [hrow] at hr
      simpa [Row.state] using hr
    · simpa [he] using hr

theorem Change.source (h : Change d (calls i) w t) (hw : ∀ ref row, w.tables.rows ref = some row →
      ∃ j c, (calls j).Executes d ref c ∧ row.inputFingerprint = d.digest c) (r row) (hrow : t.rows r = some row) :
    ∃ j c, (calls j).Executes d r c ∧ row.inputFingerprint = d.digest c := by
  cases h with
  | same => exact hw r row hrow
  | @write ref c v new a t hcall hwr =>
    rw [hwr.tables, addAudit_rows, setRow_rows] at hrow
    split at hrow
    · rename_i he
      cases hrow
      exact ⟨i, c, by rw [he]; exact hcall, hwr.fingerprint⟩
    · exact hw r row hrow
  | @redact ref old _ hold =>
    rw [setRow_rows] at hrow
    split at hrow
    · rename_i he
      cases hrow
      exact hw r old (by rw [he]; exact hold)
    · exact hw r row hrow

theorem Effect.inv (h : Effect d policies (calls i) i w w') (hI : Inv d policies calls w) : Inv d policies calls w' := by
  have hk := h.keeps
  have hold : ∀ j b a, (j, Event.committed b a) ∈ w.log → a ≠ b → (∃ ref, calls j = .redactCompleted ref) ∨
      ∃ ref c row, (calls j).Executes d ref c ∧ w'.tables.rows ref = some row ∧ row.inputFingerprint = d.digest c := by
    intro j b a hm hne
    rcases hI.origin j b a hm hne with hr | ⟨ref, c, row, hex, hrow, hfp⟩
    · exact Or.inl hr
    · obtain ⟨p, hp⟩ := hk ref row hrow
      exact Or.inr ⟨ref, c, _, hex, hp, hfp⟩
  cases h with
  | idle => exact hI
  | policy n s hs =>
    refine ⟨hI.tables, fun m hm => ?_, hold, hI.source⟩
    unfold World.setPolicy
    by_cases he : m = n
    · subst he
      simpa using hs hm
    · simpa [he] using hI.policy m hm
  | commit t hc =>
    refine ⟨hc.tablesOk hI.tables, hI.policy, fun j b a hm hne => ?_, hc.source hI.source⟩
    simp only [commit_log, List.mem_cons, Prod.mk.injEq, Event.committed.injEq] at hm
    rcases hm with ⟨rfl, rfl, rfl⟩ | hm
    · cases hc with
      | same => exact absurd rfl hne
      | @write ref c v row a t hex hw =>
        exact Or.inr ⟨ref, c, row, hex, by simp [hw.tables], hw.fingerprint⟩
      | redact row hcall _ => exact Or.inl ⟨_, hcall⟩
    · exact hold j b a hm hne

theorem Inv.initial : Inv d policies calls World.initial :=
  ⟨fun _ => ⟨rfl, rfl⟩, fun _ _ => rfl, by simp [World.initial], by simp [World.initial, Tables.empty]⟩

/-! ## 呼び出しごとの安全性 -/

section Safe

variable {α : Type} {A : Oracle → World → Prop} {Q : α → World → Prop}

abbrev CallSafe (d : Definition ρ) (policies : Nat → ExecutionPolicy) (calls : Nat → Call) (i : Nat)
    (A : Oracle → World → Prop) (Q : α → World → Prop) (x : Proc Oracle World α) (w : World) : Prop :=
  Proc.Safe (Inv d policies calls) Keeps (Effect d policies (calls i) i) A Q x w

theorem transact_effect (policies ref) {body} (h : ∀ a t, body o w.tables = .ok (a, t) → Change d (calls i) w t ∧ Q a (w.commit i t)) :
    Effect d policies (calls i) i w (transact i ref body o w).2 ∧
      Proc.Post Q (fun _ _ => True) (transact i ref body o w).1 (transact i ref body o w).2 := by
  rcases transact_cases i ref body o w with ⟨hw, e, he⟩ | ⟨a, t, hb, hw, hres⟩
  · rw [hw, he]
    exact ⟨.idle, trivial⟩
  · obtain ⟨hc, hq⟩ := h a t hb
    rw [hw]
    refine ⟨.commit t hc, ?_⟩
    rcases hres with hres | ⟨e, hres⟩
    · rw [hres]
      exact hq
    · rw [hres]
      trivial

theorem transaction_safe {body : Session α} (h : ∀ w o a t, body o w.tables = .ok (a, t) → Change d (calls i) w t) :
    CallSafe d policies calls i A (Proc.Post (fun _ _ => True) (fun _ _ => True)) (transaction i ref body).run w := by
  refine Proc.Safe.atomic fun w' hi hr o _ => ?_
  obtain ⟨he, -⟩ := transact_effect policies ref (Q := fun _ _ => True)
    (fun a t hb => ⟨h w' o a t hb, trivial⟩)
  refine ⟨he.inv hi, he, fun w'' _ _ => ?_⟩
  cases (transact i ref body o w').1 <;> trivial

theorem bind_safe {β : Type} {x} {f : α → Task β}
    (h : CallSafe d policies calls i A (Proc.Post (fun _ _ => True) (fun _ _ => True)) x.run w)
    (hf : ∀ a w', CallSafe d policies calls i A (Proc.Post (fun _ _ => True) (fun _ _ => True)) (f a).run w') :
    CallSafe d policies calls i A (Proc.Post (fun _ _ => True) (fun _ _ => True)) (x >>= f).run w :=
  Proc.Safe.exceptBind Keeps.refl (fun _ _ _ _ _ _ => trivial) h (fun a w' _ _ => hf a w')

variable {key : String}

theorem prepareTask_safe : CallSafe d policies calls i A
      (fun r _ => ∀ q, r = .ok q → q.Valid d ∧ reference d identity key = .ok q.reference ∧
        decodeInput d value = some (q.input, q.canonical)) (prepareTask d identity key value).run w :=
  Proc.Safe.atomic fun _ hi _ _ _ => ⟨hi, .idle, fun _ _ _ _ hq => prepare_ok hq⟩

theorem ofTask_safe {x : Task (Option (DurableCommandReceipt ρ))}
    (h : CallSafe d policies calls i A (Proc.Post (fun _ _ => True) (fun _ _ => True)) x.run w) :
    CallSafe d policies calls i A (fun _ _ => True) (ofTask x) w :=
  Proc.Safe.bind Keeps.refl h fun _ _ _ _ => Proc.Safe.ret fun _ _ _ => trivial

theorem lookupBody_safe : CallSafe d policies calls i A (Proc.Post (fun _ _ => True) (fun _ _ => True)) (transaction i q.reference (do
        lockRequest d q none
        find d q .transactional)).run w :=
  transaction_safe fun w o a t hb => by
    simp only [bind_ok] at hb
    obtain ⟨_, t₁, hl, hf⟩ := hb
    cases lockRequest_ok hl
    rw [(find_ok hf).1]
    exact .same

theorem lookup_safe : CallSafe d policies calls i A (fun _ _ => True) (ofTask (lookup d i identity key value)) w :=
  ofTask_safe (bind_safe (prepareTask_safe.mono fun r _ _ _ => by cases r <;> trivial) fun _ _ => lookupBody_safe)

theorem lookupByReference_safe : CallSafe d policies calls i A (fun _ _ => True) (ofTask (lookupByReference d i identity key)) w := by
  refine ofTask_safe (bind_safe ?_ fun r w' => ?_)
  · unfold restoreTask
    split
    · exact Proc.Safe.exceptThrow fun _ _ _ => trivial
    · refine transaction_safe fun w o a t hb => ?_
      rw [(restore_ok hb).1]
      exact .same
  · cases r with
    | none => exact Proc.Safe.exceptPure fun _ _ _ => trivial
    | some q => exact lookupBody_safe

theorem redactCompleted_safe {r} (hcall : calls i = .redactCompleted r) : CallSafe d policies calls i A (fun _ _ => True) (@ofTask ρ (do
      transaction i r (redact r)
      return none)) w := by
  refine ofTask_safe (bind_safe (transaction_safe fun w o u t hb => ?_)
    fun _ _ => Proc.Safe.exceptPure fun _ _ _ => trivial)
  simp only [redact, bind_ok, oracle_ok, Prod.mk.injEq] at hb
  obtain ⟨o', t₁, ⟨rfl, rfl⟩, hb⟩ := hb
  split at hb
  · rcases updateWhere_ok hb with ⟨rfl, -⟩ | ⟨row, hrow, -, rfl⟩
    · exact .same
    · exact .redact row hcall hrow
  · simp only [pure_ok, Prod.mk.injEq] at hb
    rw [hb.2]
    exact .same

/-! ## 実行 -/

def Returned (d : Definition ρ) (ref : OperationReference) (c : CommandJson) (r : DurableCommandReceipt ρ)
    (w : World) : Prop :=
  ∃ row, w.tables.rows ref = some row ∧ row.inputFingerprint = d.digest c ∧ Stores d ref row r

theorem Returned.keeps (hk : Keeps w w') (h : Returned d ref c r w) : Returned d ref c r w' := by
  obtain ⟨row, hrow, hfp, hs⟩ := h
  obtain ⟨p, hp⟩ := hk ref row hrow
  exact ⟨_, hp, hfp, hs⟩

theorem policyFrame (n) : PolicyFrame (commandPolicy (policies n)) n (Inv d policies calls) Keeps (Effect d policies (calls i) i) where
  refl := Keeps.refl
  idle := fun _ _ => .idle
  closed := fun _ hi hc => hi.policy n hc
  set := fun w s hi hs => by
    have he : Effect d policies (calls i) i w (w.setPolicy n s) := .policy n s hs
    exact ⟨he.inv hi, he, he.keeps⟩

theorem executeBody_change (hq : q.Valid d) (hcall : (calls i).Executes d q.reference q.canonical)
    (h : executeBody d q aborted o w.tables = .ok (r, t)) :
    Change d (calls i) w t ∧ Returned d q.reference q.canonical r (w.commit i t) := by
  rcases executeBody_ok h with ⟨rfl, row, hrow, hfp, hs⟩ | ⟨v, row, a, hw, hs⟩
  · exact ⟨.same, row, hrow, by rw [hfp, hq.fingerprint], hs⟩
  · rw [hq.fingerprint] at hw
    exact ⟨.write v row a t hcall hw, row, by simp [hw.tables], hw.fingerprint, hs⟩

theorem runAttempt_safe {s} (hq : q.Valid d) (hcall : (calls i).Executes d q.reference q.canonical) : CallSafe d policies calls i A
      (fun r w => RunPost (Returned d q.reference q.canonical) (fun _ _ => True) True r w ∧ True) (runAttempt d i q s) w := by
  refine Proc.Safe.atomic fun w' hi hr o _ => ?_
  obtain ⟨he, hp⟩ := transact_effect policies q.reference
    (Q := Returned d q.reference q.canonical) (fun a t hb => executeBody_change hq hcall hb)
  refine ⟨he.inv hi, he, fun w'' _ h'' => ⟨⟨fun _ => trivial, ?_⟩, trivial⟩⟩
  simp only
  cases hres : (transact i q.reference (executeBody d q s.aborted) o w').1 with
  | error e => trivial
  | ok r =>
    rw [hres] at hp
    exact Returned.keeps h'' hp

def ResultOk (d : Definition ρ) (calls : Nat → Call) (i : Nat) (r : Outcome ρ) (w : World) : Prop :=
  ∀ x, r = .ok x → ∀ ref c, (calls i).Executes d ref c → ∃ receipt, x = some receipt ∧ Returned d ref c receipt w

theorem execute_safe {n identity key value} (hcall : calls i = .execute n identity key value) : CallSafe d policies calls i A
      (ResultOk d calls i) (execute d i (commandPolicy (policies n)) n identity key value) w := by
  refine Proc.Safe.bind Keeps.refl prepareTask_safe fun r w₁ hi₁ hr => ?_
  cases r with
  | error code => exact Proc.Safe.ret fun _ _ _ x h => by cases h
  | ok q =>
    obtain ⟨hq, href, hdec⟩ := hr q rfl
    have hex : (calls i).Executes d q.reference q.canonical :=
      ⟨n, identity, key, value, q.input, hcall, href, hdec⟩
    refine Proc.Safe.bind Keeps.refl
      (ExecutionPolicy.execute_safe (Q := Returned d q.reference q.canonical) (E := fun _ _ => True) (C := True)
        (P := fun _ => True) (fun _ _ _ _ hk h => h.keeps hk) (fun _ _ _ _ _ _ => trivial)
        (fun _ _ _ _ _ => trivial) (fun s w _ _ _ => runAttempt_safe hq hex) (fun _ _ _ => Keeps.trans)
        (policyFrame n) ⟨fun _ _ _ _ => trivial, fun _ _ _ _ _ => trivial, fun _ _ _ _ _ => trivial⟩ trivial)
      fun r w₂ _ hr₂ => ?_
    cases r with
    | error e => exact Proc.Safe.ret fun _ _ _ x h => by cases h
    | ok receipt =>
      refine Proc.Safe.ret fun w₃ _ hk x h ref c ⟨n', identity', key', value', input', hc', hre', hde'⟩ => ?_
      cases h
      rw [hcall] at hc'
      cases hc'
      rw [href] at hre'
      rw [hdec] at hde'
      cases hre'
      cases hde'
      exact ⟨receipt, rfl, Returned.keeps hk hr₂⟩

theorem Call.safe (i) : CallSafe d policies calls i A (ResultOk d calls i) ((calls i).proc d policies i) w := by
  have hot : (∀ ref c, ¬(calls i).Executes d ref c) → CallSafe d policies calls i A (fun _ _ => True) ((calls i).proc d policies i) w →
      CallSafe d policies calls i A (ResultOk d calls i) ((calls i).proc d policies i) w :=
    fun hno h => h.mono fun _ _ _ _ _ _ ref c hex => absurd hex (hno ref c)
  cases hc : calls i with
  | execute n identity key value => exact execute_safe hc
  | lookup identity key value =>
    rw [hc] at hot
    exact hot (by rintro ref c ⟨_, _, _, _, _, h, -⟩; cases h) lookup_safe
  | lookupByReference identity key =>
    rw [hc] at hot
    exact hot (by rintro ref c ⟨_, _, _, _, _, h, -⟩; cases h) lookupByReference_safe
  | redactCompleted r =>
    rw [hc] at hot
    exact hot (by rintro ref c ⟨_, _, _, _, _, h, -⟩; cases h) (redactCompleted_safe hc)

end Safe

/-! ## 異なる入力での実行 -/

/-- 妨げのない応答。取り消し、拒否、保存先の失敗、判定の例外がない。 -/
structure Clean (o : Oracle) : Prop where
  commit : o.commit = .done
  lock : o.lock = none
  authorization : o.authorization = .allow
  encoded : o.encoded ≠ none
  signal : (({} : Signal).after o).aborted = false
  classified : o.classified ≠ none
  isFailure : o.isFailure ≠ none

def Conflicting (ref : OperationReference) (fingerprint : String) (w : World) : Prop :=
  ∃ row, w.tables.rows ref = some row ∧ row.inputFingerprint ≠ fingerprint

theorem Conflicting.keeps {fp} (hk : Keeps w w') (h : Conflicting ref fp w) : Conflicting ref fp w' := by
  obtain ⟨row, hrow, hne⟩ := h
  obtain ⟨p, hp⟩ := hk ref row hrow
  exact ⟨_, hp, hne⟩

theorem find_conflict (hid : q.reference.Identified) (ht : TablesOk t q.reference) (hrow : t.rows q.reference = some row)
    (hne : row.inputFingerprint ≠ q.fingerprint) : find d q .transactional o t = .error (.command .COMMAND_IDEMPOTENCY_CONFLICT) := by
  unfold TablesOk at ht
  rw [hrow] at ht
  obtain ⟨⟨raw, hsta⟩, -⟩ := ht
  have hre : ∃ stored, read q.reference o t = .ok (some stored, t) ∧ stored.inputFingerprint = row.inputFingerprint := by
    refine ⟨{ receipt := { reference := q.reference, dispatchKey := row.dispatchKey, state := .confirmed .complete raw }
              kind := row.kind, inputFingerprint := row.inputFingerprint, inputPayload := row.inputPayload }, ?_, rfl⟩
    simp only [read, bind_ok, getTables_ok, Prod.mk.injEq]
    refine ⟨(), t, keys_identified hid, t, t, ⟨rfl, rfl⟩, ?_⟩
    simp only [hrow, bind_ok, orThrow_ok, pure_ok, Prod.mk.injEq, Option.some.injEq]
    exact ⟨_, t, ⟨by rw [decodeStored, hsta]; rfl, rfl⟩, rfl, rfl⟩
  obtain ⟨stored, hre, hfp⟩ := hre
  unfold find
  rw [bind_of_ok hre]
  simp [hfp, hne, throwCode, Session.throw]

/-- 受領証がなければ、業務データも受領証も監査の行も書ける応答。 -/
structure Works (d : Definition ρ) (input : JsValue) (o : Oracle) : Prop where
  executed : ∃ v raw res details, o.executed = .ok v ∧ canonicalCommandJson v = some raw ∧ d.result raw.toValue = some res ∧
    canonicalCommandJson (d.auditDetails input res) = some details
  auditWrite : o.auditWrite = none
  dispatchKey : commandIdentifier (d.submission.getD o.uuid) ≠ none

theorem Clean.before (h : Clean o) : o.abortedBeforeLock = false ∧ o.abortedBeforeInsert = false ∧ o.abortedBeforeReturn = false := by
  have := h.signal
  simp only [Signal.after, Bool.or_eq_false_iff] at this
  tauto

theorem executeBody_find (ho : Clean o) (hid : q.reference.Identified) :
    executeBody d q false o t =
      match find d q .transactional o t with
      | .error e => .error e
      | .ok (some existing, t') => .ok (existing, t')
      | .ok (none, t') => executeFresh d q false o t' := by
  have hlo : lockRequest d q none o t = .ok ((), t) := by
    simp only [lockRequest, bind_ok]
    refine ⟨(), t, ?_, ?_⟩
    · simp only [lock, bind_ok, oracle_ok, mayThrow_ok, Prod.mk.injEq]
      exact ⟨(), t, keys_identified hid, o, t, ⟨rfl, rfl⟩, ho.lock, rfl⟩
    · simp only [authorize, checkAuthorization, bind_ok, oracle_ok, Prod.mk.injEq]
      exact ⟨o, t, ⟨rfl, rfl⟩, by simp [ho.authorization]⟩
  have hor : oracle o t = .ok (o, t) := rfl
  have hpu : (pure () : Session Unit) o t = .ok ((), t) := rfl
  unfold executeBody
  rw [bind_of_ok hor]
  simp only [ho.before.1, Bool.or_self, abortWhen, Bool.false_eq_true, ↓reduceIte]
  rw [bind_of_ok hpu, bind_of_ok hlo]
  rcases hfi : find d q .transactional o t with e | ⟨_ | existing, t'⟩ <;> simp [bind, hfi, pure]

theorem executeBody_conflict (ho : Clean o) (hid : q.reference.Identified) (ht : TablesOk t q.reference)
    (hrow : t.rows q.reference = some row) (hne : row.inputFingerprint ≠ q.fingerprint) :
    executeBody d q false o t = .error (.command .COMMAND_IDEMPOTENCY_CONFLICT) := by
  rw [executeBody_find ho hid, find_conflict hid ht hrow hne]

theorem find_written (row : Row) {raw res} (hid : q.reference.Identified) (hk : row.kind = .transactional) (hfp : row.inputFingerprint = q.fingerprint)
    (hst : row.state = some (.confirmed .complete raw)) (hres : d.result raw.toValue = some res)
    (hdk : commandIdentifier row.dispatchKey ≠ none) (hrow : t.rows q.reference = some row) :
    ∃ receipt, find d q .transactional o t = .ok (some receipt, t) := by
  obtain ⟨key, hkey⟩ := Option.ne_none_iff_exists'.mp hdk
  refine ⟨{ reference := q.reference, dispatchKey := key, state := .confirmed .complete res }, ?_⟩
  simp only [find, read, bind_ok, getTables_ok, Prod.mk.injEq]
  refine ⟨some { receipt := { reference := q.reference, dispatchKey := row.dispatchKey, state := .confirmed .complete raw }
                 kind := row.kind, inputFingerprint := row.inputFingerprint, inputPayload := row.inputPayload }, t,
    ⟨(), t, keys_identified hid, t, t, ⟨rfl, rfl⟩, ?_⟩, ?_⟩
  · simp only [hrow, bind_ok, orThrow_ok, pure_ok, Prod.mk.injEq, Option.some.injEq]
    exact ⟨_, t, ⟨by rw [decodeStored, hst]; rfl, rfl⟩, rfl, rfl⟩
  · simp [hk, hfp, decodeDurableCommandReceipt, decodeCommandIdentity, hid.tenantId, hid.actorId, hid.command, hid.operationId, hkey, hres]

theorem executeFresh_works (ho : Clean o) (hw : Works d q.input o) (hid : q.reference.Identified) (ht : TablesOk t q.reference)
    (hn : t.rows q.reference = none) : ∃ r t', executeFresh d q false o t = .ok (r, t') := by
  obtain ⟨v, raw, res, details, hv, hraw, hres, hdet⟩ := hw.executed
  obtain ⟨hb₁, hb₂, hb₃⟩ := ho.before
  have haud : t.audits q.reference = [] := by
    unfold TablesOk at ht
    rw [hn] at ht
    exact ht.2
  let row : Row := { dispatchKey := d.submission.getD o.uuid, kind := .transactional, inputFingerprint := q.fingerprint
                     inputPayload := some q.payload, status := .confirmed, auditState := .complete, result := some raw }
  let t' := ((t.addEffect q.reference v).setRow q.reference row).addAudit q.reference { event := d.auditEvent, details }
  obtain ⟨receipt, hfi⟩ := find_written (d := d) (o := o) (t := t') row hid rfl rfl rfl hres hw.dispatchKey (by simp [t'])
  refine ⟨receipt, t', ?_⟩
  have hor : ∀ t, oracle o t = .ok (o, t) := fun _ => rfl
  have hpu : ∀ t, (pure () : Session Unit) o t = .ok ((), t) := fun _ => rfl
  have hdef : executeDefinition d q o t = .ok ((raw, res), t.addEffect q.reference v) := by
    simp only [executeDefinition, bind_ok, oracle_ok, Prod.mk.injEq]
    exact ⟨o, t, ⟨rfl, rfl⟩, by simp [hv, hraw, hres]⟩
  have hins : insertReceipt d q .transactional (some raw) o (t.addEffect q.reference v) =
      .ok ((), (t.addEffect q.reference v).setRow q.reference row) := by
    simp only [insertReceipt, insert, bind_ok, oracle_ok, getTables_ok, Prod.mk.injEq]
    refine ⟨o, _, ⟨rfl, rfl⟩, (), _, keys_identified hid, _, _, ⟨rfl, rfl⟩, ?_⟩
    simp [Row.ofStored, Row.checks, ReceiptState.audit, Tables.addEffect, hn, row]
  have hau : audit d q res o ((t.addEffect q.reference v).setRow q.reference row) = .ok ((), t') := by
    simp only [audit, auditInsert, bind_ok, orThrow_ok, oracle_ok, mayThrow_ok, getTables_ok, Prod.mk.injEq]
    refine ⟨details, _, ⟨hdet, rfl⟩, o, _, ⟨rfl, rfl⟩, (), _, ⟨hw.auditWrite, rfl⟩, (), _, keys_identified hid, _, _, ⟨rfl, rfl⟩, ?_⟩
    simp [Tables.addEffect, haud, Tables.setRow, t']
  unfold executeFresh
  rw [bind_of_ok (hor _), bind_of_ok hdef]
  simp only [hb₁, hb₂, hb₃, Bool.or_self, abortWhen, Bool.false_eq_true, ↓reduceIte]
  rw [bind_of_ok (hpu _), bind_of_ok hins, bind_of_ok hau, bind_of_ok (hpu _), bind_of_ok hfi]
  rfl

/-- 呼び出しの実行を妨げない応答。受領証がなければ、その入力での書き込みが成り立つ。 -/
def Call.Succeeds (d : Definition ρ) (call : Call) (o : Oracle) : Prop :=
  Clean o ∧ ∀ n identity key value input c, call = .execute n identity key value → decodeInput d value = some (input, c) → Works d input o

/-- 受領証がないうちは書き込みが成り立ち、別の入力の受領証があれば衝突する応答。 -/
def Proceeds (d : Definition ρ) (ref : OperationReference) (c : CommandJson) (input : JsValue) (o : Oracle) (w : World) : Prop :=
  Clean o ∧ (Conflicting ref (d.digest c) w ∨ Works d input o)

def Same (ref : OperationReference) (fingerprint : String) (w : World) : Prop :=
  ∃ row, w.tables.rows ref = some row ∧ row.inputFingerprint = fingerprint

theorem Same.keeps {fp} (hk : Keeps w w') (h : Same ref fp w) : Same ref fp w' := by
  obtain ⟨row, hrow, hfp⟩ := h
  obtain ⟨p, hp⟩ := hk ref row hrow
  exact ⟨_, hp, hfp⟩

theorem transact_proceeds (hq : q.Valid d) (hi : Inv d policies calls w) (ho : Proceeds d q.reference q.canonical q.input o w) {e}
    (h : (transact i q.reference (executeBody d q false) o w).1 = .error e) :
    e = .COMMAND_IDEMPOTENCY_CONFLICT ∨ Same q.reference (d.digest q.canonical) w := by
  obtain ⟨hcl, hpr⟩ := ho
  have hid := reference_identified hq.reference
  have ht := hi.tables q.reference
  cases hrow : w.tables.rows q.reference with
  | some row =>
    by_cases hfp : row.inputFingerprint = d.digest q.canonical
    · exact Or.inr ⟨row, hrow, hfp⟩
    · rw [← hq.fingerprint] at hfp
      simp only [transact, hcl.commit, executeBody_conflict hcl hid ht hrow hfp] at h
      cases h
      exact Or.inl rfl
  | none =>
    have hw : Works d q.input o := hpr.resolve_left fun ⟨row, hrow', _⟩ => by rw [hrow] at hrow'; cases hrow'
    obtain ⟨r, t', hfr⟩ := executeFresh_works hcl hw hid ht hrow
    have hfi : find d q .transactional o w.tables = .ok (none, w.tables) := by
      simp only [find, read, bind_ok, getTables_ok, Prod.mk.injEq]
      refine ⟨none, _, ⟨(), _, keys_identified hid, _, _, ⟨rfl, rfl⟩, ?_⟩, rfl⟩
      simp [hrow]
    have hbo : executeBody d q false o w.tables = .ok (r, t') := by
      rw [executeBody_find hcl hid, hfi]
      exact hfr
    obtain ⟨v, row, a, hwr, -⟩ := executeFresh_ok hfr
    obtain ⟨raw, hst⟩ := hwr.state
    have hre : t'.rejectionAudited q.reference = true := by
      simp [Tables.rejectionAudited, hwr.tables, (Row.state_confirmed hst).1]
    simp [transact, hcl.commit, hbo, hre] at h

theorem runAttempt_proceeds {s : Signal} (hq : q.Valid d) (hex : (calls i).Executes d q.reference q.canonical) (hs : s.aborted = false) :
    CallSafe d policies calls i (Proceeds d q.reference q.canonical q.input)
      (fun r w => RunPost (fun _ => Same q.reference (d.digest q.canonical))
        (fun e w => e = .command .COMMAND_IDEMPOTENCY_CONFLICT ∨ Same q.reference (d.digest q.canonical) w) False r w ∧ True)
      (runAttempt d i q s) w := by
  refine Proc.Safe.atomic fun w' hi hr o ho => ?_
  obtain ⟨he, hp⟩ := transact_effect policies q.reference (Q := Returned d q.reference q.canonical)
    (fun _ _ (hb : executeBody d q s.aborted o w'.tables = _) => executeBody_change hq hex hb)
  refine ⟨he.inv hi, he, fun w'' _ h'' => ⟨⟨fun hab => ?_, ?_⟩, trivial⟩⟩
  · rcases Signal.after_aborted hab with h | h
    · rw [hs] at h
      cases h
    · rw [ho.1.signal] at h
      cases h
  · simp only
    cases hres : (transact i q.reference (executeBody d q s.aborted) o w').1 with
    | error e =>
      rw [hs] at hres
      exact (transact_proceeds hq hi ho hres).imp (fun h => by rw [h]) fun h => (h.keeps he.keeps).keeps h''
    | ok r =>
      rw [hres] at hp
      obtain ⟨row, hrow, hfp, -⟩ := hp
      exact Same.keeps h'' ⟨row, hrow, hfp⟩

theorem execute_proceeds {n key input} (hcall : calls i = .execute n identity key value) (href : reference d identity key = .ok ref)
    (hdec : decodeInput d value = some (input, c)) : CallSafe d policies calls i (Proceeds d ref c input)
      (fun r w => (r = .error (.command .COMMAND_IDEMPOTENCY_CONFLICT) ∨
        ((policies n).circuit ≠ none ∧ r = .error (.command .COMMAND_UNAVAILABLE))) ∨ Same ref (d.digest c) w)
      (execute d i (commandPolicy (policies n)) n identity key value) w := by
  refine Proc.Safe.bind Keeps.refl (Q := fun r _ => ∃ q : Prepared, r = .ok q ∧ q.Valid d ∧ q.reference = ref ∧ q.input = input ∧
      q.canonical = c) ?_ ?_
  · refine Proc.Safe.atomic fun w' hi hr o ho => ⟨hi, .idle, fun w'' _ _ => ?_⟩
    cases he : o.encoded with
    | none => exact absurd he ho.1.encoded
    | some payload =>
      have hpr : prepare d identity key value (some payload) =
          .ok { reference := ref, input, canonical := c, fingerprint := d.digest c, payload } := by
        simp only [prepare, href, hdec, bind, Except.bind]
      exact ⟨_, hpr, (prepare_ok hpr).1, rfl, rfl, rfl⟩
  · rintro r w₁ - ⟨q, rfl, hq, rfl, rfl, rfl⟩
    have hex : (calls i).Executes d q.reference q.canonical := ⟨n, identity, key, value, q.input, hcall, href, hdec⟩
    refine Proc.Safe.bind Keeps.refl
      (ExecutionPolicy.execute_safe (Q := fun _ => Same q.reference (d.digest q.canonical))
        (E := fun e w => e = .command .COMMAND_IDEMPOTENCY_CONFLICT ∨ Same q.reference (d.digest q.canonical) w) (C := False)
        (P := fun _ => True) (fun _ _ _ _ hk h => h.keeps hk) (fun _ _ _ _ hk h => h.imp_right (·.keeps hk))
        (fun _ _ _ _ _ => trivial) (fun s w hs _ _ => runAttempt_proceeds hq hex hs)
        (fun _ _ _ => Keeps.trans) (policyFrame n)
        ⟨fun o _ ho h => absurd h (by rw [ho.1.signal]; decide), fun o _ ho h => absurd h ho.1.classified,
          fun o _ ho h => absurd h ho.1.isFailure⟩ trivial) fun r w₂ _ hr₂ => ?_
    cases r with
    | ok receipt => exact Proc.Safe.ret fun _ _ hk => Or.inr (hr₂.keeps hk)
    | error e =>
      refine Proc.Safe.ret fun _ _ hk => ?_
      cases e with
      | thrown e => exact hr₂.imp (fun h => Or.inl (by rw [policyThrown, h])) (·.keeps hk)
      | policy code =>
        cases code with
        | CIRCUIT_OPEN => exact Or.inl (Or.inr ⟨hr₂, rfl⟩)
        | _ => exact hr₂.elim

/-! ## 走行 -/

abbrev AllCallsSafe (d : Definition ρ) (policies : Nat → ExecutionPolicy) (calls : Nat → Call)
    (A : Nat → Oracle → World → Prop) (Q : Nat → Outcome ρ → World → Prop) (c : Config Nat Oracle World (Outcome ρ)) : Prop :=
  Config.AllSafe (Inv d policies calls) (fun _ => Keeps) (fun i => Effect d policies (calls i) i) A Q c

theorem AllCallsSafe.run {A Q c} (h : AllCallsSafe d policies calls A Q c) (sched)
    (hA : ∀ x ∈ sched, ∀ w, A x.1 x.2 w) : AllCallsSafe d policies calls A Q (c.run sched) :=
  Config.AllSafe.run (fun _ => Keeps.refl) (fun _ _ _ _ => Keeps.trans) (fun _ _ _ _ _ h => h.keeps) h sched hA

theorem start_safe (sched) : AllCallsSafe d policies calls (fun _ _ _ => True) (ResultOk d calls) ((start d policies calls).run sched) :=
  AllCallsSafe.run ⟨Inv.initial, fun i => Call.safe i⟩ sched (fun _ _ _ => trivial)

end Supacloud.Commands.Transactional
