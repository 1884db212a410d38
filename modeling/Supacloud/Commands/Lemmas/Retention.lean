import Mathlib.Data.List.Induction
import Supacloud.Commands.Lemmas.Protocol

/-! # 入力の保存の期限と回復 -/

namespace Supacloud.Commands

open Contracts Library Session List

variable {ρ : Type} {d : Definition ρ} {i j : Nat} {o : Oracle} {t t' : Tables} {w w' : World}
  {ref : OperationReference} {asked : Bool} {conf : Option CommandJson} {e : Thrown} {n : Nat} {row : Row}

/-! ## 読める行 -/

structure Row.Good (d : Definition ρ) (row : Row) : Prop where
  kind : row.kind = .external
  state : ∃ st, row.state = some st
  result : ∀ raw, row.result = some raw → ∃ r, d.result raw.toValue = some r
  identified : commandIdentifier row.dispatchKey = some row.dispatchKey
  payload : row.inputPayload = none → row.auditState = .complete

def GoodRows (d : Definition ρ) (w : World) : Prop := ∀ ref row, w.tables.rows ref = some row → row.Good d

theorem Row.Good.of_open (h : row.Good d) (ho : isOpen row = true) : row.auditState = .pending ∧ row.result = none := by
  obtain ⟨st, hst⟩ := h.state
  simp only [isOpen, Bool.or_eq_true, beq_iff_eq] at ho
  unfold Row.state at hst
  split at hst <;> simp_all

theorem Row.Good.of_confirmed (h : row.Good d) (hc : row.status = .confirmed) : ∃ raw, row.result = some raw := by
  obtain ⟨st, hst⟩ := h.state
  unfold Row.state at hst
  split at hst <;> simp_all

theorem Row.Fresh.good (h : row.Fresh) : row.Good d := by
  refine ⟨h.kind, ⟨.pending, by simp [Row.state, h.status, h.auditState, h.result]⟩, by simp [h.result], h.identified, ?_⟩
  exact fun hp => absurd hp h.payload

theorem Change.good (h : Change d i w t) (hg : GoodRows d w) (ref) : (∀ row, t.rows ref = some row → row.Good d) ∧
      ∀ row, w.tables.rows ref = some row → ∃ row', t.rows ref = some row' ∧ row'.inputFingerprint = row.inputFingerprint := by
  -- 操作 r の行 row を、良い形の new に取り替えた表。
  have hset : ∀ {t₀ : Tables} {r row new}, t₀.rows = w.tables.rows → w.tables.rows r = some row →
      new.Good d → new.inputFingerprint = row.inputFingerprint →
      (∀ x, (t₀.setRow r new).rows ref = some x → x.Good d) ∧
        ∀ x, w.tables.rows ref = some x → ∃ x', (t₀.setRow r new).rows ref = some x' ∧ x'.inputFingerprint = x.inputFingerprint := by
    intro t₀ r row new ht₀ hrow hnew hfp
    rw [setRow_rows, ht₀]
    by_cases he : ref = r
    · subst he
      simp [hrow, hnew, hfp]
    · simp only [he, ↓reduceIte]
      exact ⟨hg ref, fun x hx => ⟨x, hx, rfl⟩⟩
  cases h with
  | same => exact ⟨hg ref, fun row hrow => ⟨row, hrow, rfl⟩⟩
  | @insert r new hnn hfr _ =>
    rw [setRow_rows]
    by_cases he : ref = r
    · subst he
      simp [hnn, hfr.good]
    · simp only [he, ↓reduceIte]
      exact ⟨hg ref, fun x hx => ⟨x, hx, rfl⟩⟩
  | @unknown r row hrow hop =>
    have hgo := hg r row hrow
    obtain ⟨ha, hres⟩ := hgo.of_open hop
    exact hset rfl hrow ⟨hgo.kind, ⟨.unknown, by simp [Row.state, ha, hres]⟩, hgo.result, hgo.identified, hgo.payload⟩ rfl
  | @confirm r row raw hrow hop hraw =>
    have hgo := hg r row hrow
    obtain ⟨ha, -⟩ := hgo.of_open hop
    refine hset rfl hrow ⟨hgo.kind, ⟨.confirmed .pending raw, by simp [Row.state, ha]⟩, ?_, hgo.identified, hgo.payload⟩ rfl
    intro raw' hra'
    cases hra'
    obtain ⟨_, _, _, result, -, -, hrs, -⟩ := hraw
    exact ⟨result, hrs⟩
  | @flush r row a hrow hsts hau hem =>
    have hgo := hg r row hrow
    obtain ⟨raw, hraw⟩ := hgo.of_confirmed hsts
    exact hset rfl hrow ⟨hgo.kind, ⟨.confirmed .complete raw, by simp [Row.state, hsts, hraw]⟩, hgo.result,
      hgo.identified, fun _ => rfl⟩ rfl
  | @reject r row a hrow hop hem =>
    have hgo := hg r row hrow
    obtain ⟨-, hres⟩ := hgo.of_open hop
    exact hset rfl hrow ⟨hgo.kind, ⟨.rejected, by simp [Row.state, hres]⟩, hgo.result, hgo.identified, fun _ => rfl⟩ rfl
  | @redact r row hrow hau =>
    have hgo := hg r row hrow
    exact hset rfl hrow ⟨hgo.kind, hgo.state, hgo.result, hgo.identified, fun _ => hau⟩ rfl

structure Exists (d : Definition ρ) (ref : OperationReference) (fp : String) (w : World) : Prop where
  inv : ExternalInv w
  good : GoodRows d w
  row : ∃ row, w.tables.rows ref = some row ∧ row.inputFingerprint = fp

theorem Effect.good (h : Effect d i w w') (hg : GoodRows d w) : GoodRows d w' := by
  cases h with
  | idle | lookup ref value | send ref key _ _ => exact hg
  | commit t hc => exact fun ref => (hc.good hg ref).1

theorem Effect.exists {fp} (h : Effect d i w w') (he : Exists d ref fp w) : Exists d ref fp w' := by
  refine ⟨h.inv he.inv, h.good he.good, ?_⟩
  obtain ⟨row, hrow, hfp⟩ := he.row
  cases h with
  | idle | lookup ref value | send ref key _ _ => exact ⟨row, hrow, hfp⟩
  | commit t hc =>
    obtain ⟨row', hro', hfp'⟩ := (hc.good he.good ref).2 row hrow
    exact ⟨row', hro', hfp'.trans hfp⟩

/-! ## 失敗の符号 -/

structure Oracle.Plain (o : Oracle) : Prop where
  commit : ∀ e, o.commit = .lostBefore e ∨ o.commit = .lostAfter e → e ≠ .command .COMMAND_INPUT_EXPIRED
  lock : o.lock ≠ some (.command .COMMAND_INPUT_EXPIRED)
  auditWrite : o.auditWrite ≠ some (.command .COMMAND_INPUT_EXPIRED)

/-- 保存先も符号化も働き、主体は認められ、復号は指紋 fp の入力を返す。 -/
structure Oracle.Serves (d : Definition ρ) (fp : String) (o : Oracle) : Prop where
  commit : o.commit = .done
  lock : o.lock = none
  authorization : o.authorization = .allow
  auditWrite : o.auditWrite = none
  encoded : o.encoded ≠ none
  decoded : ∃ json input canonical, o.decoded = some json ∧ decodeInput d json = some (input, canonical) ∧ d.digest canonical = fp

theorem Oracle.Serves.plain {fp} (h : o.Serves d fp) : o.Plain := by
  constructor <;> simp [h.commit, h.lock, h.auditWrite]

def Stable (d : Definition ρ) : Prop :=
  ∀ value input canonical, decodeInput d value = some (input, canonical) → ∃ again, decodeInput d input = some (again, canonical)

structure Caller (d : Definition ρ) (subject : String) (ref : OperationReference) (b : Prop) : Prop where
  reference : reference d ref.toCommandIdentity ref.operationId = .ok ref
  authorized : b → d.hasAuthorizeRecovery = true ∧ commandIdentifier subject = some subject
  stable : b → Stable d

structure Oracle.Fit (d : Definition ρ) (fp : String) (b : Prop) (o : Oracle) : Prop where
  plain : o.Plain
  serves : b → o.Serves d fp

def Tolerable (b : Prop) (e : Thrown) : Prop := e ≠ .command .COMMAND_INPUT_EXPIRED ∧ ¬ b

def Session.Fails {α : Type} (P : Thrown → Prop) (m : Session α) (o : Oracle) (t : Tables) : Prop := ∀ e, m o t = .error e → P e

section Fails

variable {α β : Type} {P : Thrown → Prop} {m : Session α} {f : α → Session β}

theorem fails_bind (hm : m.Fails P o t) (hf : ∀ a t', m o t = .ok (a, t') → (f a).Fails P o t') : (m >>= f).Fails P o t := by
  intro e he
  simp only [bind] at he
  cases hr : m o t with
  | error e' =>
    rw [hr] at he
    cases he
    exact hm e hr
  | ok r =>
    rw [hr] at he
    exact hf r.1 r.2 hr e he

theorem fails_of_ok {r} (h : m o t = .ok r) : m.Fails P o t := by
  intro e he
  rw [h] at he
  cases he

theorem fails_then {a t'} (h : m o t = .ok (a, t')) (hf : (f a).Fails P o t') : (m >>= f).Fails P o t :=
  fails_bind (fails_of_ok h) fun _ _ hr => by
    cases h.symm.trans hr
    exact hf

theorem fails_pure {a} : (pure a : Session α).Fails P o t := fails_of_ok (pure_ok.mpr rfl)

theorem fails_throwCode {c} (h : P (.command c)) : (throwCode c : Session α).Fails P o t := by
  intro e he
  cases he
  exact h

theorem fails_mayThrow {x} (h : ∀ e, x = some e → P e) : (mayThrow x).Fails P o t := by
  cases x with
  | none => exact fails_pure
  | some e =>
    intro e' he
    cases he
    exact h e rfl

theorem fails_orThrow {x : Option α} (h : x = none → P e) : (orThrow e x).Fails P o t := by
  cases x with
  | some a => exact fails_pure
  | none =>
    intro e' he
    cases he
    exact h rfl

end Fails

variable {b : Prop} {fp subject : String} {q : Prepared}

theorem Caller.identified (h : Caller d subject ref b) : ref.Identified := reference_identified h.reference

theorem lock_fails (hc : Caller d subject ref b) (ho : o.Fit d fp b) : (lock ref).Fails (Tolerable b) o t := by
  refine fails_then (keys_identified hc.identified) ?_
  refine fails_then (oracle_ok.mpr rfl) (fails_mayThrow ?_)
  intro e he
  refine ⟨?_, fun hb => ?_⟩
  · rintro rfl
    exact ho.plain.lock he
  · simp [(ho.serves hb).lock] at he

theorem checkAuthorization_fails (ho : o.Fit d fp b) : checkAuthorization.Fails (Tolerable b) o t := by
  refine fails_then (oracle_ok.mpr rfl) ?_
  have hal : b → o.authorization = .allow := fun hb => (ho.serves hb).authorization
  cases ha : o.authorization with
  | allow => exact fails_pure
  | deny | malformed | threw =>
    exact fails_throwCode ⟨by simp, fun hb => by simp [hal hb] at ha⟩

theorem authorize_fails (hc : Caller d subject ref b) (ho : o.Fit d fp b) : (authorize d (some subject)).Fails (Tolerable b) o t := by
  refine fails_bind (fails_orThrow ?_) fun _ t' _ => ?_
  · intro hnn
    refine ⟨by simp, fun hb => ?_⟩
    rw [(hc.authorized hb).2] at hnn
    cases hnn
  · split
    next hno =>
      refine fails_throwCode ⟨by simp, fun hb => ?_⟩
      simp [(hc.authorized hb).1] at hno
    next => exact checkAuthorization_fails ho

theorem lockRequest_fails (hc : Caller d subject ref b) (ho : o.Fit d fp b) (hq : q.reference = ref) :
    (lockRequest d q (some subject)).Fails (Tolerable b) o t := by
  subst hq
  exact fails_bind (lock_fails hc ho) fun _ _ _ => authorize_fails hc ho

theorem decodeStored_good (hid : ref.Identified) (hg : row.Good d) : ∃ stored, decodeStored ref row = some stored ∧
    stored.inputFingerprint = row.inputFingerprint ∧ stored.kind = .external ∧ stored.inputPayload = row.inputPayload ∧
    (∃ st, row.state = some st ∧ stored.receipt.state = st) ∧
    ∃ receipt, decodeDurableCommandReceipt stored.receipt d.result = some receipt ∧ receipt.reference = ref := by
  obtain ⟨st, hst⟩ := hg.state
  refine ⟨_, by rw [decodeStored, hst]; rfl, rfl, hg.kind, rfl, ⟨st, hst, rfl⟩, ?_⟩
  have hre : ∃ receipt, decodeDurableCommandReceipt { reference := ref, dispatchKey := row.dispatchKey, state := st } d.result =
      some receipt := by
    refine decodeDurableCommandReceipt_some hid hg.identified fun audit raw hs => ?_
    simp only at hs
    rw [hs] at hst
    exact hg.result raw (Row.state_confirmed hst).2.2
  obtain ⟨receipt, hrec⟩ := hre
  exact ⟨receipt, hrec, (decodeDurableCommandReceipt_spec hrec).1⟩

theorem read_some {stored} (hid : ref.Identified) (hrow : t.rows ref = some row)
    (hsto : decodeStored ref row = some stored) : read ref o t = .ok (some stored, t) := by
  rw [read, bind_of_ok (keys_identified hid)]
  simp [getTables, hrow, bind, hsto, Session.orThrow, pure]

theorem find_good (hid : ref.Identified) (hq : q.reference = ref) (hrow : t.rows ref = some row) (hg : row.Good d) :
    (find d q .external).Fails (fun e => e = .command .COMMAND_IDEMPOTENCY_CONFLICT ∧ q.fingerprint ≠ row.inputFingerprint) o t := by
  subst hq
  obtain ⟨stored, hsto, hfp, hki, -, -, receipt, hrec, href⟩ := decodeStored_good hid hg
  have hre : read q.reference o t = .ok (some stored, t) := read_some hid hrow hsto
  refine fails_then hre ?_
  simp only [hrec, href, hki, not_true_eq_false, or_false, ne_eq, ↓reduceIte]
  split
  next hne => exact fails_throwCode ⟨rfl, fun h => hne (by rw [hfp, h])⟩
  next => exact fails_pure

/-! ## 本体の結果 -/

def Ordinary (e : Thrown) : Prop := e ≠ .command .COMMAND_INPUT_EXPIRED ∧ e ≠ .command .COMMAND_REJECTED

theorem keys_ordinary : (keys ref).Fails Ordinary o t := by
  repeat' refine fails_bind (fails_orThrow fun _ => ⟨by simp, by simp⟩) fun _ _ _ => ?_
  exact fails_pure

theorem read_ordinary : (read ref).Fails Ordinary o t := by
  refine fails_bind keys_ordinary fun _ t' _ => fails_then (getTables_ok.mpr rfl) ?_
  cases t'.rows ref with
  | none => exact fails_pure
  | some row => exact fails_bind (fails_orThrow fun _ => ⟨by simp, by simp⟩) fun _ _ _ => fails_pure

theorem find_ordinary : (find d q .external).Fails Ordinary o t := by
  refine fails_bind read_ordinary fun r t' _ => ?_
  cases r with
  | none => exact fails_pure
  | some stored =>
    simp only
    split
    next => exact fails_throwCode ⟨by simp, by simp⟩
    next =>
      split
      next => exact fails_throwCode ⟨by simp, by simp⟩
      next =>
        split
        next => exact fails_throwCode ⟨by simp, by simp⟩
        next => exact fails_pure

theorem updateWhere_ordinary {cond f} : (updateWhere ref cond f).Fails Ordinary o t := by
  refine fails_bind keys_ordinary fun _ t' _ => fails_then (getTables_ok.mpr rfl) ?_
  cases t'.rows ref with
  | none => exact fails_pure
  | some row =>
    simp only
    split
    next => exact fails_pure
    next =>
      split
      next => exact fun e he => by cases he; exact ⟨by simp, by simp⟩
      next => exact fails_of_ok (setTables_ok.mpr rfl)

theorem auditInsert_ordinary {event details} : (auditInsert ref event details).Fails Ordinary o t := by
  refine fails_bind keys_ordinary fun _ t' _ => fails_then (getTables_ok.mpr rfl) ?_
  split
  next => exact fun e he => by cases he; exact ⟨by simp, by simp⟩
  next => exact fails_of_ok (setTables_ok.mpr rfl)

def Flushing (b : Prop) (e : Thrown) : Prop := e ≠ .command .COMMAND_INPUT_EXPIRED ∧ (b → e ≠ .command .COMMAND_REJECTED)

theorem Session.Fails.mono {α : Type} {P P'} {m : Session α} (h : m.Fails P o t) (hP : ∀ e, P e → P' e) :
    m.Fails P' o t := fun e he => hP e (h e he)

theorem Tolerable.flushing (h : Tolerable b e) : Flushing b e := ⟨h.1, fun hb => absurd hb h.2⟩

theorem Ordinary.flushing (h : Ordinary e) : Flushing b e := ⟨h.1, fun _ => h.2⟩

theorem flushAuditBody_fails (hc : Caller d subject ref b) (ho : o.Fit d fp b) (hq : q.reference = ref) :
    (flushAuditBody d q (some subject)).Fails (Flushing b) o t := by
  refine fails_bind ((lockRequest_fails hc ho hq).mono fun _ => Tolerable.flushing) fun _ t₁ _ => ?_
  refine fails_bind (find_ordinary.mono fun _ => Ordinary.flushing) fun r t₂ _ => ?_
  cases r with
  | none => exact fails_pure
  | some receipt =>
    simp only
    split
    next result hs =>
      refine fails_bind ?_ fun _ t₃ _ => fails_bind (updateWhere_ordinary.mono fun _ => Ordinary.flushing) fun _ t₄ _ =>
        find_ordinary.mono fun _ => Ordinary.flushing
      refine fails_bind (fails_orThrow fun _ => ⟨by simp, by simp⟩) fun details t₃ _ => ?_
      refine fails_then (oracle_ok.mpr rfl) ?_
      refine fails_bind (fails_mayThrow fun e he => ⟨?_, fun hb => ?_⟩) fun _ t₅ _ =>
        auditInsert_ordinary.mono fun _ => Ordinary.flushing
      · rintro rfl
        exact ho.plain.auditWrite he
      · simp [(ho.serves hb).auditWrite] at he
    next => exact fails_pure

def Receipt (ref : OperationReference) (r : Option (DurableCommandReceipt ρ)) : Prop :=
  ∃ receipt, r = some receipt ∧ receipt.reference = ref

variable {r : Option (DurableCommandReceipt ρ)}

theorem find_receipt (hne : t.rows q.reference ≠ none) (h : find d q .external o t = .ok (r, t')) : Receipt q.reference r := by
  obtain ⟨-, ⟨hnn, -⟩ | ⟨row, receipt, -, rfl, hsh, -⟩⟩ := find_ok h
  · exact absurd hnn hne
  · exact ⟨receipt, rfl, hsh.reference⟩

theorem flushAuditBody_receipt {p} (hne : w.tables.rows q.reference ≠ none)
    (h : flushAuditBody d q p o w.tables = .ok (r, t')) : Receipt q.reference r := by
  have hne' := (flushAuditBody_change (i := 0) h).rows_ne_none hne
  simp only [flushAuditBody, bind_ok] at h
  obtain ⟨_, t₁, hl, receipt, t₂, hf, h⟩ := h
  cases lockRequest_ok hl
  obtain ⟨rc, rfl, hrc⟩ := find_receipt hne hf
  cases (find_ok hf).1
  have hsm : (pure (some rc) : Session (Option (DurableCommandReceipt ρ))) o w.tables = .ok (r, t') → Receipt q.reference r := by
    intro h
    simp only [pure_ok, Prod.mk.injEq] at h
    exact ⟨rc, h.1, hrc⟩
  cases hs : rc.state with
  | pending | unknown | rejected =>
    simp only [hs] at h
    exact hsm h
  | confirmed audit result =>
    cases audit with
    | complete =>
      simp only [hs] at h
      exact hsm h
    | pending =>
      simp only [hs, bind_ok] at h
      obtain ⟨_, t₃, -, _, t₄, -, hf'⟩ := h
      cases (find_ok hf').1
      exact find_receipt hne' hf'

theorem settleLookup_good (hid : q.reference.Identified)
    (hrow : t.rows q.reference = some row) (hg : row.Good d) (hop : isOpen row = true)
    (hco : ∀ raw, conf = some raw → ∃ r, d.result raw.toValue = some r) :
    ∃ t' new, settleLookup q conf asked o t = .ok ((), t') ∧ t'.rows q.reference = some new ∧ new.Good d ∧
      new.inputFingerprint = row.inputFingerprint ∧ new.status ≠ .rejected := by
  obtain ⟨ha, hres⟩ := hg.of_open hop
  have hsts : row.status = .pending ∨ row.status = .unknown := by simpa [isOpen] using hop
  have hki := hg.kind
  cases conf with
  | some raw =>
    refine ⟨t.setRow q.reference { row with status := .confirmed, result := some raw },
      { row with status := .confirmed, result := some raw }, ?_, by simp,
      ⟨hg.kind, ⟨.confirmed .pending raw, by simp [Row.state, ha]⟩, ?_, hg.identified, hg.payload⟩, rfl, by simp⟩
    · simp only [settleLookup, confirm, updateWhere, bind_of_ok (keys_identified hid)]
      rcases hsts with hs | hs <;>
        simp [bind, getTables, hrow, hop, Row.checks, Row.terminalGuard, ha, hki, hs]
    · intro raw' hra'
      cases hra'
      exact hco raw rfl
  | none =>
    cases asked with
    | true =>
      refine ⟨t.setRow q.reference { row with status := .unknown }, { row with status := .unknown }, ?_, by simp,
        ⟨hg.kind, ⟨.unknown, by simp [Row.state, ha, hres]⟩, hg.result, hg.identified, hg.payload⟩, rfl, by simp⟩
      simp only [settleLookup, ↓reduceIte, markUnknown, updateWhere, bind_of_ok (keys_identified hid)]
      rcases hsts with hs | hs <;>
        simp [bind, getTables, hrow, hop, Row.checks, Row.terminalGuard, ha, hki, hs, hres]
    | false =>
      refine ⟨t, row, rfl, hrow, hg, rfl, ?_⟩
      rcases hsts with hs | hs <;> simp [hs]

theorem reconcileBody_fails (hc : Caller d subject ref b)
    (ho : o.Fit d fp b) (hq : q.reference = ref) (hfp : b → q.fingerprint = row.inputFingerprint)
    (hrow : t.rows ref = some row) (hg : row.Good d) (hco : ∀ raw, conf = some raw → ∃ r, d.result raw.toValue = some r) :
    (reconcileBody d q (some subject) conf asked).Fails (Tolerable b) o t := by
  subst hq
  have hcn : ∀ {x : Row} {e}, x.inputFingerprint = row.inputFingerprint →
      e = .command .COMMAND_IDEMPOTENCY_CONFLICT ∧ q.fingerprint ≠ x.inputFingerprint → Tolerable b e := by
    rintro x e hx ⟨rfl, hne⟩
    exact ⟨by simp, fun hb => hne (by rw [hx, hfp hb])⟩
  refine fails_bind (lockRequest_fails hc ho rfl) fun _ t₁ hl => ?_
  cases lockRequest_ok hl
  refine fails_bind ((find_good hc.identified rfl hrow hg).mono fun e => hcn rfl) fun r t₂ hf => ?_
  obtain ⟨rfl, ⟨hn, -⟩ | ⟨row', rc, hro', rfl, hsh, -⟩⟩ := find_ok hf
  · exact absurd (hn.symm.trans hrow) (by simp)
  · rw [hrow] at hro'
    cases hro'
    have hse : isOpen row = true → (do settleLookup q conf asked; find d q .external : Session _).Fails (Tolerable b) o t₂ := by
      intro hop
      obtain ⟨t', new, hset, hnew, hgo, hsm, -⟩ := settleLookup_good hc.identified hrow hg hop hco
      refine fails_then hset ?_
      exact (find_good hc.identified rfl hnew hgo).mono fun e => hcn hsm
    cases hs : rc.state with
    | confirmed audit result | rejected =>
      simp only [hs]
      exact fails_pure
    | pending =>
      simp only [hs]
      exact hse (hsh.open (.inl hs))
    | unknown =>
      simp only [hs]
      exact hse (hsh.open (.inr hs))

theorem Exists.rejectionAudited (h : Exists d ref fp w) : w.tables.rejectionAudited ref = true := by
  obtain ⟨row, hrow, -⟩ := h.row
  have hau := (h.inv.audit ref).row hrow
  obtain ⟨st, hst⟩ := (h.good ref row hrow).state
  simp only [Tables.rejectionAudited, hrow, Bool.or_eq_true, bne_iff_ne, Bool.not_eq_true', isEmpty_eq_false_iff]
  by_cases hr : row.status = .rejected
  · grind [Row.state]
  · exact .inl hr

theorem reconcileBody_receipt {p} (hid : ref.Identified) (he : Exists d ref fp w) (hq : q.reference = ref)
    (hco : ∀ raw, conf = some raw → ∃ r, d.result raw.toValue = some r) (h : reconcileBody d q p conf asked o w.tables = .ok (r, t')) : Receipt ref r ∧ t'.rejectionAudited ref = true := by
  subst hq
  obtain ⟨row, hrow, -⟩ := he.row
  simp only [reconcileBody, bind_ok] at h
  obtain ⟨_, t₁, hl, receipt, t₂, hf, h⟩ := h
  cases lockRequest_ok hl
  obtain ⟨rfl, ⟨hn, -⟩ | ⟨row', rc, hro', rfl, hsh, -⟩⟩ := find_ok hf
  · exact absurd (hn.symm.trans hrow) (by simp)
  · rw [hrow] at hro'
    cases hro'
    have hsm : (pure (some rc) : Session (Option (DurableCommandReceipt ρ))) o w.tables = .ok (r, t') →
        Receipt q.reference r ∧ t'.rejectionAudited q.reference = true := by
      intro h
      simp only [pure_ok, Prod.mk.injEq] at h
      obtain ⟨rfl, rfl⟩ := h
      exact ⟨⟨rc, rfl, hsh.reference⟩, he.rejectionAudited⟩
    have hse : isOpen row = true → (do settleLookup q conf asked; find d q .external : Session _) o w.tables = .ok (r, t') →
        Receipt q.reference r ∧ t'.rejectionAudited q.reference = true := by
      intro hop h
      obtain ⟨t₃, new, hset, hnew, -, -, hsts⟩ := settleLookup_good hid hrow (he.good _ row hrow) hop hco
      rw [bind_of_ok hset] at h
      refine ⟨find_receipt (by simp [hnew]) h, ?_⟩
      rw [(find_ok h).1]
      simp [Tables.rejectionAudited, hnew, hsts]
    cases hs : rc.state with
    | confirmed audit result | rejected =>
      simp only [hs] at h
      exact hsm h
    | pending =>
      simp only [hs] at h
      exact hse (hsh.open (.inl hs)) h
    | unknown =>
      simp only [hs] at h
      exact hse (hsh.open (.inr hs)) h

/-! ## 段ごとの結果 -/

abbrev Answers {α : Type} (d : Definition ρ) (ref : OperationReference) (fp : String) (b : Prop) (Q : α → Prop)
    (E : Thrown → Prop) (x : Task α) : Prop :=
  Proc.Yields (Exists d ref fp) (Oracle.Fit d fp b) (Proc.Result Q fun code => E (.command code)) x.run

theorem transact_result {α : Type} {Q E} {body : Session α} (i ref)
    (hE : ∀ e, E e → E (.command (Thrown.code e))) (hT : ∀ e, Tolerable b e → E e) (ho : o.Fit d fp b)
    (hfas : body.Fails E o w.tables) (hok : ∀ a t, body o w.tables = .ok (a, t) →
      Q a ∧ (¬ E (.command .COMMAND_OUTCOME_UNKNOWN) → t.rejectionAudited ref = true)) :
    Proc.Result Q (fun code => E (.command code)) (transact i ref body o w).1 := by
  have hlo : ∀ e, o.commit = .lostBefore e ∨ o.commit = .lostAfter e → E (.command (Thrown.code e)) := by
    refine fun e he => hE e (hT e ⟨ho.plain.commit e he, fun hb => ?_⟩)
    rcases he with he | he <;> simp [(ho.serves hb).commit] at he
  have huna : ∀ a t, body o w.tables = .ok (a, t) → t.rejectionAudited ref ≠ true → E (.command .COMMAND_OUTCOME_UNKNOWN) := by
    intro a t hb hne
    by_contra hno
    exact hne ((hok a t hb).2 hno)
  unfold transact
  split
  next e he => exact hlo e (.inl he)
  next =>
    split
    next e he => exact hE e (hfas e he)
    next a t hb =>
      split
      next => exact (hok a t hb).1
      next hne => exact huna a t hb hne
  next e he =>
    split
    next e' he' => exact hE e' (hfas e' he')
    next a t hb =>
      split
      next => exact hlo e (.inr he)
      next hne => exact huna a t hb hne

theorem Answers.transaction {α : Type} {Q : α → Prop} {E body}
    (hE : ∀ e, E e → E (.command (Thrown.code e))) (hT : ∀ e, Tolerable b e → E e)
    (h : ∀ w, Exists d ref fp w → ∀ o, o.Fit d fp b → body.Fails E o w.tables ∧
      ∀ a t, body o w.tables = .ok (a, t) → Q a ∧ (¬ E (.command .COMMAND_OUTCOME_UNKNOWN) → t.rejectionAudited ref = true)) :
    Answers d ref fp b Q E (transaction i ref body) :=
  Proc.Yields.atomic fun w hw o ho => transact_result i ref hE hT ho (h w hw o ho).1 (h w hw o ho).2

theorem Tolerable.code (h : Tolerable b e) : Tolerable b (.command (Thrown.code e)) := by
  cases e with
  | command c => exact h
  | other => exact ⟨by simp [Thrown.code], h.2⟩

theorem Flushing.code (h : Flushing b e) : Flushing b (.command (Thrown.code e)) := by
  cases e with
  | command c => exact h
  | other => exact ⟨by simp [Thrown.code], by simp [Thrown.code]⟩

def Readable (d : Definition ρ) (fp : String) (b : Prop) (value : JsValue) : Prop :=
  b → ∃ input canonical, decodeInput d value = some (input, canonical) ∧ d.digest canonical = fp

theorem prepare_fails {value} (hc : Caller d subject ref b) (ho : o.Fit d fp b) (hv : Readable d fp b value) :
    Proc.Result (fun q => q.reference = ref ∧ (b → q.fingerprint = fp)) (fun code => Tolerable b (.command code))
      (prepare d ref.toCommandIdentity ref.operationId value o.encoded) := by
  simp only [prepare, hc.reference, bind, Except.bind]
  cases hd : decodeInput d value with
  | none =>
    refine ⟨by simp, fun hb => ?_⟩
    obtain ⟨input, canonical, hin, -⟩ := hv hb
    rw [hd] at hin
    cases hin
  | some x =>
    obtain ⟨input, canonical⟩ := x
    cases hen : o.encoded with
    | none => exact ⟨by simp, fun hb => (ho.serves hb).encoded hen⟩
    | some payload =>
      refine ⟨rfl, fun hb => ?_⟩
      obtain ⟨input', canonical', hin, hfp⟩ := hv hb
      rw [hd] at hin
      cases hin
      exact hfp

theorem prepareTask_answers {value} (hc : Caller d subject ref b) (hv : Readable d fp b value) :
    Answers d ref fp b (fun q => q.reference = ref ∧ (b → q.fingerprint = fp)) (Tolerable b)
      (prepareTask d ref.toCommandIdentity ref.operationId value) :=
  Proc.Yields.atomic fun _ _ _ ho => prepare_fails hc ho hv

section Tasks

variable {value : JsValue}

section

variable (hc : Caller d subject ref b) (hv : Readable d fp b value)

include hc hv

theorem lookup_answers :
    Answers d ref fp b (Receipt ref) (Tolerable b) (lookup d i ref.toCommandIdentity ref.operationId value (some subject)) := by
  refine Proc.Yields.exceptBind (prepareTask_answers hc hv) fun q hq => ?_
  obtain ⟨rfl, hfp⟩ := hq
  refine Answers.transaction (fun _ => Tolerable.code) (fun _ h => h) fun w hw o ho => ⟨?_, fun r t h => ?_⟩
  · refine fails_bind (lockRequest_fails hc ho rfl) fun _ t hl => ?_
    cases lockRequest_ok hl
    obtain ⟨row, hrow, hrfp⟩ := hw.row
    refine (find_good hc.identified rfl hrow (hw.good _ row hrow)).mono ?_
    rintro e ⟨rfl, hne⟩
    exact ⟨by simp, fun hb => hne (by rw [hrfp, hfp hb])⟩
  · grind [hw.row, hw.rejectionAudited, lookupBody_change, bind_ok, lockRequest_ok, find_receipt]

theorem flushAudit_answers :
    Answers d ref fp b (Receipt ref) (Flushing b) (flushAudit d i ref.toCommandIdentity ref.operationId value (some subject)) := by
  have hpre : Answers d ref fp b (fun q => q.reference = ref) (Flushing b)
      (prepareTask d ref.toCommandIdentity ref.operationId value) := by
    refine Proc.Yields.mono (prepareTask_answers hc hv) fun r hr => ?_
    cases r with
    | ok q => exact hr.1
    | error code => exact Tolerable.flushing hr
  refine Proc.Yields.exceptBind hpre ?_
  rintro q rfl
  refine Answers.transaction (fun _ => Flushing.code) (fun _ => Tolerable.flushing) fun w hw o ho =>
    ⟨flushAuditBody_fails hc ho rfl, fun r t h => ?_⟩
  obtain ⟨row, hrow, -⟩ := hw.row
  exact ⟨flushAuditBody_receipt (by simp [hrow]) h, fun hno => absurd ⟨by simp, by simp⟩ hno⟩

theorem reconcileFlush_answers (hr : Receipt ref r) : Answers d ref fp b (Receipt ref) (Tolerable b)
      (reconcileFlush d i ref.toCommandIdentity ref.operationId value (some subject) r) := by
  obtain ⟨receipt, rfl, href⟩ := hr
  unfold reconcileFlush
  simp only
  split
  next result hs =>
    refine Proc.Yields.exceptTry (flushAudit_answers hc hv) fun code hcd => ?_
    split
    next hrej =>
      subst hrej
      exact ⟨hcd.1, fun hb => hcd.2 hb rfl⟩
    next => exact ⟨receipt, rfl, href⟩
  next => exact ⟨receipt, rfl, href⟩

end

theorem lookupConfirmation_result {q raw} (h : (lookupConfirmation d i q o w).1 = some raw) : ∃ r, d.result raw.toValue = some r := by
  unfold lookupConfirmation at h
  cases hl : o.lookup with
  | none => simp [hl] at h
  | some v =>
    simp only [hl] at h
    cases hcv : canonicalCommandJson v with
    | none => simp [hcv] at h
    | some raw' => grind

theorem reconcile_answers (hc : Caller d subject ref b) (hv : Readable d fp b value) :
    Answers d ref fp b (Receipt ref) (Tolerable b) (reconcile d i ref.toCommandIdentity ref.operationId value (some subject)) := by
  refine Proc.Yields.exceptBind (prepareTask_answers hc hv) fun q hq => ?_
  obtain ⟨rfl, hfp⟩ := hq
  refine Proc.Yields.exceptBind (lookup_answers hc hv) ?_
  rintro r ⟨before, rfl, hbe⟩
  have hse : ∀ (conf) (asked), (∀ raw, conf = some raw → ∃ r, d.result raw.toValue = some r) →
      Answers d q.reference fp b (Receipt q.reference) (Tolerable b) (do
        let receipt ← transaction i q.reference (reconcileBody d q (some subject) conf asked)
        reconcileFlush d i q.reference.toCommandIdentity q.reference.operationId value (some subject) receipt) := by
    intro conf asked hco
    refine Proc.Yields.exceptBind ?_ fun r hr => reconcileFlush_answers hc hv hr
    refine Answers.transaction (fun _ => Tolerable.code) (fun _ h => h) fun w hw o ho => ⟨?_, fun r t h => ?_⟩
    · obtain ⟨row, hrow, hrfp⟩ := hw.row
      exact reconcileBody_fails hc ho rfl (fun hb => (hfp hb).trans hrfp.symm) hrow (hw.good _ row hrow) hco
    · grind [hc.identified, reconcileBody_receipt]
  have hask : Answers d q.reference fp b (Receipt q.reference) (Tolerable b) (do
      let confirmation ← ExceptT.lift (Proc.atomic (lookupConfirmation d i q))
      let receipt ← transaction i q.reference (reconcileBody d q (some subject) confirmation true)
      reconcileFlush d i q.reference.toCommandIdentity q.reference.operationId value (some subject) receipt) := by
    refine Proc.Yields.exceptBind (Q := fun conf => ∀ raw, conf = some raw → ∃ r, d.result raw.toValue = some r)
      (Proc.Yields.exceptLift (Proc.Yields.atomic fun w _ o _ raw h => lookupConfirmation_result h)) fun conf hco => ?_
    exact hse conf true hco
  cases hs : before.state with
  | rejected =>
    simp only [hs]
    exact ⟨before, rfl, hbe⟩
  | confirmed audit result =>
    simp only [hs]
    exact hse none false (by simp)
  | pending | unknown =>
    simp only [hs]
    exact hask

end Tasks

/-! ## 回復の二つのトランザクション -/

def Payload (ref : OperationReference) (w : World) : Prop := ∃ row, w.tables.rows ref = some row ∧ row.inputPayload ≠ none

section

variable (hc : Caller d subject ref b) (ho : o.Fit d fp b) (hw : Exists d ref fp w)

include hc ho hw

theorem recoverCompletedBody_result :
    (recoverCompletedBody d ref).Fails (Tolerable b) o w.tables ∧ ∀ r t, recoverCompletedBody d ref o w.tables = .ok (r, t) →
      Receipt ref r ∨ (r = none ∧ Payload ref w) := by
  obtain ⟨row, hrow, -⟩ := hw.row
  have hg := hw.good ref row hrow
  obtain ⟨stored, hsto, -, hki, -, ⟨st, hst, hsta⟩, receipt, hrec, href⟩ := decodeStored_good hc.identified hg
  have hop : row.auditState = .pending → Payload ref w := by
    refine fun ha => ⟨row, hrow, fun hp => ?_⟩
    rw [hg.payload hp] at ha
    cases ha
  -- 読んだ後の判断。済んだ行では受領証を返し、済んでいない行では何も返さない。
  obtain ⟨rest, hbody, r, hr, hres⟩ : ∃ rest : Session (Option (DurableCommandReceipt ρ)),
      (recoverCompletedBody d ref = do
        lock ref
        if !d.hasAuthorizeRecovery then throwCode .COMMAND_REJECTED
        else
          checkAuthorization
          rest) ∧
      ∃ r, rest o w.tables = .ok (r, w.tables) ∧ (Receipt ref r ∨ (r = none ∧ Payload ref w)) := by
    refine ⟨_, rfl, ?_⟩
    rw [bind_of_ok (read_some (o := o) hc.identified hrow hsto)]
    dsimp only
    rw [hsta]
    cases st with
    | pending => exact ⟨none, rfl, .inr ⟨rfl, hop (Row.state_open (.inl hst)).2⟩⟩
    | unknown => exact ⟨none, rfl, .inr ⟨rfl, hop (Row.state_open (.inr hst)).2⟩⟩
    | rejected => exact ⟨some receipt, by simp [hki, hrec, href, Session.orThrow, bind, pure], .inl ⟨receipt, rfl, href⟩⟩
    | confirmed audit raw =>
      cases audit with
      | pending => exact ⟨none, rfl, .inr ⟨rfl, hop (Row.state_confirmed hst).2.1⟩⟩
      | complete => exact ⟨some receipt, by simp [hki, hrec, href, Session.orThrow, bind, pure], .inl ⟨receipt, rfl, href⟩⟩
  rw [hbody]
  constructor
  · refine fails_bind (lock_fails hc ho) fun _ t₁ hl => ?_
    cases lock_ok hl
    split
    next hno =>
      refine fails_throwCode ⟨by simp, fun hb => ?_⟩
      simp [(hc.authorized hb).1] at hno
    next =>
      refine fails_bind (checkAuthorization_fails ho) fun _ t₂ ha => ?_
      cases checkAuthorization_ok ha
      exact fails_of_ok hr
  · intro r' t h
    obtain ⟨_, t₁, hl, h⟩ := bind_ok.mp h
    cases lock_ok hl
    split at h
    · simp at h
    · obtain ⟨_, t₂, ha, h⟩ := bind_ok.mp h
      cases checkAuthorization_ok ha
      cases hr.symm.trans h
      exact hres

theorem restore_result (hp : Payload ref w) :
    (restore d ref.toCommandIdentity ref.operationId (some subject)).Fails (Tolerable b) o w.tables ∧
      ∀ r t, restore d ref.toCommandIdentity ref.operationId (some subject) o w.tables = .ok (r, t) →
        t = w.tables ∧ ∃ q, r = some q ∧ Readable d fp b q.input := by
  obtain ⟨row, hrow, hrfp⟩ := hw.row
  obtain ⟨row', hro', hpay⟩ := hp
  rw [hrow] at hro'
  cases hro'
  obtain ⟨stored, hsto, hsfp, -, hpa, -⟩ := decodeStored_good hc.identified (hw.good ref row hrow)
  obtain ⟨payload, hsom⟩ := Option.ne_none_iff_exists'.mp (hpa ▸ hpay)
  have hre := read_some (o := o) hc.identified hrow hsto
  have hrd : ∀ {json q}, o.decoded = some json →
      prepare d ref.toCommandIdentity ref.operationId json o.encoded = .ok q → Readable d fp b q.input := by
    intro json q hdec hprp hb
    obtain ⟨json', input, canonical, hde', hin, hfp⟩ := (ho.serves hb).decoded
    rw [hdec] at hde'
    cases hde'
    have hd := (prepare_ok hprp).2.2
    rw [hin] at hd
    cases hd
    obtain ⟨again, hag⟩ := hc.stable hb json q.input q.canonical hin
    exact ⟨again, q.canonical, hag, hfp⟩
  simp only [restore, hc.reference]
  constructor
  · refine fails_bind (lock_fails hc ho) fun _ t₁ hl => ?_
    cases lock_ok hl
    refine fails_then hre ?_
    simp only [hsom]
    refine fails_then (oracle_ok.mpr rfl) ?_
    cases hdec : o.decoded with
    | none =>
      refine fails_throwCode ⟨by simp, fun hb => ?_⟩
      obtain ⟨_, _, _, hso, -⟩ := (ho.serves hb).decoded
      rw [hdec] at hso
      cases hso
    | some json =>
      simp only
      have hpre := prepare_fails hc ho (show Readable d fp b json from fun hb => by
        obtain ⟨json', input, canonical, hde', hin, hfp⟩ := (ho.serves hb).decoded
        rw [hdec] at hde'
        cases hde'
        exact ⟨input, canonical, hin, hfp⟩)
      cases hprp : prepare d ref.toCommandIdentity ref.operationId json o.encoded with
      | error code =>
        rw [hprp] at hpre
        exact fails_throwCode hpre
      | ok q =>
        rw [hprp] at hpre
        simp only
        split
        next hne => exact fails_throwCode ⟨by simp, fun hb => hne (by rw [hpre.2 hb, hsfp, hrfp])⟩
        next => exact fails_bind (authorize_fails hc ho) fun _ _ _ => fails_pure
  · intro r t h
    simp only [bind_ok] at h
    obtain ⟨_, t₁, hl, x, t₂, hx, h⟩ := h
    cases lock_ok hl
    rw [hre] at hx
    cases hx
    simp only [hsom, bind_ok, oracle_ok, Prod.mk.injEq] at h
    obtain ⟨o', t₃, ⟨rfl, rfl⟩, h⟩ := h
    cases hdec : o'.decoded with
    | none => simp [hdec] at h
    | some json =>
      simp only [hdec] at h
      cases hprp : prepare d ref.toCommandIdentity ref.operationId json o'.encoded with
      | error code => simp [hprp] at h
      | ok q =>
        simp only [hprp] at h
        split at h
        · simp at h
        · grind [bind_ok, pure_ok, authorize_ok]

end

/-! ## 回復の走行 -/

def recoverRest (d : Definition ρ) (i : Nat) (subject : String) (ref : OperationReference) :
    Task (Option (DurableCommandReceipt ρ)) := do
  match ← restoreTask d i ref.toCommandIdentity ref.operationId (some subject) with
  | none => return none
  | some request => reconcile d i ref.toCommandIdentity ref.operationId request.input (some subject)

abbrev Recovered (ref : OperationReference) (b : Prop) : Outcome ρ → Prop :=
  Proc.Result (Receipt ref) fun code => Tolerable b (.command code)

theorem recoverRest_step (fp) (hc : Caller d subject ref b) : ∃ next cont, (recoverRest d i subject ref).run = .act next cont ∧
    ∀ w, Exists d ref fp w → Payload ref w → ∀ o, o.Fit d fp b →
      Proc.Yields (Exists d ref fp) (Oracle.Fit d fp b) (Recovered ref b) (cont o w) := by
  have hrun : (recoverRest d i subject ref).run = (Proc.atomic (transact i ref
      (restore d ref.toCommandIdentity ref.operationId (some subject)))).bind (ExceptT.bindCont fun r => match r with
        | none => pure none
        | some request => reconcile d i ref.toCommandIdentity ref.operationId request.input (some subject)) := by
    rw [recoverRest, restoreTask, hc.reference]
    rfl
  refine ⟨_, _, hrun, fun w hw hp o ho => ?_⟩
  obtain ⟨hfas, hok⟩ := restore_result hc ho hw hp
  have hres := transact_result (Q := fun r : Option Prepared => ∃ q, r = some q ∧ Readable d fp b q.input) i ref
    (fun _ => Tolerable.code) (fun _ h => h) ho hfas fun r t h => by
      obtain ⟨rfl, hq⟩ := hok r t h
      exact ⟨hq, fun _ => hw.rejectionAudited⟩
  show Proc.Yields _ _ _ ((Proc.ret _).bind _)
  revert hres
  cases (transact i ref (restore d ref.toCommandIdentity ref.operationId (some subject)) o w).1 with
  | error code => exact fun hcd => hcd
  | ok r =>
    rintro ⟨q, rfl, hq⟩
    exact reconcile_answers hc hq

theorem recover_step (fp) (hc : Caller d subject ref b) : ∃ next cont, (recover d i subject ref).run = .act next cont ∧
    ∀ w, Exists d ref fp w → ∀ o, o.Fit d fp b → Proc.Yields (Exists d ref fp) (Oracle.Fit d fp b) (Recovered ref b) (cont o w) ∨
        (cont o w = (recoverRest d i subject ref).run ∧ Payload ref (next o w)) := by
  have hna : ref.command = d.name := congrArg OperationReference.command (reference_ok hc.reference)
  obtain ⟨rest, hrun, hcompleted, hnone⟩ : ∃ rest : Option (DurableCommandReceipt ρ) → Task (Option (DurableCommandReceipt ρ)),
      (recover d i subject ref).run =
        (Proc.atomic (transact i ref (recoverCompletedBody d ref))).bind (ExceptT.bindCont rest) ∧
      (∀ completed, rest (some completed) = pure (some completed)) ∧ rest none = recoverRest d i subject ref := by
    rw [recover, if_neg (by simp [hna])]
    exact ⟨_, rfl, fun _ => rfl, rfl⟩
  refine ⟨_, _, hrun, fun w hw o ho => ?_⟩
  obtain ⟨hfas, hok⟩ := recoverCompletedBody_result hc ho hw
  -- 済んでいなければ、この段は表を変えないので、入力は残っている。
  have hke : Payload ref w → Payload ref (transact i ref (recoverCompletedBody d ref) o w).2 := by
    intro hp
    rcases transact_cases i ref (recoverCompletedBody d ref) o w with ⟨hw', -⟩ | ⟨r, t, hb, hw', -⟩
    · rw [hw']
      exact hp
    · rw [hw', recoverCompletedBody_change hb]
      exact hp
  have hres := transact_result (Q := fun r => Receipt ref r ∨ (r = none ∧ Payload ref w)) i ref
    (fun _ => Tolerable.code) (fun _ h => h) ho hfas fun r t h => ⟨hok r t h, fun _ => by
      rw [recoverCompletedBody_change h]
      exact hw.rejectionAudited⟩
  show Proc.Yields _ _ _ ((Proc.ret _).bind _) ∨ ((Proc.ret _).bind _ = _ ∧ _)
  revert hres
  cases (transact i ref (recoverCompletedBody d ref) o w).1 with
  | error code => exact fun hcd => .inl hcd
  | ok r =>
    rintro (hr | ⟨rfl, hp⟩)
    · obtain ⟨receipt, rfl, -⟩ := id hr
      left
      show Proc.Yields _ _ _ (ExceptT.run (rest _))
      rw [hcompleted]
      exact hr
    · exact .inr ⟨congrArg ExceptT.run hnone, hke hp⟩

def Redacts (ref : OperationReference) (w w' : World) : Prop := Payload ref w ∧ ¬ Payload ref w'

/-- 呼び出し i が一段だけ進んだ間は、どの段も、操作 ref の入力を消さない。 -/
def Undisturbed (i : Nat) (ref : OperationReference) (c : Config Nat Oracle World (Outcome ρ)) (sched : List (Nat × Oracle)) : Prop :=
  ∀ before j o after, sched = before ++ (j, o) :: after → before.countP (fun x => x.1 = i) = 1 →
    ¬ Redacts ref (c.run before).world ((c.run before).step j o).world

variable {c : Config Nat Oracle World (Outcome ρ)}

def Phase (d : Definition ρ) (i : Nat) (subject : String) (ref : OperationReference) (fp : String) (b : Prop)
    (c : Config Nat Oracle World (Outcome ρ)) : Nat → Prop
  | 0 => c.proc i = (recover d i subject ref).run
  | 1 => Proc.Yields (Exists d ref fp) (Oracle.Fit d fp b) (Recovered ref b) (c.proc i) ∨
      (c.proc i = (recoverRest d i subject ref).run ∧ Payload ref c.world)
  | _ + 2 => Proc.Yields (Exists d ref fp) (Oracle.Fit d fp b) (Recovered ref b) (c.proc i)

theorem Phase.other (h : Phase d i subject ref fp b c n) (hij : j ≠ i)
    (hke : n = 1 → ¬ Redacts ref c.world (c.step j o).world) : Phase d i subject ref fp b (c.step j o) n := by
  have hpr : (c.step j o).proc i = c.proc i := by
    unfold Config.step
    split
    · rfl
    · exact Function.update_of_ne hij.symm _ _
  match n with
  | 0 => exact hpr.trans h
  | 1 =>
    refine h.imp (fun h => ?_) fun h => ⟨hpr.trans h.1, ?_⟩
    · rw [hpr]
      exact h
    · by_contra hno
      exact hke rfl ⟨h.2, hno⟩
  | n + 2 =>
    show Proc.Yields _ _ _ _
    rw [hpr]
    exact h

theorem Phase.own (hc : Caller d subject ref b) (hw : Exists d ref fp c.world) (ho : o.Fit d fp b)
    (h : Phase d i subject ref fp b c n) : Phase d i subject ref fp b (c.step i o) (n + 1) := by
  have hyis : Proc.Yields (Exists d ref fp) (Oracle.Fit d fp b) (Recovered ref b) (c.proc i) →
      Proc.Yields (Exists d ref fp) (Oracle.Fit d fp b) (Recovered ref b) ((c.step i o).proc i) := by
    intro hy
    unfold Config.step
    split
    next => exact hy
    next next cont hp =>
      rw [hp] at hy
      simpa using hy c.world hw o ho
  match n with
  | 0 =>
    obtain ⟨next, cont, hrun, hste⟩ := recover_step (i := i) fp hc
    have hpr : c.proc i = .act next cont := Eq.trans h hrun
    rcases hste c.world hw o ho with hy | ⟨hrst, hp⟩
    · refine .inl ?_
      simpa [Config.step, hpr] using hy
    · refine .inr ⟨?_, ?_⟩
      · simpa [Config.step, hpr] using hrst
      · simpa [Config.step, hpr] using hp
  | 1 =>
    rcases h with hy | ⟨hpr, hp⟩
    · exact hyis hy
    · obtain ⟨next, cont, hrun, hste⟩ := recoverRest_step (i := i) fp hc
      have hcon := hste c.world hw hp o ho
      show Proc.Yields _ _ _ _
      simpa [Config.step, hpr, hrun] using hcon
  | n + 2 => exact hyis h

theorem phase_run (hc : Caller d subject ref b) (hsa : ExternalSafe d c) (hw : Exists d ref fp c.world)
    (hstr : c.proc i = (recover d i subject ref).run) {sched}
    (hfit : ∀ o, (i, o) ∈ sched → o.Fit d fp b) (hke : Undisturbed i ref c sched) :
    Exists d ref fp (c.run sched).world ∧ Phase d i subject ref fp b (c.run sched) (sched.countP fun x => x.1 = i) := by
  suffices h : ∀ before after, sched = before ++ after → ExternalSafe d (c.run before) ∧ Exists d ref fp (c.run before).world ∧
      Phase d i subject ref fp b (c.run before) (before.countP fun x => x.1 = i) by
    exact (h sched [] (by simp)).2
  intro before
  induction before using reverseRecOn with
  | nil => exact fun _ _ => ⟨hsa, hw, hstr⟩
  | append_singleton before x ih =>
    obtain ⟨j, o⟩ := x
    intro after hsp
    rw [append_assoc, singleton_append] at hsp
    obtain ⟨hs, he, hp⟩ := ih _ hsp
    rw [Config.run_append, Config.run_cons, Config.run_nil]
    have hs' : ExternalSafe d ((c.run before).step j o) :=
      hs.step (fun _ => Others.refl) (fun _ _ _ _ => Others.trans) (fun _ _ hij _ _ h => h.others hij) trivial
    have he' : Exists d ref fp ((c.run before).step j o).world := by
      rcases hs.step_guar (fun _ => Others.refl) (i := j) (ω := o) trivial with heq | heff
      · rw [heq]
        exact he
      · exact heff.exists he
    refine ⟨hs', he', ?_⟩
    by_cases hij : j = i
    · grind [→ hp.own]
    · rw [countP_append, countP_singleton, if_neg (by simpa using hij), Nat.add_zero]
      exact hp.other hij fun hn => hke before j o after hsp hn

theorem recovered_of_phase {out} (hc : Caller d subject ref b) (h : Phase d i subject ref fp b c n)
    (hout : c.proc i = .ret out) : Recovered ref b out := by
  match n with
  | 0 =>
    obtain ⟨next, cont, hrun, -⟩ := recover_step (i := i) fp hc
    rw [show c.proc i = (recover d i subject ref).run from h, hrun] at hout
    cases hout
  | 1 =>
    rcases h with hy | ⟨hpr, -⟩
    · rw [hout] at hy
      exact hy
    · obtain ⟨next, cont, hrun, -⟩ := recoverRest_step (i := i) fp hc
      rw [hpr, hrun] at hout
      cases hout
  | n + 2 =>
    have hy : Proc.Yields _ _ _ (c.proc i) := h
    rw [hout] at hy
    exact hy

/-! ## 走行の世界 -/

def Referenced (d : Definition ρ) (w : World) : Prop :=
  ∀ ref, w.tables.rows ref ≠ none → reference d ref.toCommandIdentity ref.operationId = .ok ref

theorem Change.referenced (h : Change d i w t) (hr : Referenced d w) (hne : t.rows ref ≠ none) :
    reference d ref.toCommandIdentity ref.operationId = .ok ref := by
  -- 前からある行を書き換えた表では、行のある操作は増えない。
  have hold : ∀ {t₀ : Tables} {r row new}, t₀.rows = w.tables.rows → w.tables.rows r = some row →
      (t₀.setRow r new).rows ref ≠ none → reference d ref.toCommandIdentity ref.operationId = .ok ref := by
    intro t₀ r row new ht₀ hrow hne
    apply hr
    rw [setRow_rows, ht₀] at hne
    by_cases he : ref = r
    · simp [he, hrow]
    · simpa [he] using hne
  cases h with
  | same => exact hr ref hne
  | @insert r new hnn hfr href =>
    by_cases he : ref = r
    · rw [he]
      exact href
    · exact hr ref (by simpa [he] using hne)
  | unknown row hrow _ | confirm row raw hrow _ _ | flush row a hrow _ _ _ | reject row a hrow _ _ | redact row hrow _ => exact hold rfl hrow hne

theorem Effect.referenced (h : Effect d i w w') (hr : Referenced d w) : Referenced d w' := by
  cases h with
  | idle | lookup ref value | send ref key _ _ => exact hr
  | commit t hc => exact fun ref hne => hc.referenced hr hne

theorem rows_reached (calls sched) :
    GoodRows d ((externalStart d calls).run sched).world ∧ Referenced d ((externalStart d calls).run sched).world := by
  have hini : GoodRows d (externalStart d calls).world ∧ Referenced d (externalStart d calls).world := by
    constructor
    · intro ref row hrow
      simp [externalStart, World.initial, Tables.empty] at hrow
    · intro ref hne
      simp [externalStart, World.initial, Tables.empty] at hne
  exact (externalStart_safe (d := d) calls []).run_rel (T := fun v v' => GoodRows d v ∧ Referenced d v → GoodRows d v' ∧ Referenced d v')
    (fun _ => Others.refl) (fun _ _ _ _ => Others.trans) (fun _ _ hij _ _ h => h.others hij) (fun _ h => h)
    (fun _ _ _ h h' hw => h' (h hw)) (fun _ _ _ _ h hw => ⟨h.good hw.1, h.referenced hw.2⟩) sched (fun _ _ _ => trivial) hini

end Supacloud.Commands
