import Supacloud.Commands.External

/-! # トランザクションの本体がすること -/

namespace Supacloud.Commands

open Contracts Library Session Option

namespace Session

variable {α β : Type} {o : Oracle} {t t' : Tables}

variable {f : α → Session β}

@[simp] theorem bind_ok {m r} : (m >>= f) o t = .ok r ↔ ∃ a t₁, m o t = .ok (a, t₁) ∧ f a o t₁ = .ok r := by
  constructor
  · intro h
    simp only [bind] at h
    cases hm : m o t with
    | error e => rw [hm] at h; cases h
    | ok x => rw [hm] at h; exact ⟨x.1, x.2, rfl, h⟩
  · rintro ⟨a, t₁, hm, hf⟩
    simp only [bind, hm]
    exact hf

theorem bind_of_ok {m a t₁} (h : m o t = .ok (a, t₁)) : (m >>= f) o t = f a o t₁ := by
  simp [bind, h]

@[simp] theorem pure_ok {a r} : (pure a : Session α) o t = .ok r ↔ r = (a, t) := by
  simp only [pure, Except.ok.injEq]
  exact eq_comm

@[simp] theorem throw_ok {e} {r : α × Tables} : (throw e) o t = .ok r ↔ False := by
  simp [throw]

@[simp] theorem throwCode_ok {c} {r : α × Tables} : (throwCode c) o t = .ok r ↔ False := by
  simp [throwCode]

@[simp] theorem oracle_ok {r} : oracle o t = .ok r ↔ r = (o, t) := by
  simp only [oracle, Except.ok.injEq]
  exact eq_comm

@[simp] theorem getTables_ok {r} : getTables o t = .ok r ↔ r = (t, t) := by
  simp only [getTables, Except.ok.injEq]
  exact eq_comm

@[simp] theorem setTables_ok {r} : setTables t' o t = .ok r ↔ r = ((), t') := by
  simp only [setTables, Except.ok.injEq]
  exact eq_comm

@[simp] theorem orThrow_ok {e} {x : Option α} {r} : orThrow e x o t = .ok r ↔ x = some r.1 ∧ r.2 = t := by
  obtain ⟨a, t₁⟩ := r
  cases x with
  | none => simp [orThrow]
  | some b =>
    rw [orThrow, pure_ok, Prod.mk.injEq, some.injEq]
    exact and_congr_left' eq_comm

@[simp] theorem mayThrow_ok {x r} : mayThrow x o t = .ok r ↔ x = none ∧ r.2 = t := by
  cases x with
  | none => simp [mayThrow, Prod.ext_iff]
  | some e => simp [mayThrow]

end Session

variable {ρ : Type} {d : Definition ρ} {o : Oracle} {t t' : Tables} {ref : OperationReference} {identity : CommandIdentity} {key : String}
  {kind : CommandKind} {p : Option String} {q : Prepared} {row : Row} {u : Unit}

/-! ## 表を変えない操作 -/

theorem keys_ok (h : keys ref o t = .ok (u, t')) : t' = t := by
  simp only [keys, bind_ok, orThrow_ok, pure_ok, Prod.mk.injEq] at h
  obtain ⟨_, t₁, ⟨-, rfl⟩, _, t₂, ⟨-, rfl⟩, _, t₃, ⟨-, rfl⟩, _, t₄, ⟨-, rfl⟩, -, h₅⟩ := h
  exact h₅

theorem keys_identified (h : ref.Identified) : keys ref o t = .ok ((), t) := by
  simp [keys, h.tenantId, h.actorId, h.command, h.operationId]

theorem lock_ok (h : lock ref o t = .ok (u, t')) : t' = t := by
  simp only [lock, bind_ok, oracle_ok, mayThrow_ok, Prod.mk.injEq] at h
  obtain ⟨_, t₁, hk, _, t₂, ⟨-, rfl⟩, -, rfl⟩ := h
  exact keys_ok hk

theorem checkAuthorization_ok (h : checkAuthorization o t = .ok (u, t')) : t' = t := by
  simp only [checkAuthorization, bind_ok, oracle_ok, Prod.mk.injEq] at h
  obtain ⟨o, _, ⟨rfl, rfl⟩, h⟩ := h
  cases ha : o.authorization <;> simp_all

theorem authorize_ok (h : authorize d p o t = .ok (u, t')) : t' = t := by
  cases p with
  | none => exact checkAuthorization_ok h
  | some subject =>
    simp only [authorize, bind_ok, orThrow_ok] at h
    obtain ⟨_, t₁, ⟨-, rfl⟩, h⟩ := h
    split at h
    · simp at h
    · exact checkAuthorization_ok h

theorem lockRequest_ok (h : lockRequest d q p o t = .ok (u, t')) : t' = t := by
  simp only [lockRequest, bind_ok] at h
  obtain ⟨_, t₁, hl, ha⟩ := h
  rw [authorize_ok ha, lock_ok hl]

theorem read_ok {r} (h : read ref o t = .ok (r, t')) : t' = t ∧ ((t.rows ref = none ∧ r = none) ∨
      ∃ row stored, t.rows ref = some row ∧ decodeStored ref row = some stored ∧ r = some stored) := by
  simp only [read, bind_ok, getTables_ok, Prod.mk.injEq] at h
  obtain ⟨_, t₁, hk, _, _, ⟨rfl, rfl⟩, h⟩ := h
  cases keys_ok hk
  cases hr : t.rows ref with
  | none =>
    simp only [hr, pure_ok, Prod.mk.injEq] at h
    exact ⟨h.2, Or.inl ⟨rfl, h.1⟩⟩
  | some row =>
    simp only [hr, bind_ok, orThrow_ok, pure_ok, Prod.mk.injEq] at h
    obtain ⟨stored, t₂, ⟨hs, rfl⟩, rfl, rfl⟩ := h
    exact ⟨rfl, Or.inr ⟨row, stored, rfl, hs, rfl⟩⟩

structure Shows (d : Definition ρ) (q : Prepared) (kind : CommandKind) (row : Row)
    (receipt : DurableCommandReceipt ρ) : Prop where
  fingerprint : row.inputFingerprint = q.fingerprint
  kind_eq : row.kind = kind
  reference : receipt.reference = q.reference
  dispatchKey : receipt.dispatchKey = row.dispatchKey
  state : ∃ st, row.state = some st ∧ st.Decodes d.result receipt.state
  identified : commandIdentifier row.dispatchKey = some row.dispatchKey

variable {r : Option (DurableCommandReceipt ρ)}

theorem find_ok (h : find d q kind o t = .ok (r, t')) : t' = t ∧ ((t.rows q.reference = none ∧ r = none) ∨
      ∃ row receipt, t.rows q.reference = some row ∧ r = some receipt ∧ Shows d q kind row receipt ∧
        (kind = .transactional → ∃ res, receipt.state = .confirmed .complete res)) := by
  simp only [find, bind_ok] at h
  obtain ⟨stored, t₁, hr, h⟩ := h
  obtain ⟨rfl, ⟨hn, rfl⟩ | ⟨row, st, hrow, hst, rfl⟩⟩ := read_ok hr
  · simp only [pure_ok, Prod.mk.injEq] at h
    exact ⟨h.2, Or.inl ⟨hn, h.1⟩⟩
  · simp only at h
    split at h
    · simp at h
    · rename_i hc
      push Not at hc
      cases hd : decodeDurableCommandReceipt st.receipt d.result with
      | none => simp [hd] at h
      | some receipt =>
        simp only [hd] at h
        obtain ⟨hdr, hdk, hds⟩ := decodeDurableCommandReceipt_spec hd
        simp only [decodeStored, map_eq_some_iff] at hst
        obtain ⟨state, hsta, rfl⟩ := hst
        split at h
        · simp at h
        · rename_i href
          push Not at href
          have hsh : Shows d q kind row receipt := 
            ⟨hc.1, hc.2, href, hdk, ⟨state, hsta, hds⟩, decodeDurableCommandReceipt_dispatchKey hd⟩
          cases kind with
          | external =>
            simp only [pure_ok, Prod.mk.injEq] at h
            exact ⟨h.2, Or.inr ⟨row, receipt, hrow, h.1, hsh, by simp⟩⟩
          | transactional =>
            cases hs : receipt.state with
            | confirmed a res =>
              cases a with
              | pending => simp [hs] at h
              | complete =>
                simp only [hs, pure_ok, Prod.mk.injEq] at h
                exact ⟨h.2, Or.inr ⟨row, receipt, hrow, h.1, hsh, fun _ => ⟨res, hs⟩⟩⟩
            | _ => simp [hs] at h

/-! ## 表を変える操作 -/

@[simp] theorem setRow_rows (row r) : (t.setRow ref row).rows r = if r = ref then some row else t.rows r := by
  simp [Tables.setRow, Function.update_apply]

@[simp] theorem setRow_audits (row) : (t.setRow ref row).audits = t.audits := rfl

@[simp] theorem setRow_effects (row) : (t.setRow ref row).effects = t.effects := rfl

variable {conf : Option CommandJson} (v : JsValue) {res : JsValue → Option ρ} (a : AuditRow)

@[simp] theorem addAudit_rows : (t.addAudit ref a).rows = t.rows := rfl

@[simp] theorem addAudit_audits (r) : (t.addAudit ref a).audits r = if r = ref then a :: t.audits ref else t.audits r := by
  simp [Tables.addAudit, Function.update_apply]

@[simp] theorem addAudit_effects : (t.addAudit ref a).effects = t.effects := rfl

@[simp] theorem addEffect_rows : (t.addEffect ref v).rows = t.rows := rfl

@[simp] theorem addEffect_audits : (t.addEffect ref v).audits = t.audits := rfl

@[simp] theorem addEffect_effects (r) : (t.addEffect ref v).effects r = if r = ref then v :: t.effects ref else t.effects r := by
  simp [Tables.addEffect, Function.update_apply]

theorem insert_ok {sub record} (h : insert sub record o t = .ok (u, t')) : t.rows record.receipt.reference = none ∧
      t' = t.setRow record.receipt.reference { Row.ofStored record with dispatchKey := sub.getD record.receipt.dispatchKey } := by
  simp only [insert, bind_ok, getTables_ok, Prod.mk.injEq] at h
  obtain ⟨_, t₁, hk, _, _, ⟨rfl, rfl⟩, h⟩ := h
  cases keys_ok hk
  split at h
  · simp at h
  · rename_i hc
    simp only [Bool.or_eq_true, not_or, Bool.not_eq_true, isSome_eq_false_iff, isNone_iff_eq_none] at hc
    simp only [setTables_ok, Prod.mk.injEq] at h
    exact ⟨hc.1, h.2⟩

theorem updateWhere_ok {cond f} (h : updateWhere ref cond f o t = .ok (u, t')) :
    (t' = t ∧ ∀ row, t.rows ref = some row → cond row = false) ∨
      ∃ row, t.rows ref = some row ∧ cond row = true ∧ t' = t.setRow ref (f row) := by
  simp only [updateWhere, bind_ok, getTables_ok, Prod.mk.injEq] at h
  obtain ⟨_, t₁, hk, _, _, ⟨rfl, rfl⟩, h⟩ := h
  cases keys_ok hk
  cases hr : t.rows ref with
  | none =>
    simp only [hr, pure_ok, Prod.mk.injEq] at h
    exact Or.inl ⟨h.2, by simp⟩
  | some row =>
    simp only [hr] at h
    split at h
    · grind [pure_ok]
    · rename_i hc
      split at h
      · simp at h
      · simp only [setTables_ok, Prod.mk.injEq] at h
        exact Or.inr ⟨row, rfl, by simpa using hc, h.2⟩

theorem auditInsert_ok {event details} (h : auditInsert ref event details o t = .ok (u, t')) :
    t.audits ref = [] ∧ t' = t.addAudit ref { event, details } := by
  simp only [auditInsert, bind_ok, getTables_ok, Prod.mk.injEq] at h
  obtain ⟨_, t₁, hk, _, _, ⟨rfl, rfl⟩, h⟩ := h
  cases keys_ok hk
  split at h
  · simp at h
  · grind [setTables_ok]

theorem audit_ok {res} (h : audit d q res o t = .ok (u, t')) : t.audits q.reference = [] ∧ ∃ a, t' = t.addAudit q.reference a := by
  simp only [audit, bind_ok, orThrow_ok, oracle_ok, mayThrow_ok, Prod.mk.injEq] at h
  obtain ⟨details, t₁, ⟨-, rfl⟩, o', _, ⟨rfl, rfl⟩, _, t₂, ⟨-, rfl⟩, h⟩ := h
  obtain ⟨hempty, rfl⟩ := auditInsert_ok h
  exact ⟨hempty, _, rfl⟩

/-! ## トランザクション -/

section

variable {w : World} {i : Nat}

def World.commit (w : World) (i : Nat) (t : Tables) : World :=
  ({ w with tables := t }).record i (.committed w.tables t)

@[simp] theorem commit_tables : (w.commit i t).tables = t := rfl

@[simp] theorem commit_log : (w.commit i t).log = (i, .committed w.tables t) :: w.log := rfl

@[simp] theorem record_log (e) : (w.record i e).log = (i, e) :: w.log := rfl

end

theorem transact_cases {α : Type} (i ref) (body : Session α) (o w) :
    ((transact i ref body o w).2 = w ∧ ∃ e, (transact i ref body o w).1 = .error e) ∨
      ∃ a t, body o w.tables = .ok (a, t) ∧ (transact i ref body o w).2 = w.commit i t ∧
        ((transact i ref body o w).1 = .ok a ∨ ∃ e, (transact i ref body o w).1 = .error e) := by
  unfold transact
  split
  · exact Or.inl ⟨rfl, _, rfl⟩
  · split
    · exact Or.inl ⟨rfl, _, rfl⟩
    · rename_i a t hb
      split
      · exact Or.inr ⟨a, t, hb, rfl, Or.inl rfl⟩
      · exact Or.inl ⟨rfl, _, rfl⟩
  · split
    · exact Or.inl ⟨rfl, _, rfl⟩
    · rename_i a t hb
      split
      · exact Or.inr ⟨a, t, hb, rfl, Or.inr ⟨_, rfl⟩⟩
      · exact Or.inl ⟨rfl, _, rfl⟩

/-! ## 外部コマンドの呼び出しが一段ですること -/

variable {i : Nat} {w w' : World}

/-! ## 準備した要求 -/

structure Prepared.Valid (d : Definition ρ) (q : Prepared) : Prop where
  fingerprint : q.fingerprint = d.digest q.canonical
  canonical : canonicalCommandJson q.input = some q.canonical
  reference : Commands.reference d q.reference.toCommandIdentity q.reference.operationId = .ok q.reference

theorem decodeInput_ok {value input canonical}
    (h : decodeInput d value = some (input, canonical)) : canonicalCommandJson input = some canonical := by
  simp only [decodeInput, bind_eq_bind, bind_eq_some_iff] at h
  obtain ⟨_, -, c, -, v, -, h⟩ := h
  split at h
  · rename_i hc
    cases h
    exact hc
  · cases h

theorem reference_ok (h : reference d identity key = .ok ref) : ref = { identity with command := d.name, operationId := key } := by
  unfold reference at h
  split at h
  · rename_i r hr
    cases h
    exact decodeValidatedCommandReference_eq hr
  · cases h

theorem reference_identified (h : reference d identity key = .ok ref) : ref.Identified := by
  unfold reference at h
  split at h
  · rename_i r hr
    cases h
    exact decodeValidatedCommandReference_identified hr
  · cases h

theorem prepare_ok {value encoded} (h : prepare d identity key value encoded = .ok q) :
    q.Valid d ∧ reference d identity key = .ok q.reference ∧ decodeInput d value = some (q.input, q.canonical) := by
  unfold prepare at h
  cases hr : reference d identity key with
  | error e => simp [hr, bind, Except.bind] at h
  | ok r =>
    simp only [hr, bind, Except.bind] at h
    split at h
    · cases h
    · rename_i input canonical hd
      split at h
      · cases h
      · cases h
        refine ⟨⟨rfl, decodeInput_ok hd, ?_⟩, rfl, hd⟩
        simpa [reference_ok hr] using hr

theorem restore_ok {r} (h : restore d identity key p o t = .ok (r, t')) : t' = t ∧ ∀ q, r = some q → q.Valid d := by
  unfold restore at h
  cases hr : reference d identity key with
  | error e => simp [hr] at h
  | ok ref =>
    simp only [hr, bind_ok] at h
    obtain ⟨_, t₁, hl, stored, t₂, hre, h⟩ := h
    cases lock_ok hl
    obtain ⟨rfl, -⟩ := read_ok hre
    cases stored with
    | none =>
      simp only [pure_ok, Prod.mk.injEq] at h
      exact ⟨h.2, by simp [h.1]⟩
    | some st =>
      simp only at h
      cases hp : st.inputPayload with
      | none => simp [hp] at h
      | some payload =>
        simp only [hp, bind_ok, oracle_ok, Prod.mk.injEq] at h
        obtain ⟨o', t₃, ⟨rfl, rfl⟩, h⟩ := h
        cases hd : o'.decoded with
        | none => simp [hd] at h
        | some json =>
          simp only [hd] at h
          cases hq : prepare d identity key json o'.encoded with
          | error e => simp [hq] at h
          | ok q =>
            simp only [hq] at h
            split at h
            · simp at h
            · simp only [bind_ok, pure_ok, Prod.mk.injEq] at h
              obtain ⟨_, t₄, ha, rfl, rfl⟩ := h
              cases authorize_ok ha
              exact ⟨rfl, fun q' hq' => by cases hq'; exact (prepare_ok hq).1⟩

/-! ## 表の変化 -/

def Confirmed (d : Definition ρ) (i : Nat) (w : World) (ref : OperationReference) (fingerprint : String)
    (raw : CommandJson) : Prop :=
  ∃ value input canonical result, (i, Event.lookup ref value) ∈ w.log ∧
    canonicalCommandJson value = some raw ∧ d.result raw.toValue = some result ∧
    canonicalCommandJson input = some canonical ∧ d.digest canonical = fingerprint ∧
    d.matches input result = true

structure Row.Fresh (row : Row) : Prop where
  kind : row.kind = .external
  status : row.status = .pending
  auditState : row.auditState = .pending
  result : row.result = none
  payload : row.inputPayload ≠ none
  identified : commandIdentifier row.dispatchKey = some row.dispatchKey

inductive Change (d : Definition ρ) (i : Nat) (w : World) : Tables → Prop where
  | same : Change d i w w.tables
  | insert {ref : OperationReference} (row : Row) (hnone : w.tables.rows ref = none) (hrow : row.Fresh)
      (href : reference d ref.toCommandIdentity ref.operationId = .ok ref) :
      Change d i w (w.tables.setRow ref row)
  | unknown {ref : OperationReference} (row : Row) (hrow : w.tables.rows ref = some row) (hopen : isOpen row = true) :
      Change d i w (w.tables.setRow ref { row with status := .unknown })
  | confirm {ref : OperationReference} (row : Row) (raw : CommandJson)
      (hrow : w.tables.rows ref = some row) (hopen : isOpen row = true) (hraw : Confirmed d i w ref row.inputFingerprint raw) :
      Change d i w (w.tables.setRow ref { row with status := .confirmed, result := some raw })
  | flush {ref : OperationReference} (row : Row) (a : AuditRow) (hrow : w.tables.rows ref = some row)
      (hstatus : row.status = .confirmed) (haudit : row.auditState = .pending)
      (hempty : w.tables.audits ref = []) :
      Change d i w ((w.tables.addAudit ref a).setRow ref { row with auditState := .complete })
  | reject {ref : OperationReference} (row : Row) (a : AuditRow) (hrow : w.tables.rows ref = some row)
      (hopen : isOpen row = true) (hempty : w.tables.audits ref = []) :
      Change d i w
        ((w.tables.addAudit ref a).setRow ref { row with status := .rejected, auditState := .complete })
  | redact {ref : OperationReference} (row : Row) (hrow : w.tables.rows ref = some row) (haudit : row.auditState = .complete) :
      Change d i w (w.tables.setRow ref { row with inputPayload := none })

theorem Row.state_confirmed {a raw} (h : row.state = some (.confirmed a raw)) :
    row.status = .confirmed ∧ row.auditState = a ∧ row.result = some raw := by
  unfold Row.state at h
  split at h <;> simp_all

theorem Row.state_open (h : row.state = some .pending ∨ row.state = some .unknown) : isOpen row = true ∧ row.auditState = .pending := by
  unfold Row.state at h
  split at h <;> simp_all [isOpen]

variable {st : ReceiptState CommandJson}

theorem decodes_open {r} (h : st.Decodes res r) (hr : r = .pending ∨ r = .unknown) : st = .pending ∨ st = .unknown := by
  cases st <;> cases r <;> simp_all [ReceiptState.Decodes]

theorem decodes_confirmed {a x} (h : st.Decodes res (.confirmed a x)) : ∃ raw, st = .confirmed a raw := by
  cases st <;> simp_all [ReceiptState.Decodes]

theorem Shows.open {receipt} (h : Shows d q kind row receipt) (hs : receipt.state = .pending ∨ receipt.state = .unknown) :
    isOpen row = true := by
  obtain ⟨st, hst, hd⟩ := h.state
  rcases decodes_open hd hs with rfl | rfl
  · exact (Row.state_open (Or.inl hst)).1
  · exact (Row.state_open (Or.inr hst)).1

/-! ## 本体ごとの変化 -/

theorem lookupBody_change (h : (do lockRequest d q p; find d q .external) o t = .ok (r, t')) : t' = t := by
  simp only [bind_ok] at h
  obtain ⟨_, t₁, hl, hf⟩ := h
  cases lockRequest_ok hl
  exact (find_ok hf).1

theorem pure_change {x y : α} (h : (pure x : Session α) o w.tables = .ok (y, t')) : Change d i w t' := by
  cases pure_ok.mp h
  exact .same

theorem flushAuditBody_change (h : flushAuditBody d q p o w.tables = .ok (r, t')) : Change d i w t' := by
  simp only [flushAuditBody, bind_ok] at h
  obtain ⟨_, t₁, hl, receipt, t₂, hf, h⟩ := h
  cases lockRequest_ok hl
  obtain ⟨rfl, ⟨-, rfl⟩ | ⟨row, rc, hrow, rfl, hsh, -⟩⟩ := find_ok hf
  · exact pure_change h
  · cases hs : rc.state with
    | confirmed a res =>
      cases a with
      | complete =>
        simp only [hs] at h
        exact pure_change h
      | pending =>
        simp only [hs, bind_ok] at h
        obtain ⟨_, t₃, ha, _, t₄, hc, hf'⟩ := h
        obtain ⟨hempty, a, rfl⟩ := audit_ok ha
        obtain ⟨st, hst, hd⟩ := hsh.state
        rw [hs] at hd
        obtain ⟨raw, rfl⟩ := decodes_confirmed hd
        obtain ⟨hstatus, haudit, -⟩ := Row.state_confirmed hst
        rw [(find_ok hf').1]
        rcases updateWhere_ok hc with ⟨-, hno⟩ | ⟨row', hro', -, rfl⟩
        · exact absurd (hno row hrow) (by simp)
        · rw [addAudit_rows, hrow] at hro'
          cases hro'
          exact .flush row a hrow hstatus haudit hempty
    | _ =>
      simp only [hs] at h
      exact pure_change h

theorem settleLookup_change {asked} (hrow : w.tables.rows q.reference = some row) (hopen : isOpen row = true)
    (hco : ∀ raw, conf = some raw → Confirmed d i w q.reference row.inputFingerprint raw)
    (h : settleLookup q conf asked o w.tables = .ok (u, t')) : Change d i w t' := by
  cases conf with
  | some raw =>
    rcases updateWhere_ok h with ⟨rfl, -⟩ | ⟨row', hro', -, rfl⟩
    · exact .same
    · rw [hrow] at hro'
      cases hro'
      exact .confirm row raw hrow hopen (hco raw rfl)
  | none =>
    cases asked with
    | true =>
      rcases updateWhere_ok h with ⟨rfl, -⟩ | ⟨row', hro', -, rfl⟩
      · exact .same
      · rw [hrow] at hro'
        cases hro'
        exact .unknown row hrow hopen
    | false =>
      simp only [settleLookup, Bool.false_eq_true, ↓reduceIte, pure_ok, Prod.mk.injEq] at h
      rw [h.2]
      exact .same

theorem reconcileBody_change {asked} (hco : ∀ raw, conf = some raw → Confirmed d i w q.reference q.fingerprint raw)
    (h : reconcileBody d q p conf asked o w.tables = .ok (r, t')) : Change d i w t' := by
  simp only [reconcileBody, bind_ok] at h
  obtain ⟨_, t₁, hl, receipt, t₂, hf, h⟩ := h
  cases lockRequest_ok hl
  obtain ⟨rfl, ⟨-, rfl⟩ | ⟨row, rc, hrow, rfl, hsh, -⟩⟩ := find_ok hf
  · exact pure_change h
  · cases hs : rc.state with
    | confirmed a res | rejected =>
      simp only [hs] at h
      exact pure_change h
    | pending | unknown =>
      simp only [hs, bind_ok] at h
      obtain ⟨u, t₃, hc, hf'⟩ := h
      rw [(find_ok hf').1]
      exact settleLookup_change hrow (hsh.open (by simp [hs])) (by rw [hsh.fingerprint]; exact hco) hc

theorem insertReceipt_ok {raw} (h : insertReceipt d q kind raw o t = .ok (u, t')) :
    t.rows q.reference = none ∧ ∃ row, t' = t.setRow q.reference row ∧ row.kind = kind ∧
      row.inputFingerprint = q.fingerprint ∧ row.inputPayload = some q.payload ∧
      row.state = some (match raw with | none => .pending | some r => .confirmed .complete r) := by
  simp only [insertReceipt, bind_ok, oracle_ok, Prod.mk.injEq] at h
  obtain ⟨o', t₁, ⟨rfl, rfl⟩, h⟩ := h
  obtain ⟨hnone, rfl⟩ := insert_ok h
  refine ⟨hnone, _, rfl, rfl, rfl, rfl, ?_⟩
  cases raw <;> rfl

theorem acquireBody_change {r} (hq : q.Valid d) (h : acquireBody d q o w.tables = .ok (r, t')) :
    Change d i w t' ∧ (r.1 = true → w.tables.rows q.reference = none ∧
      ∃ row, t'.rows q.reference = some row ∧ row.status = .pending ∧ row.dispatchKey = r.2.dispatchKey) := by
  simp only [acquireBody, bind_ok] at h
  obtain ⟨_, t₁, hl, receipt, t₂, hf, h⟩ := h
  cases lockRequest_ok hl
  obtain ⟨rfl, ⟨hnone, rfl⟩ | ⟨row, rc, hrow, rfl, hsh, -⟩⟩ := find_ok hf
  · simp only at h
    split at h
    · simp at h
    · simp only [bind_ok] at h
      obtain ⟨_, t₃, hi, fresh, t₄, hf', h⟩ := h
      obtain ⟨-, row, rfl, hki, -, hpa, hsta⟩ := insertReceipt_ok hi
      obtain ⟨rfl, ⟨hn, rfl⟩ | ⟨row', rc, hro', rfl, hsh, -⟩⟩ := find_ok hf'
      · simp at hn
      · simp only [pure_ok, Prod.mk.injEq] at h
        obtain ⟨rfl, rfl⟩ := h
        simp only [setRow_rows, ↓reduceIte, some.injEq] at hro'
        subst hro'
        have hfr : row.Fresh := by
          simp only [Row.state] at hsta
          split at hsta <;> simp_all
          exact ⟨hki, by assumption, by assumption, by assumption, by simp [hpa], hsh.identified⟩
        exact ⟨.insert row hnone hfr hq.reference, fun _ => ⟨hnone, row, by simp, hfr.status, hsh.dispatchKey.symm⟩⟩
  · simp only [pure_ok, Prod.mk.injEq] at h
    obtain ⟨rfl, rfl⟩ := h
    exact ⟨.same, by simp⟩

theorem rejectBody_change {event details r} (h : rejectBody d q event details o w.tables = .ok (r, t')) : Change d i w t' := by
  simp only [rejectBody, bind_ok] at h
  obtain ⟨_, t₁, hl, receipt, t₂, hf, h⟩ := h
  cases lockRequest_ok hl
  obtain ⟨rfl, ⟨-, rfl⟩ | ⟨row, rc, hrow, rfl, hsh, -⟩⟩ := find_ok hf
  · simp at h
  · cases hs : rc.state with
    | confirmed a res | rejected =>
      simp only [hs] at h
      exact pure_change h
    | pending | unknown =>
      have hopen := hsh.open (by simp [hs])
      simp only [hs] at h
      split at h
      · simp at h
      · simp only [bind_ok, orThrow_ok, oracle_ok, mayThrow_ok, Prod.mk.injEq] at h
        obtain ⟨json, t₃, ⟨-, rfl⟩, o', _, ⟨rfl, rfl⟩, _, t₄, ⟨-, rfl⟩, _, t₅, ha, _, t₆, hr, rj, t₇, hf', h⟩ := h
        obtain ⟨hempty, rfl⟩ := auditInsert_ok ha
        obtain ⟨rfl, ⟨-, rfl⟩ | ⟨row', rc', hro', rfl, hsh', -⟩⟩ := find_ok hf'
        · simp at h
        · cases hs' : rc'.state with
          | rejected =>
            simp only [hs', pure_ok, Prod.mk.injEq] at h
            rw [h.2]
            rcases updateWhere_ok hr with ⟨-, hno⟩ | ⟨row'', hro'', -, rfl⟩
            · have := hno row hrow
              simp [hopen, hsh.kind_eq] at this
            · rw [addAudit_rows, hrow] at hro''
              cases hro''
              exact .reject row _ hrow hopen hempty
          | _ => simp [hs'] at h

theorem recoverCompletedBody_change (h : recoverCompletedBody d ref o t = .ok (r, t')) : t' = t := by
  simp only [recoverCompletedBody, bind_ok] at h
  obtain ⟨_, t₁, hl, h⟩ := h
  cases lock_ok hl
  split at h
  · simp at h
  · simp only [bind_ok] at h
    obtain ⟨_, t₂, hc, stored, t₃, hre, h⟩ := h
    obtain ⟨ht, hca⟩ := read_ok hre
    rw [checkAuthorization_ok hc] at ht
    rw [ht] at h
    obtain ⟨-, rfl⟩ | ⟨row, st, -, -, rfl⟩ := hca
    · simp only [pure_ok, Prod.mk.injEq] at h
      exact h.2
    · have hte : ∀ r' : Option (DurableCommandReceipt ρ), (if st.kind ≠ .external then
            throwCode .COMMAND_RECEIPT_INVALID
          else do
            let receipt ← orThrow .other (decodeDurableCommandReceipt st.receipt d.result)
            if receipt.reference ≠ ref then throwCode .COMMAND_RECEIPT_INVALID
            else return some receipt) o t = .ok (r', t') → t' = t := by
        intro r' h'
        split at h'
        · simp at h'
        · simp only [bind_ok, orThrow_ok] at h'
          obtain ⟨rc, t₄, ⟨-, rfl⟩, h'⟩ := h'
          split at h'
          · simp at h'
          · simp only [pure_ok, Prod.mk.injEq] at h'
            exact h'.2
      cases hs : st.receipt.state with
      | pending | unknown => simp only [hs, pure_ok, Prod.mk.injEq] at h; exact h.2
      | rejected => simp only [hs] at h; exact hte r h
      | confirmed a raw =>
        cases a with
        | pending => simp only [hs, pure_ok, Prod.mk.injEq] at h; exact h.2
        | complete => simp only [hs] at h; exact hte r h

theorem redact_change (h : redact ref o w.tables = .ok (u, t')) : Change d i w t' := by
  simp only [redact, bind_ok, oracle_ok, Prod.mk.injEq] at h
  obtain ⟨o', t₁, ⟨rfl, rfl⟩, h⟩ := h
  split at h
  · rcases updateWhere_ok h with ⟨rfl, -⟩ | ⟨row, hrow, hc, rfl⟩
    · exact .same
    · simp only [Bool.and_eq_true, beq_iff_eq] at hc
      exact .redact row hrow hc.1.2
  · exact pure_change h

end Supacloud.Commands
