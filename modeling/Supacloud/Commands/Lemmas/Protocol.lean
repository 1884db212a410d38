import Supacloud.Commands.Lemmas.Session

/-!
# 外部コマンドの呼び出しの並行実行

どの呼び出しも `Effect` に従い（`ExternalCall.safe`）、`Effect` は不変条件
`ExternalInv` を保つ。
-/

namespace Supacloud.Commands

open Contracts Library Session Proc.Safe List

variable {ρ : Type} {d : Definition ρ} {i j : Nat} {o : Oracle} {t t' : Tables} {w w' : World}
  {ref : OperationReference} {identity : CommandIdentity} {key : String} {l : List (Nat × Event)} {p : Option String} {q : Prepared}
  {value : JsValue}

def NoSend (i : Nat) (w : World) : Prop := ∀ ref key, (i, Event.send ref key) ∉ w.log

def InsertedKey (i : Nat) (ref : OperationReference) (key : String) (l : List (Nat × Event)) : Prop :=
  ∃ b a row, (i, Event.committed b a) ∈ l ∧ b.rows ref = none ∧ a.rows ref = some row ∧ row.status = .pending ∧ row.dispatchKey = key

def InsertedBy (i : Nat) (ref : OperationReference) (l : List (Nat × Event)) : Prop :=
  ∃ b a, (i, Event.committed b a) ∈ l ∧ b.rows ref = none ∧ a.rows ref ≠ none

theorem InsertedKey.by (h : InsertedKey i ref key l) : InsertedBy i ref l := by
  obtain ⟨b, a, row, hm, hb, ha, -⟩ := h
  exact ⟨b, a, hm, hb, by simp [ha]⟩

theorem InsertedKey.mono {l'} (h : InsertedKey i ref key l) (hl : ∀ x ∈ l, x ∈ l') : InsertedKey i ref key l' := by
  obtain ⟨b, a, row, hm, h⟩ := h
  exact ⟨b, a, row, hl _ hm, h⟩

theorem InsertedBy.mono {l'} (h : InsertedBy i ref l) (hl : ∀ x ∈ l, x ∈ l') : InsertedBy i ref l' := by
  obtain ⟨b, a, hm, h⟩ := h
  exact ⟨b, a, hl _ hm, h⟩

inductive Effect (d : Definition ρ) (i : Nat) (w : World) : World → Prop where
  | idle : Effect d i w w
  | lookup (ref : OperationReference) (value : JsValue) : Effect d i w (w.record i (.lookup ref value))
  | send (ref : OperationReference) (key : String) (hno : NoSend i w) (hin : InsertedKey i ref key w.log) :
      Effect d i w (w.record i (.send ref key))
  | commit (t : Tables) (h : Change d i w t) : Effect d i w (w.commit i t)

/-! ## 不変条件 -/

def SendsOk : List (Nat × Event) → Prop
  | [] => True
  | (i, e) :: rest => SendsOk rest ∧ ∀ ref key, e = .send ref key → InsertedKey i ref key rest ∧ ∀ j key', (j, Event.send ref key') ∉ rest

def AuditOk (t : Tables) (ref : OperationReference) : Prop :=
  match t.rows ref with
  | some row => (t.audits ref).length = if row.auditState = .complete then 1 else 0
  | none => t.audits ref = []

def OpenOk (t : Tables) (ref : OperationReference) : Prop :=
  ∀ row, t.rows ref = some row → isOpen row = true → row.auditState = .pending

structure ExternalInv (w : World) : Prop where
  present : ∀ i ref, InsertedBy i ref w.log → w.tables.rows ref ≠ none
  unique : ∀ i j ref, InsertedBy i ref w.log → InsertedBy j ref w.log → i = j
  sender : ∀ i ref key, (i, Event.send ref key) ∈ w.log → InsertedBy i ref w.log
  sends : SendsOk w.log
  audit : ∀ ref, AuditOk w.tables ref
  openOk : ∀ ref, OpenOk w.tables ref

theorem ExternalInv.initial : ExternalInv World.initial where
  present := by rintro i ref ⟨b, a, h, -⟩; simp [World.initial] at h
  unique := by rintro i j ref ⟨b, a, h, -⟩; simp [World.initial] at h
  sender := by intro i ref key h; simp [World.initial] at h
  sends := trivial
  audit := fun _ => rfl
  openOk := by intro ref row h; simp [World.initial, Tables.empty] at h

theorem auditOk_setRow {row : Row} {a : Option AuditRow} (h : ∀ r, AuditOk t r)
    (hnew : ((match a with | some x => x :: t.audits ref | none => t.audits ref)).length =
      if row.auditState = .complete then 1 else 0) (r : OperationReference) :
    AuditOk ((match a with | some x => t.addAudit ref x | none => t).setRow ref row) r := by
  have hr := h r
  unfold AuditOk at hr ⊢
  by_cases he : r = ref
  · subst he
    cases a with
    | none | some x => simpa using hnew
  · cases a with
    | none | some x => simpa [he] using hr

theorem openOk_setRow {row} (h : ∀ r, OpenOk t r) (hnew : isOpen row = true → row.auditState = .pending)
    (r) : OpenOk (t.setRow ref row) r := by
  intro row' hro' hop
  rw [setRow_rows] at hro'
  split at hro'
  · cases hro'
    exact hnew hop
  · exact h r row' hro' hop

theorem AuditOk.row {row} (h : AuditOk t ref) (hrow : t.rows ref = some row) :
    (t.audits ref).length = if row.auditState = .complete then 1 else 0 := by
  simpa [AuditOk, hrow] using h

theorem Change.auditOk (h : Change d i w t) (hA : ∀ r, AuditOk w.tables r) (hO : ∀ r, OpenOk w.tables r) :
    (∀ r, AuditOk t r) ∧ ∀ r, OpenOk t r := by
  cases h with
  | same => exact ⟨hA, hO⟩
  | @insert ref row hnn hrow _ =>
    have hem : w.tables.audits ref = [] := by simpa [AuditOk, hnn] using hA ref
    exact ⟨auditOk_setRow (a := none) hA (by simp [hem, hrow.auditState]), openOk_setRow hO (fun _ => hrow.auditState)⟩
  | @unknown ref row hrow hop | @confirm ref row raw hrow hop hraw =>
    exact ⟨auditOk_setRow (a := none) hA (by simpa using (hA ref).row hrow), openOk_setRow hO (fun _ => hO ref row hrow hop)⟩
  | @flush ref row a hrow hsts hau hem =>
    exact ⟨auditOk_setRow (a := some a) hA (by simp [hem]), openOk_setRow (t := w.tables.addAudit ref a) hO (by simp [isOpen, hsts])⟩
  | @reject ref row a hrow hop hem =>
    exact ⟨auditOk_setRow (a := some a) hA (by simp [hem]), openOk_setRow (t := w.tables.addAudit ref a) hO (by simp [isOpen])⟩
  | @redact ref row hrow hau =>
    exact ⟨auditOk_setRow (a := none) hA (by simpa using (hA ref).row hrow), openOk_setRow hO (fun h => hO ref row hrow h)⟩

theorem Change.rows_ne_none (h : Change d i w t) (hne : w.tables.rows ref ≠ none) : t.rows ref ≠ none := by
  cases h <;> simp only [setRow_rows, addAudit_rows, ne_eq] at hne ⊢ <;> first | exact hne | (split <;> simp_all)

theorem Effect.inv (h : Effect d i w w') (hI : ExternalInv w) : ExternalInv w' := by
  cases h with
  | idle => exact hI
  | lookup ref value =>
    have hby : ∀ {k r}, InsertedBy k r (w.record i (.lookup ref value)).log → InsertedBy k r w.log := by
      rintro k r ⟨b, a, hm, h⟩
      exact ⟨b, a, by simpa using hm, h⟩
    exact {
      present := fun k r hk => hI.present k r (hby hk)
      unique := fun k l r hk hl => hI.unique k l r (hby hk) (hby hl)
      sender := fun k r key hk => (hI.sender k r key (by simpa using hk)).mono (by simp +contextual)
      sends := ⟨hI.sends, by simp⟩
      audit := hI.audit
      openOk := hI.openOk }
  | send ref key hno hin =>
    have hby : ∀ {k r}, InsertedBy k r (w.record i (.send ref key)).log → InsertedBy k r w.log := by
      rintro k r ⟨b, a, hm, h⟩
      exact ⟨b, a, by simpa using hm, h⟩
    refine {
      present := fun k r hk => hI.present k r (hby hk)
      unique := fun k l r hk hl => hI.unique k l r (hby hk) (hby hl)
      sender := ?_
      sends := ⟨hI.sends, ?_⟩
      audit := hI.audit
      openOk := hI.openOk }
    · intro k r key' hk
      simp only [record_log, mem_cons, Prod.mk.injEq, Event.send.injEq] at hk
      rcases hk with ⟨rfl, rfl, rfl⟩ | hk
      · exact hin.by.mono (by simp +contextual)
      · exact (hI.sender k r key' hk).mono (by simp +contextual)
    · -- 行を作った呼び出しは一つなので、ほかに送信した者はいない。
      intro r key' he
      cases he
      refine ⟨hin, fun k key'' hk => ?_⟩
      have hki := hI.unique k i ref (hI.sender k ref key'' hk) hin.by
      subst hki
      exact hno ref key'' hk
  | commit t hc =>
    have hsp : ∀ {k r}, InsertedBy k r (w.commit i t).log →
        InsertedBy k r w.log ∨ (k = i ∧ w.tables.rows r = none ∧ t.rows r ≠ none) := by
      rintro k r ⟨b, a, hm, hb, ha⟩
      simp only [commit_log, mem_cons, Prod.mk.injEq, Event.committed.injEq] at hm
      rcases hm with ⟨rfl, rfl, rfl⟩ | hm
      · exact Or.inr ⟨rfl, hb, ha⟩
      · exact Or.inl ⟨b, a, hm, hb, ha⟩
    obtain ⟨hA, hO⟩ := hc.auditOk hI.audit hI.openOk
    refine {
      present := ?_
      unique := ?_
      sender := ?_
      sends := ⟨hI.sends, by simp⟩
      audit := hA
      openOk := hO }
    · intro k r hk
      rcases hsp hk with hk | ⟨-, -, hne⟩
      · exact hc.rows_ne_none (hI.present k r hk)
      · exact hne
    · grind [hI.unique, hI.present]
    · intro k r key hk
      exact (hI.sender k r key (by simpa using hk)).mono (by simp +contextual)

/-! ## 依存と保証 -/

def Others (i : Nat) (w w' : World) : Prop := ∃ l, w'.log = l ++ w.log ∧ ∀ x ∈ l, x.1 ≠ i

theorem Others.refl (w) : Others i w w := ⟨[], rfl, by simp⟩

theorem Others.trans {w''} (h : Others i w w') (h' : Others i w' w'') : Others i w w'' := by
  obtain ⟨l, hl, hi⟩ := h
  obtain ⟨l', hl', hi'⟩ := h'
  refine ⟨l' ++ l, by rw [hl', hl, append_assoc], fun x hx => ?_⟩
  rcases mem_append.mp hx with hx | hx
  · exact hi' x hx
  · exact hi x hx

theorem Effect.others (h : Effect d i w w') (hij : i ≠ j) : Others j w w' := by
  cases h with
  | idle => exact .refl w
  | lookup ref value => exact ⟨[(i, .lookup ref value)], rfl, by simpa using hij⟩
  | send ref key _ _ => exact ⟨[(i, .send ref key)], rfl, by simpa using hij⟩
  | commit t _ => exact ⟨[(i, .committed w.tables t)], rfl, by simpa using hij⟩

theorem Others.mem (h : Others i w w') {x} (hx : x ∈ w.log) : x ∈ w'.log := by
  obtain ⟨l, hl, -⟩ := h
  rw [hl]
  exact mem_append_right l hx

theorem Others.noSend (h : Others i w w') (hn : NoSend i w) : NoSend i w' := by
  obtain ⟨l, hl, hi⟩ := h
  intro ref key hm
  rw [hl] at hm
  rcases mem_append.mp hm with hm | hm
  · exact hi _ hm rfl
  · exact hn ref key hm

theorem Others.confirmed {fp raw} (h : Others i w w') (hc : Confirmed d i w ref fp raw) : Confirmed d i w' ref fp raw := by
  obtain ⟨v, inp, c, res, hm, hr⟩ := hc
  exact ⟨v, inp, c, res, h.mem hm, hr⟩

abbrev TaskSafe {α : Type} (d : Definition ρ) (i : Nat) (Q : α → World → Prop) (x : Task α) (w : World) : Prop :=
  Proc.Safe ExternalInv (Others i) (Effect d i) (fun _ _ => True) (Proc.Post Q (fun _ _ => True)) x.run w

section Safe

variable {α β : Type} {Q : α → World → Prop} {Q' : β → World → Prop}

theorem TaskSafe.bind {x f} (h : TaskSafe d i Q x w)
    (hf : ∀ a w', ExternalInv w' → Q a w' → TaskSafe d i Q' (f a) w') : TaskSafe d i Q' (x >>= f) w :=
  exceptBind Others.refl (fun _ _ _ _ _ _ => trivial) h hf

theorem TaskSafe.pure {a} (h : ∀ w', Q a w') : TaskSafe d i Q (Pure.pure a : Task α) w :=
  exceptPure fun w' _ _ => h w'

theorem TaskSafe.throw {e} : TaskSafe d i Q (MonadExcept.throw e : Task α) w :=
  exceptThrow fun _ _ _ => trivial

theorem TaskSafe.tryCatch {x} {f : CommandErrorCode → Task α} (h : TaskSafe d i (fun _ _ => True) x w)
    (hf : ∀ e w', TaskSafe d i (fun _ _ => True) (f e) w') : TaskSafe d i (fun _ _ => True) (MonadExcept.tryCatch x f) w :=
  exceptTry Others.refl (fun _ _ _ _ _ _ => trivial) h (fun e w' _ _ => hf e w')

theorem TaskSafe.lift {f} (h : ∀ w', ExternalInv w' → Others i w w' → ∀ o, Effect d i w' (f o w').2 ∧
      ∀ w'', Others i (f o w').2 w'' → Q (f o w').1 w'') (hQ : ∀ a w w', Others i w w' → Q a w → Q a w') :
    TaskSafe d i Q (ExceptT.lift (Proc.atomic f) : Task α) w := by
  refine exceptLift Others.refl (fun a w w' _ hr hq => hQ a w w' hr hq) (atomic ?_)
  intro w' hi hr o _
  obtain ⟨he, hq⟩ := h w' hi hr o
  exact ⟨he.inv hi, he, fun w'' _ h'' => hq w'' h''⟩

theorem TaskSafe.transaction {body} (h : ∀ w', ExternalInv w' → Others i w w' → ∀ o a t, body o w'.tables = .ok (a, t) →
      Change d i w' t ∧ ∀ w'', Others i (w'.commit i t) w'' → Q a w'') : TaskSafe d i Q (Commands.transaction i ref body) w := by
  refine atomic fun w' hi hr o _ => ?_
  -- 確定した場合も、しなかった場合も、一段の変化は `Effect` である。
  rcases transact_cases i ref body o w' with ⟨hw, e, he⟩ | ⟨a, t, hb, hw, hres⟩
  · rw [hw, he]
    exact ⟨hi, .idle, fun w'' _ _ => trivial⟩
  · obtain ⟨hc, hq⟩ := h w' hi hr o a t hb
    rw [hw]
    refine ⟨(Effect.commit t hc).inv hi, .commit t hc, fun w'' _ h'' => ?_⟩
    rcases hres with hres | ⟨e, hres⟩
    · rw [hres]
      exact hq w'' h''
    · rw [hres]
      trivial

end Safe

/-! ## 呼び出しごとの安全性 -/

theorem prepareTask_safe : TaskSafe d i (fun q _ => q.Valid d) (prepareTask d identity key value) w := by
  refine atomic fun w' hi hr o _ => ⟨hi, .idle, fun w'' _ _ => ?_⟩
  cases h : prepare d identity key value o.encoded with
  | error e => trivial
  | ok q => exact (prepare_ok h).1

theorem restoreTask_safe : TaskSafe d i (fun r _ => ∀ q, r = some q → q.Valid d) (restoreTask d i identity key p) w := by
  unfold restoreTask
  split
  · exact TaskSafe.throw
  · refine TaskSafe.transaction fun w' _ _ o a t hb => ?_
    obtain ⟨rfl, hq⟩ := restore_ok hb
    exact ⟨.same, fun _ _ => hq⟩

theorem lookup_safe : TaskSafe d i (fun _ _ => True) (lookup d i identity key value p) w :=
  prepareTask_safe.bind fun q w' _ _ => TaskSafe.transaction fun w'' _ _ o a t hb => by
    rw [lookupBody_change hb]
    exact ⟨.same, fun _ _ => trivial⟩

theorem flushAudit_safe : TaskSafe d i (fun _ _ => True) (flushAudit d i identity key value p) w :=
  prepareTask_safe.bind fun _ _ _ _ => TaskSafe.transaction fun _ _ _ _ _ _ hb =>
    ⟨flushAuditBody_change hb, fun _ _ => trivial⟩

theorem lookupConfirmation_effect : Effect d i w (lookupConfirmation d i q o w).2 := by
  unfold lookupConfirmation
  split
  · exact .idle
  · simp only
    split
    · exact .lookup _ _
    · split
      · exact .lookup _ _
      · exact .lookup _ _

theorem lookupConfirmation_confirmed (hq : q.Valid d) {raw} (h : (lookupConfirmation d i q o w).1 = some raw) :
    Confirmed d i (lookupConfirmation d i q o w).2 q.reference q.fingerprint raw := by
  unfold lookupConfirmation at h ⊢
  cases hl : o.lookup with
  | none => simp [hl] at h
  | some value =>
    simp only [hl] at h ⊢
    cases hc : canonicalCommandJson value with
    | none => simp [hc] at h
    | some raw' =>
      simp only [hc] at h ⊢
      cases hr : d.result raw'.toValue with
      | none => simp [hr] at h
      | some res =>
        simp only [hr] at h ⊢
        split at h
        · rename_i hm
          cases h
          exact ⟨value, q.input, q.canonical, res, by simp, hc, hr, hq.canonical, hq.fingerprint.symm, hm⟩
        · cases h

theorem reconcileFlush_safe {r} : TaskSafe d i (fun _ _ => True) (reconcileFlush d i identity key value p r) w := by
  unfold reconcileFlush
  split
  · exact TaskSafe.pure fun _ => trivial
  · grind [TaskSafe.tryCatch, flushAudit_safe, TaskSafe.throw, TaskSafe.pure]

theorem reconcileTransaction_safe {conf asked} (hco : ∀ raw, conf = some raw → Confirmed d i w q.reference q.fingerprint raw) :
    TaskSafe d i (fun _ _ => True) (transaction i q.reference (reconcileBody d q p conf asked)) w :=
  TaskSafe.transaction fun _ _ hr _ _ _ hb =>
    ⟨reconcileBody_change (fun raw h => hr.confirmed (hco raw h)) hb, fun _ _ => trivial⟩

theorem reconcile_safe : TaskSafe d i (fun _ _ => True) (reconcile d i identity key value p) w := by
  refine prepareTask_safe.bind fun q w' _ hq => lookup_safe.bind fun r w'' _ _ => ?_
  cases r with
  | none => exact TaskSafe.pure fun _ => trivial
  | some before =>
    have hask : TaskSafe d i (fun _ _ => True)
        (do
          let confirmation ← ExceptT.lift (Proc.atomic (lookupConfirmation d i q))
          let receipt ← transaction i q.reference (reconcileBody d q p confirmation true)
          reconcileFlush d i identity key value p receipt) w'' := by
      refine TaskSafe.bind
        (Q := fun conf w => ∀ raw, conf = some raw → Confirmed d i w q.reference q.fingerprint raw)
        (TaskSafe.lift (fun w₁ _ _ o => ⟨lookupConfirmation_effect, fun w₂ h₂ raw hraw =>
            h₂.confirmed (lookupConfirmation_confirmed hq hraw)⟩)
          (fun _ _ _ h hc raw hraw => h.confirmed (hc raw hraw))) fun conf w₁ _ hco => ?_
      exact (reconcileTransaction_safe hco).bind fun _ _ _ _ => reconcileFlush_safe
    cases hs : before.state with
    | rejected => simp only [hs]; exact TaskSafe.pure fun _ => trivial
    | confirmed a res =>
      simp only [hs]
      exact (reconcileTransaction_safe (by simp)).bind fun _ _ _ _ => reconcileFlush_safe
    | pending | unknown => simp only [hs]; exact hask

theorem rejectTask_safe {event details} : TaskSafe d i (fun _ _ => True) (rejectTask d i q event details) w :=
  TaskSafe.bind (Q := fun _ _ => True) (TaskSafe.transaction fun _ _ _ _ _ _ hb =>
      ⟨rejectBody_change hb, fun _ _ => trivial⟩)
    fun _ _ _ _ => TaskSafe.pure fun _ => trivial

theorem reconcileSent_safe : TaskSafe d i (fun _ _ => True) (reconcileSent d i identity key q) w := by
  refine reconcile_safe.bind fun r _ _ _ => ?_
  cases r with
  | none => exact TaskSafe.throw
  | some receipt => exact TaskSafe.pure fun _ => trivial

theorem send_safe (hno : NoSend i w) (hin : InsertedKey i q.reference key w.log) : TaskSafe d i (fun _ _ => True) (send i q key) w := by
  refine TaskSafe.bind (Q := fun _ _ => True) (TaskSafe.lift (fun w' _ hr o => ⟨?_, fun _ _ => trivial⟩)
    (fun _ _ _ _ _ => trivial)) fun _ _ _ _ => TaskSafe.lift (fun _ _ _ _ => ⟨.idle, fun _ _ => trivial⟩)
      (fun _ _ _ _ _ => trivial)
  exact .send q.reference key (hr.noSend hno) (hin.mono fun x hx => hr.mem hx)

theorem dispatch_safe {dispatchKey} (hno : NoSend i w) (hin : InsertedKey i q.reference dispatchKey w.log) :
    TaskSafe d i (fun _ _ => True) (dispatch d i identity key q dispatchKey) w := by
  refine (send_safe hno hin).bind fun outcome w' _ _ => ?_
  have hre : TaskSafe d i (fun _ _ => True)
      (tryCatch (reconcileSent d i identity key q) fun _ => throw .COMMAND_OUTCOME_UNKNOWN) w' :=
    TaskSafe.tryCatch reconcileSent_safe fun _ _ => TaskSafe.throw
  split
  · exact TaskSafe.tryCatch rejectTask_safe fun _ _ => TaskSafe.throw
  · exact hre

theorem acquire_safe (hq : q.Valid d) (hno : NoSend i w) :
    TaskSafe d i (fun r w => NoSend i w ∧ (r.1 = true → InsertedKey i q.reference r.2.dispatchKey w.log))
      (transaction i q.reference (acquireBody d q)) w := by
  refine TaskSafe.transaction fun w' _ hr o a t hb => ?_
  obtain ⟨hc, hnew⟩ := acquireBody_change (i := i) hq hb
  refine ⟨hc, fun w'' h'' => ⟨h''.noSend fun ref key hm => ?_, fun ha => ?_⟩⟩
  · exact hr.noSend hno ref key (by simpa using hm)
  · obtain ⟨hnn, row, hrow, hsts, hkey⟩ := hnew ha
    exact ⟨w'.tables, t, row, h''.mem (by simp), hnn, hrow, hsts, hkey⟩

theorem executePrepared_safe (hno : NoSend i w) : TaskSafe d i (fun _ _ => True) (executePrepared d i identity key value) w := by
  refine TaskSafe.bind (Q := fun q w => q.Valid d ∧ NoSend i w) ?_ fun q w' _ hq => ?_
  · exact atomic fun w' hi hr o _ => ⟨hi, .idle, fun w'' _ h'' => by
      cases h : prepare d identity key value o.encoded with
      | error e => trivial
      | ok q => exact ⟨(prepare_ok h).1, h''.noSend (hr.noSend hno)⟩⟩
  · refine (acquire_safe hq.1 hq.2).bind fun r w'' _ hr => ?_
    obtain ⟨acquired, receipt⟩ := r
    cases acquired with
    | true => exact dispatch_safe hr.1 (hr.2 rfl)
    | false => exact TaskSafe.pure fun _ => trivial

theorem execute_safe (hno : NoSend i w) : TaskSafe d i (fun _ _ => True) (execute d i identity key value) w := by
  refine TaskSafe.bind (Q := fun _ w => NoSend i w)
    (TaskSafe.lift (fun w' _ hr o => ⟨.idle, fun w'' h => h.noSend (hr.noSend hno)⟩)
      (fun _ _ _ h hn => h.noSend hn)) fun aborted w₁ _ hno₁ => ?_
  cases aborted with
  | true => exact TaskSafe.throw
  | false => exact executePrepared_safe hno₁

theorem byReference_safe {f : Prepared → Task (Option (DurableCommandReceipt ρ))} (hf : ∀ q w, TaskSafe d i (fun _ _ => True) (f q) w) :
    TaskSafe d i (fun _ _ => True) (do
      match ← restoreTask d i identity key p with
      | none => return none
      | some q => f q) w := by
  refine restoreTask_safe.bind fun r w' _ _ => ?_
  cases r with
  | none => exact TaskSafe.pure fun _ => trivial
  | some q => exact hf q w'

theorem recover_safe {subject ref} : TaskSafe d i (fun _ _ => True) (recover d i subject ref) w := by
  unfold recover
  split
  · exact TaskSafe.throw
  · refine TaskSafe.bind (Q := fun _ _ => True) (TaskSafe.transaction fun _ _ _ _ _ _ hb => ?_) fun r _ _ _ => ?_
    · rw [recoverCompletedBody_change hb]
      exact ⟨.same, fun _ _ => trivial⟩
    · cases r with
      | some receipt => exact TaskSafe.pure fun _ => trivial
      | none => exact byReference_safe fun _ _ => reconcile_safe

theorem ExternalCall.safe (c : ExternalCall) (hno : NoSend i w) : TaskSafe d i (fun _ _ => True) (c.task d i) w := by
  cases c with
  | execute identity key value => exact execute_safe hno
  | lookup identity key value => exact lookup_safe
  | reconcile identity key value => exact reconcile_safe
  | flushAudit identity key value => exact flushAudit_safe
  | lookupByReference identity key => exact byReference_safe fun _ _ => lookup_safe
  | reconcileByReference identity key => exact byReference_safe fun _ _ => reconcile_safe
  | flushAuditByReference identity key => exact byReference_safe fun _ _ => flushAudit_safe
  | recover subject ref => exact recover_safe
  | redactCompleted ref =>
    exact TaskSafe.bind (Q := fun _ _ => True) (TaskSafe.transaction fun _ _ _ _ _ _ hb =>
      ⟨redact_change hb, fun _ _ => trivial⟩) fun _ _ _ _ => TaskSafe.pure fun _ => trivial

/-! ## 走行 -/

abbrev ExternalSafe (d : Definition ρ) (c : Config Nat Oracle World (Outcome ρ)) : Prop :=
  Config.AllSafe ExternalInv Others (Effect d) (fun _ _ _ => True) (fun _ => Proc.Post (fun _ _ => True) (fun _ _ => True)) c

theorem externalStart_safe (calls sched) : ExternalSafe d ((externalStart d calls).run sched) := by
  refine Config.AllSafe.run (fun _ => Others.refl) (fun _ _ _ _ => Others.trans) (fun _ _ hij _ _ h => h.others hij)
    ⟨ExternalInv.initial, fun i => ?_⟩ sched (fun _ _ _ => trivial)
  exact (calls i).safe fun ref key => by simp [externalStart, World.initial]

end Supacloud.Commands
