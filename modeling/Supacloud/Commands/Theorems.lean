import Supacloud.Commands.Lemmas.Canonical
import Supacloud.Commands.Lemmas.Retention
import Supacloud.Commands.Lemmas.Transactional

/-! # コマンドの実行の定理 -/

namespace Supacloud.Commands

open Contracts Library List

variable {ρ : Type} {d : Definition ρ} {i : Nat} {w w' : World} {ref : OperationReference} {t : Tables}

/-! ## 送信は高々一度 -/

def Event.isSend (ref : OperationReference) : Event → Bool
  | .send r _ => r == ref
  | _ => false

def sendCount (ref : OperationReference) (log : List (Nat × Event)) : Nat :=
  log.countP (fun x => x.2.isSend ref)

theorem Event.isSend_iff {e : Event} : e.isSend ref = true ↔ ∃ key, e = .send ref key := by
  cases e <;> simp [Event.isSend]

theorem SendsOk.count_le {l} (h : SendsOk l) (ref) : sendCount ref l ≤ 1 := by
  induction l with
  | nil => simp [sendCount]
  | cons x rest ih =>
    obtain ⟨i, e⟩ := x
    obtain ⟨hrst, hhe⟩ := h
    have hle := ih hrst
    unfold sendCount at hle ⊢
    rw [countP_cons]
    split
    · rename_i he
      obtain ⟨key, rfl⟩ := Event.isSend_iff.mp he
      -- 先頭が送信なら、それより前に同じ操作の送信はない。
      have hze : rest.countP (fun x => x.2.isSend ref) = 0 := by
        rw [countP_eq_zero]
        rintro ⟨j, e'⟩ hm hs
        obtain ⟨key', rfl⟩ := Event.isSend_iff.mp hs
        exact (hhe ref key rfl).2 j key' hm
      omega
    · omega

theorem SendsOk.inserted {later earlier key} (h : SendsOk (later ++ (i, .send ref key) :: earlier)) : InsertedKey i ref key earlier := by
  induction later with
  | nil => exact (h.2 ref key rfl).1
  | cons x rest ih => exact ih h.1

/-- 操作ごとの送信は高々一度で、それより前に、その送信の鍵を持つ `pending` の受領証が確定している。 -/
theorem send_at_most_once (d : Definition ρ) (calls : Nat → ExternalCall) (sched : List (Nat × Oracle)) (ref : OperationReference) :
    sendCount ref ((externalStart d calls).run sched).world.log ≤ 1 ∧ ∀ later earlier i key,
      ((externalStart d calls).run sched).world.log = later ++ (i, .send ref key) :: earlier →
      ∃ before after row, (i, Event.committed before after) ∈ earlier ∧ after.rows ref = some row ∧
        row.status = .pending ∧ row.dispatchKey = key := by
  have hses := (externalStart_safe (d := d) calls sched).1.sends
  refine ⟨hses.count_le ref, fun later earlier i key hlog => ?_⟩
  rw [hlog] at hses
  obtain ⟨b, a, row, hm, -, ha, hsts, hkey⟩ := hses.inserted
  exact ⟨b, a, row, hm, ha, hsts, hkey⟩

/-! ## 受領証は戻らない -/

def Status.moves : Status → Status → Bool
  | .pending, _ => true
  | .unknown, s => s != .pending
  | .confirmed, s => s == .confirmed
  | .rejected, s => s == .rejected

theorem Status.moves_refl (s : Status) : s.moves s = true := by cases s <;> rfl

theorem Status.moves_trans {a b c : Status} (h : a.moves b = true) (h' : b.moves c = true) : a.moves c = true := by
  cases a <;> cases b <;> cases c <;> simp_all [Status.moves]

def RowsMove (w w' : World) : Prop :=
  ∀ ref row, w.tables.rows ref = some row → ∃ row', w'.tables.rows ref = some row' ∧
    row.status.moves row'.status = true ∧ (row.status = .confirmed → row'.result = row.result)

theorem RowsMove.refl (w : World) : RowsMove w w := fun _ row h => ⟨row, h, row.status.moves_refl, fun _ => rfl⟩

theorem RowsMove.trans {a b c} (h : RowsMove a b) (h' : RowsMove b c) : RowsMove a c := by
  intro ref row hrow
  obtain ⟨row', hro', hmo, hres⟩ := h ref row hrow
  obtain ⟨row'', hro'', hmo', hrs'⟩ := h' ref row' hro'
  refine ⟨row'', hro'', Status.moves_trans hmo hmo', fun hc => ?_⟩
  have hc' : row'.status = .confirmed := by simpa [hc, Status.moves] using hmo
  rw [hrs' hc', hres hc]

theorem rowsMove_setRow {r row new} (ht : t.rows = w.tables.rows)
    (hrow : w.tables.rows r = some row) (hmo : row.status.moves new.status = true)
    (hres : row.status = .confirmed → new.result = row.result) : RowsMove w (w.commit i (t.setRow r new)) := by
  intro ref' row' hro'
  rw [commit_tables, setRow_rows]
  split
  · rename_i he
    subst he
    rw [hrow] at hro'
    cases hro'
    exact ⟨new, rfl, hmo, hres⟩
  · exact ⟨row', by rw [ht]; exact hro', row'.status.moves_refl, fun _ => rfl⟩

theorem isOpen_moves {row s} (h : isOpen row = true) (hs : s ≠ .pending) : row.status.moves s = true ∧ row.status ≠ .confirmed := by
  cases hr : row.status <;> simp_all [isOpen, Status.moves]

theorem Effect.rowsMove (h : Effect d i w w') : RowsMove w w' := by
  cases h with
  | idle | lookup ref value | send ref key _ _ => exact .refl w
  | commit t hc =>
    cases hc with
    | same => exact .refl w
    | @insert r new hnn hfr _ =>
      intro ref' row' hro'
      rw [commit_tables, setRow_rows]
      split
      · rename_i he
        rw [he, hnn] at hro'
        cases hro'
      · exact ⟨row', hro', row'.status.moves_refl, fun _ => rfl⟩
    | unknown row hrow hop | confirm row raw hrow hop _ => grind [isOpen_moves, rowsMove_setRow]
    | flush row a hrow _ _ _ | redact row hrow _ => exact rowsMove_setRow rfl hrow row.status.moves_refl (fun _ => rfl)
    | reject row a hrow hop _ =>
      obtain ⟨hm, hn⟩ := isOpen_moves (s := .rejected) hop (by decide)
      exact rowsMove_setRow rfl hrow hm (fun h => absurd h hn)

def ConfirmedOk (d : Definition ρ) (w : World) : Prop :=
  ∀ ref row, w.tables.rows ref = some row → row.status = .confirmed →
    ∃ j raw, row.result = some raw ∧ Confirmed d j w ref row.inputFingerprint raw

theorem Confirmed.mono {fp raw} (h : Confirmed d i w ref fp raw) (hl : ∀ x ∈ w.log, x ∈ w'.log) : Confirmed d i w' ref fp raw := by
  obtain ⟨v, inp, c, res, hm, hr⟩ := h
  exact ⟨v, inp, c, res, hl _ hm, hr⟩

theorem confirmedOk_setRow {r new} (ht : t.rows = w.tables.rows) (h : ConfirmedOk d w) (hnew : new.status = .confirmed →
      ∃ j raw, new.result = some raw ∧ Confirmed d j w r new.inputFingerprint raw) : ConfirmedOk d (w.commit i (t.setRow r new)) := by
  have hl : ∀ x ∈ w.log, x ∈ (w.commit i (t.setRow r new)).log := by simp +contextual
  intro ref' row' hro' hs
  rw [commit_tables, setRow_rows] at hro'
  split at hro'
  · rename_i he
    cases hro'
    obtain ⟨j, raw, hres, hc⟩ := hnew hs
    exact ⟨j, raw, hres, by rw [he]; exact hc.mono hl⟩
  · obtain ⟨j, raw, hres, hc⟩ := h ref' row' (by rw [← ht]; exact hro') hs
    exact ⟨j, raw, hres, hc.mono hl⟩

theorem Effect.confirmedOk (h : Effect d i w w') (hw : ConfirmedOk d w) : ConfirmedOk d w' := by
  have hlog : ∀ e, ConfirmedOk d (w.record i e) := fun e ref row hrow hs => by
    obtain ⟨j, raw, hres, hc⟩ := hw ref row hrow hs
    exact ⟨j, raw, hres, hc.mono (by simp +contextual)⟩
  cases h with
  | idle => exact hw
  | lookup ref value | send ref key _ _ => exact hlog _
  | commit t hc =>
    cases hc with
    | same => exact hlog _
    | insert new _ hfr _ => exact confirmedOk_setRow rfl hw (by simp [hfr.status])
    | unknown row hrow _ | reject row a hrow _ _ => exact confirmedOk_setRow rfl hw (by simp)
    | confirm row raw hrow _ hraw => exact confirmedOk_setRow rfl hw (fun _ => ⟨i, raw, rfl, hraw⟩)
    | flush row a hrow _ _ _ | redact row hrow _ => exact confirmedOk_setRow rfl hw (hw _ row hrow)

/-- 受領証は進むだけで戻らず、確認済みの結果は照会が返して認められた値であり、監査の行は高々一つである。 -/
theorem receipt_safety (d : Definition ρ) (calls : Nat → ExternalCall) (sched rest : List (Nat × Oracle)) :
    RowsMove ((externalStart d calls).run sched).world ((externalStart d calls).run (sched ++ rest)).world ∧
    ConfirmedOk d ((externalStart d calls).run sched).world ∧
    ∀ ref, (((externalStart d calls).run sched).world.tables.audits ref).length =
      match ((externalStart d calls).run sched).world.tables.rows ref with
      | some row => if row.auditState = .complete then 1 else 0
      | none => 0 := by
  have hsa := externalStart_safe (d := d) calls sched
  refine ⟨?_, ?_, fun ref => ?_⟩
  · rw [Config.run_append]
    exact hsa.run_rel (fun _ => Others.refl) (fun _ _ _ _ => Others.trans) (fun _ _ hij _ _ h => h.others hij)
      RowsMove.refl (fun _ _ _ => RowsMove.trans) (fun _ _ _ _ h => h.rowsMove) rest (fun _ _ _ => trivial)
  · have hini : ConfirmedOk d (externalStart d calls).world := by
      intro ref row hrow
      simp [externalStart, World.initial, Tables.empty] at hrow
    exact (externalStart_safe (d := d) calls []).run_rel (T := fun a b => ConfirmedOk d a → ConfirmedOk d b)
      (fun _ => Others.refl) (fun _ _ _ _ => Others.trans) (fun _ _ hij _ _ h => h.others hij) (fun _ h => h)
      (fun _ _ _ h h' hw => h' (h hw)) (fun _ _ _ _ h => h.confirmedOk) sched (fun _ _ _ => trivial) hini
  · have had := hsa.1.audit ref
    unfold AuditOk at had
    cases hrow : ((externalStart d calls).run sched).world.tables.rows ref with
    | none => simp only [hrow] at had ⊢; simp [had]
    | some row => simpa [hrow] using had

/-! ## 保存の期限と回復 -/

/-- `recover` は、二つのトランザクションの間に入力が消されなければ、期限切れの符号では失敗せず、操作の受領証を返す。 -/
theorem recover_outlives_retention (d : Definition ρ) (calls : Nat → ExternalCall) (before : List (Nat × Oracle)) (i : Nat)
    (subject : String) (ref : OperationReference) (row : Row) (hcall : calls i = .recover subject ref)
    (hbefore : ∀ x ∈ before, x.1 ≠ i) (hrow : ((externalStart d calls).run before).world.tables.rows ref = some row) :
    (∀ sched out, (∀ o, (i, o) ∈ sched → o.Plain) → Undisturbed i ref ((externalStart d calls).run before) sched →
      ((externalStart d calls).run (before ++ sched)).proc i = .ret out →
      out ≠ .error .COMMAND_INPUT_EXPIRED ∧ ∀ r, out = .ok r → ∃ receipt, r = some receipt ∧ receipt.reference = ref) ∧
    (d.hasAuthorizeRecovery = true → commandIdentifier subject = some subject → Stable d →
      ∀ f : Nat → Nat × Oracle, (∀ n, ∃ m, n ≤ m ∧ (f m).1 = i) → (∀ n o, f n = (i, o) → o.Serves d row.inputFingerprint) →
      (∀ n, Undisturbed i ref ((externalStart d calls).run before) ((List.range n).map f)) →
      ∃ n receipt, ((externalStart d calls).run (before ++ (List.range n).map f)).proc i = .ret (.ok (some receipt)) ∧
        receipt.reference = ref) := by
  have hsa := externalStart_safe (d := d) calls before
  obtain ⟨hgo, hrf⟩ := rows_reached (d := d) calls before
  have hexs : Exists d ref row.inputFingerprint ((externalStart d calls).run before).world := ⟨hsa.1, hgo, row, hrow, rfl⟩
  have href := hrf ref (by simp [hrow])
  have hst : ((externalStart d calls).run before).proc i = (recover d i subject ref).run := by
    rw [Config.run_proc_of_not_mem _ before hbefore]
    simp [externalStart, hcall, ExternalCall.task]
  simp only [Config.run_append]
  constructor
  · intro sched out hpl hke hout
    have hc : Caller d subject ref False := ⟨href, False.elim, False.elim⟩
    have hph := (phase_run hc hsa hexs hst (fun o ho => ⟨hpl o ho, False.elim⟩) hke).2
    have hres := recovered_of_phase hc hph hout
    constructor
    · rintro rfl
      exact hres.1 rfl
    · rintro r rfl
      exact hres
  · intro hau hsu hsta f hf hsrs hke
    have hc : Caller d subject ref True := ⟨href, fun _ => ⟨hau, hsu⟩, fun _ => hsta⟩
    obtain ⟨n, out, hout⟩ := ((externalStart d calls).run before).finishes i f hf
    have hfit : ∀ o, (i, o) ∈ (range n).map f → o.Fit d row.inputFingerprint True := by
      intro o ho
      simp only [mem_map, mem_range] at ho
      obtain ⟨k, -, hk⟩ := ho
      exact ⟨(hsrs k o hk).plain, fun _ => hsrs k o hk⟩
    have hres := recovered_of_phase hc (phase_run hc hsa hexs hst hfit (hke n)).2 hout
    cases out with
    | error code => exact absurd trivial hres.2
    | ok r =>
      obtain ⟨receipt, rfl, href⟩ := hres
      exact ⟨n, receipt, hout, href⟩

def recoverableDefinition : Definition JsValue where
  name := "orders.place"
  input := some
  result := some
  digest := fun
    | .boolean true => "b5bea41b6c623f7c09f1bf24dcae58ebab3c0cdd90ad966bc43a45b44867e12b"
    | .boolean false => "fcbcf165908dd18a9e49f7ff27810176db8e9f63b4352213741664245224f8aa"
    | _ => ""
  auditEvent := "order.placed"
  auditDetails := fun input _ => input
  hasAuthorizeRecovery := true
  «matches» := fun _ _ => true
  rejection := none
  rejectSupported := false
  submission := none

def recoverableReference : OperationReference :=
  { tenantId := "tenant", actorId := "actor", command := "orders.place", operationId := "op" }

def recoverableCalls : Nat → ExternalCall
  | 0 => .execute { tenantId := "tenant", actorId := "actor" } "op" (.boolean true)
  | 1 => .recover "recovery" recoverableReference
  | _ => .redactCompleted recoverableReference

def workingOracle : Oracle := { decoded := some (.boolean true), lookup := some (.boolean true), redacts := true }

def intentRecorded : List (Nat × Oracle) := List.replicate 3 (0, workingOracle)

theorem workingOracle_serves : workingOracle.Serves recoverableDefinition
    "b5bea41b6c623f7c09f1bf24dcae58ebab3c0cdd90ad966bc43a45b44867e12b" :=
  ⟨rfl, rfl, rfl, rfl, by decide, .boolean true, .boolean true, .boolean true, rfl, rfl, rfl⟩

theorem recover_outlives_retention_alone : ∃ n receipt, ((externalStart recoverableDefinition recoverableCalls).run
      (intentRecorded ++ (List.range n).map fun _ => (1, workingOracle))).proc 1 = .ret (.ok (some receipt)) ∧
      receipt.reference = recoverableReference := by
  refine (recover_outlives_retention recoverableDefinition recoverableCalls intentRecorded 1 "recovery" recoverableReference _
    rfl (by simp [intentRecorded]) rfl).2 rfl (by decide) ?_ (fun _ => (1, workingOracle)) (fun n => ⟨n, le_rfl, rfl⟩) ?_ ?_
  · intro value input canonical h
    simp only [decodeInput, recoverableDefinition, Option.bind_eq_bind, Option.bind_some, Option.bind_eq_some_iff] at h
    obtain ⟨c, -, h⟩ := h
    split at h
    next hc =>
      cases h
      exact ⟨canonical.toValue, by simp [decodeInput, recoverableDefinition, hc]⟩
    next => cases h
  · rintro n o ho
    cases ho
    exact workingOracle_serves
  · intro n before j o after hsp hone
    have hall : ∀ x ∈ before ++ (j, o) :: after, x = (1, workingOracle) := by
      rw [← hsp]
      simp
    have hbefore : before = [(1, workingOracle)] := by
      have hlen : before.length = 1 := by
        rw [← hone, eq_comm, countP_eq_length]
        intro x hx
        rw [hall x (by simp [hx])]
        rfl
      obtain ⟨x, rfl⟩ := length_eq_one_iff.mp hlen
      rw [hall x (by simp)]
    have hj := hall (j, o) (by simp)
    cases hj
    rw [hbefore]
    rintro ⟨-, hno⟩
    exact hno ⟨_, rfl, by decide⟩

def redactedBetween : List (Nat × Oracle) :=
  [(1, workingOracle)] ++ List.replicate 9 (0, workingOracle) ++ [(2, workingOracle), (1, workingOracle)]

theorem redacted_between_expires : ¬ ∀ sched out, (∀ x ∈ sched, x.2 = workingOracle) →
    ((externalStart recoverableDefinition recoverableCalls).run (intentRecorded ++ sched)).proc 1 = .ret out →
      out ≠ .error .COMMAND_INPUT_EXPIRED := by
  intro h
  refine h redactedBetween _ ?_ ?_ rfl
  · simp [redactedBetween]
  · rfl

/-! ## トランザクション型のコマンド -/

namespace Transactional

variable {policies : Nat → ExecutionPolicy} {calls : Nat → Call} {c c₀ : CommandJson}

def Recorded (d : Definition ρ) (calls : Nat → Call) (ref : OperationReference) (c : CommandJson) (w : World) : Prop :=
  ∃ row j, w.tables.rows ref = some row ∧ row.inputFingerprint = d.digest c ∧ (calls j).Executes d ref c

theorem Call.Executes.unique {call : Call} {ref' c'}
    (h : call.Executes d ref c) (h' : call.Executes d ref' c') : ref' = ref ∧ c' = c := by
  obtain ⟨n, identity, key, value, input, rfl, href, hdec⟩ := h
  obtain ⟨n', identity', key', value', input', he, hre', hde'⟩ := h'
  cases he
  rw [href] at hre'
  rw [hdec] at hde'
  cases hre'
  cases hde'
  exact ⟨rfl, rfl⟩

theorem Recorded.conflicting (h : Recorded d calls ref c₀ w) (hne : c ≠ c₀)
    (hdi : d.digest c = d.digest c₀ → c = c₀) : Conflicting ref (d.digest c) w := by
  obtain ⟨row, j, hrow, hfp, -⟩ := h
  exact ⟨row, hrow, fun he => hne (hdi (by rw [← he, hfp]))⟩

theorem conflicting_unchanged {final j} (hsa : AllCallsSafe d policies calls (fun _ _ _ => True) (ResultOk d calls) final)
    (hex : (calls j).Executes d ref c) (hc : Conflicting ref (d.digest c) final.world) :
    (∀ x, final.proc j ≠ .ret (.ok x)) ∧ ∀ b a, (j, Event.committed b a) ∈ final.world.log → a = b := by
  obtain ⟨row, hrow, hne⟩ := hc
  constructor
  · intro x hx
    obtain ⟨receipt, -, row', hro', hfp, -⟩ :=
      hsa.result (fun _ => Keeps.refl) hx x rfl ref c hex
    rw [hrow] at hro'
    cases hro'
    exact hne hfp
  · intro b a hm
    by_contra hab
    rcases hsa.1.origin j b a hm hab with ⟨r, hr⟩ | ⟨r, c', row', hex', hro', hfp⟩
    · obtain ⟨_, _, _, _, _, hr', -⟩ := hex
      rw [hr] at hr'
      cases hr'
    · obtain ⟨rfl, rfl⟩ := hex.unique hex'
      rw [hrow] at hro'
      cases hro'
      exact hne hfp

/-- 記録された入力と別の入力での実行は、記録の前の段も含めて妨げがなければ、選ばれ続けると衝突として終わる。 -/
theorem conflicting_result {j sched} (hex : (calls j).Executes d ref c)
    (hc : Conflicting ref (d.digest c) ((start d policies calls).run sched).world)
    (hsc : ∀ x ∈ sched, x.1 = j → (calls j).Succeeds d x.2)
    (f) (hf : ∀ n, ∃ m, n ≤ m ∧ (f m).1 = j) (hcl : ∀ m, (f m).1 = j → Clean (f m).2) :
    ∃ m r, (((start d policies calls).run sched).run ((range m).map f)).proc j = .ret r ∧
      (r = .error (.command .COMMAND_IDEMPOTENCY_CONFLICT) ∨ r = .error (.command .COMMAND_UNAVAILABLE) ∧
        ∃ n identity key value, calls j = .execute n identity key value ∧ (policies n).circuit ≠ none) := by
  obtain ⟨n, identity, key, value, input, hcall, href, hdec⟩ := hex
  obtain ⟨m, r, hr⟩ := ((start d policies calls).run sched).finishes j f hf
  refine ⟨m, r, hr, ?_⟩
  have hsa : AllCallsSafe d policies calls (fun i o w => i = j → Proceeds d ref c input o w)
      (fun i r w => i = j → (r = .error (.command .COMMAND_IDEMPOTENCY_CONFLICT) ∨
        ((policies n).circuit ≠ none ∧ r = .error (.command .COMMAND_UNAVAILABLE))) ∨ Same ref (d.digest c) w)
      ((start d policies calls).run sched) := by
    refine AllCallsSafe.run ⟨Inv.initial, fun i => ?_⟩ sched fun x hx _ hxj =>
      ⟨(hsc x hx hxj).1, Or.inr ((hsc x hx hxj).2 n identity key value input c hcall hdec)⟩
    by_cases hij : i = j
    · subst hij
      have hp : (start d policies calls).proc i = execute d i (commandPolicy (policies n)) n identity key value := by
        change (calls i).proc d policies i = _
        rw [hcall]
        rfl
      rw [hp]
      exact ((execute_proceeds hcall href hdec).weaken (fun _ _ h => h rfl)).mono fun _ _ _ h _ => h
    · exact (Call.safe i).mono fun _ _ _ _ h => absurd h hij
  -- 受領証は残るので、この後は j の応答に `Clean` だけを求めればよい。
  have hrun := (hsa.restrict (J := Conflicting ref (d.digest c)) (B := fun i o _ => i = j → Clean o)
    (fun _ _ _ h hw => hw.keeps h.keeps) (fun _ _ _ hw h hij => ⟨h hij, Or.inl hw⟩) hc).run
    (fun _ => Keeps.refl) (fun _ _ _ _ => Keeps.trans) (fun _ _ _ _ _ h => h.keeps) ((range m).map f) (by
      intro x hx _ hxj
      simp only [mem_map, mem_range] at hx
      obtain ⟨k, -, rfl⟩ := hx
      exact hcl k hxj)
  rcases hrun.result (fun _ => Keeps.refl) hr rfl with (h | ⟨hn, h⟩) | ⟨row, hrow, hfp⟩
  · exact Or.inl h
  · exact Or.inr ⟨h, n, identity, key, value, hcall, hn⟩
  · obtain ⟨row', hrow', hne⟩ := hrun.1.2
    rw [hrow] at hrow'
    cases hrow'
    exact absurd hfp hne

/-- 業務データは高々一度だけ、受領証と監査の行と同時に確定する。記録された入力と異なる入力での実行は、何も変えず、自分の段に妨げがなければ、
衝突として終わる。 -/
theorem exactly_once (d : Definition ρ) (policies : Nat → ExecutionPolicy) (calls : Nat → Call)
    (sched : List (Nat × Oracle)) (ref : OperationReference) :
    let final := (start d policies calls).run sched
    (final.world.tables.effects ref).length ≤ 1 ∧
    ((final.world.tables.effects ref).length = 1 ↔
      ∃ row, final.world.tables.rows ref = some row ∧ row.status = .confirmed ∧ row.auditState = .complete) ∧
    (final.world.tables.audits ref).length = (final.world.tables.effects ref).length ∧
    ((final.world.tables.effects ref).length = 1 → ∃ c₀, Recorded d calls ref c₀ final.world) ∧
    (∀ i c x, (calls i).Executes d ref c → final.proc i = .ret (.ok x) →
      ∃ receipt, x = some receipt ∧ Returned d ref c receipt final.world) ∧
    ∀ c₀ j c, Recorded d calls ref c₀ final.world → (calls j).Executes d ref c → c ≠ c₀ → (d.digest c = d.digest c₀ → c = c₀) →
      (∀ x, final.proc j ≠ .ret (.ok x)) ∧
      (∀ b a, (j, Event.committed b a) ∈ final.world.log → a = b) ∧
      ((∀ x ∈ sched, x.1 = j → (calls j).Succeeds d x.2) →
        ∀ f : Nat → Nat × Oracle, (∀ n, ∃ m, n ≤ m ∧ (f m).1 = j) → (∀ m, (f m).1 = j → Clean (f m).2) →
        ∃ m r, (final.run ((range m).map f)).proc j = .ret r ∧
          (r = .error (.command .COMMAND_IDEMPOTENCY_CONFLICT) ∨ r = .error (.command .COMMAND_UNAVAILABLE) ∧
            ∃ n identity key value, calls j = .execute n identity key value ∧ (policies n).circuit ≠ none)) := by
  intro final
  have hsa : AllCallsSafe d policies calls (fun _ _ _ => True) (ResultOk d calls) final := start_safe sched
  have htas := hsa.1.tables ref
  unfold TablesOk at htas
  refine ⟨?_, ?_, ?_, ?_, ?_, ?_⟩
  · cases hrow : final.world.tables.rows ref <;> simp_all
  · grind [→ Row.state_confirmed]
  · cases hrow : final.world.tables.rows ref <;> simp_all
  · intro heff
    cases hrow : final.world.tables.rows ref with
    | none => simp_all
    | some row =>
      obtain ⟨j, c, hex, hfp⟩ := hsa.1.source ref row hrow
      exact ⟨c, row, j, hrow, hfp, hex⟩
  · intro i c x hex hx
    exact hsa.result (fun _ => Keeps.refl) hx x rfl ref c hex
  · intro c₀ j c hrec hex hne hdi
    have hc := hrec.conflicting hne hdi
    obtain ⟨hno, hsm⟩ := conflicting_unchanged hsa hex hc
    exact ⟨hno, hsm, fun hsc f hf hcl => conflicting_result hex hc hsc f hf hcl⟩

/-! ## 具体例 -/

def sampleDefinition : Definition JsValue where
  name := "orders.place"
  input := some
  result := some
  digest := fun
    | .boolean true => "b5bea41b6c623f7c09f1bf24dcae58ebab3c0cdd90ad966bc43a45b44867e12b"
    | .boolean false => "fcbcf165908dd18a9e49f7ff27810176db8e9f63b4352213741664245224f8aa"
    | _ => ""
  auditEvent := "order.placed"
  auditDetails := fun input _ => input
  hasAuthorizeRecovery := false
  «matches» := fun _ _ => true
  rejection := none
  rejectSupported := false
  submission := none

def samplePolicy : ExecutionPolicy where
  kind := .command
  bounded := by decide

def sampleIdentity : CommandIdentity := { tenantId := "tenant", actorId := "actor" }

def sampleReference : OperationReference :=
  { tenantId := "tenant", actorId := "actor", command := "orders.place", operationId := "op" }

def sampleCalls (i : Nat) : Call := .execute 0 sampleIdentity "op" (.boolean (i == 0))

def sampleSchedule : List (Nat × Oracle) := List.replicate 4 (0, { executed := .ok (.boolean true) })

theorem unauthorized_not_conflict :
    let final := (start sampleDefinition (fun _ => samplePolicy) sampleCalls).run
      (sampleSchedule ++ replicate 4 (1, { authorization := .deny }))
    Recorded sampleDefinition sampleCalls sampleReference (.boolean true) final.world ∧
      (sampleCalls 1).Executes sampleDefinition sampleReference (.boolean false) ∧
      final.proc 1 = .ret (.error (.command .COMMAND_REJECTED)) := by
  refine ⟨⟨_, 0, rfl, rfl, 0, sampleIdentity, "op", .boolean true, .boolean true, rfl, rfl, rfl⟩,
    ⟨0, sampleIdentity, "op", .boolean false, .boolean false, rfl, rfl, rfl⟩, rfl⟩

def overlappingSchedule : List (Nat × Oracle) :=
  List.replicate 2 (1, { executed := .ok (.boolean false) }) ++ sampleSchedule

theorem exactly_once_sample :
    let final := (start sampleDefinition (fun _ => samplePolicy) sampleCalls).run overlappingSchedule
    (final.world.tables.effects sampleReference).length = 1 ∧ (∀ x, final.proc 1 ≠ .ret (.ok x)) ∧
      ∃ m, (final.run ((range m).map fun _ => (1, {}))).proc 1 = .ret (.error (.command .COMMAND_IDEMPOTENCY_CONFLICT)) := by
  intro final
  obtain ⟨hno, -, hrs⟩ :=
    (exactly_once sampleDefinition (fun _ => samplePolicy) sampleCalls overlappingSchedule sampleReference).2.2.2.2.2
      (.boolean true) 1 (.boolean false)
      ⟨_, 0, rfl, rfl, 0, sampleIdentity, "op", .boolean true, .boolean true, rfl, rfl, rfl⟩
      ⟨0, sampleIdentity, "op", .boolean false, .boolean false, rfl, rfl, rfl⟩ (by decide) (by decide)
  have hclean : ∀ executed, Clean { executed } := fun _ => ⟨rfl, rfl, rfl, by simp, rfl, by simp, by simp⟩
  have hwork : (sampleCalls 1).Succeeds sampleDefinition { executed := .ok (.boolean false) } := by
    refine ⟨hclean _, fun n identity key value input c _ hdec => ?_⟩
    exact ⟨⟨.boolean false, .boolean false, .boolean false, c, rfl, rfl, rfl, decodeInput_ok hdec⟩, rfl, by decide⟩
  have hsched : ∀ x ∈ overlappingSchedule, x.1 = 1 → (sampleCalls 1).Succeeds sampleDefinition x.2 := by
    intro x hx hx1
    simp only [overlappingSchedule, sampleSchedule, mem_append, mem_replicate] at hx
    rcases hx with ⟨-, rfl⟩ | ⟨-, rfl⟩
    · exact hwork
    · cases hx1
  obtain ⟨m, r, hr, h⟩ := hrs hsched (fun _ => (1, {})) (fun n => ⟨n, le_rfl, rfl⟩) (fun _ _ => hclean _)
  refine ⟨rfl, hno, m, ?_⟩
  rcases h with rfl | ⟨-, _, _, _, _, -, hcircuit⟩
  · exact hr
  · exact absurd rfl hcircuit

end Transactional

/-! ## 正規の文字列 -/

open Session

structure CanonicalLaws : Prop where
  data : ∀ v text, canonicalText v = some text → ∃ j : AuditChain.Json, v = j.toValue
  exact : ∀ (j k a b : AuditChain.Json), AuditChain.Distinct j → AuditChain.Distinct k → canonicalText j.toValue = some a →
    canonicalText k.toValue = some b → (a = b ↔ AuditChain.SameJson j k)
  again : ∀ (j text : AuditChain.Json), AuditChain.Distinct j → canonicalText j.toValue = some text →
    canonicalText (jsonParse text) = some text

theorem canonicalLaws : CanonicalLaws where
  data v text h := by
    obtain ⟨c, hc, -⟩ := Option.map_eq_some_iff.mp h
    exact visit_data v hc
  exact j k a b hj hk ha hb := by
    obtain ⟨-, rfl⟩ := canonicalText_toValue hj ha
    obtain ⟨-, rfl⟩ := canonicalText_toValue hk hb
    exact ⟨AuditChain.same_of_canonicalize, fun h => (same_canonical h).2.2 hj⟩
  again j text hj h := by
    obtain ⟨hsh, rfl⟩ := canonicalText_toValue hj h
    obtain ⟨hds, hdp, hca⟩ := same_canonical (@AuditChain.same_canonicalize codeUnits j)
    rw [jsonParse, canonicalText_of_shallow (hds.mpr hj) ((hdp 0).mpr hsh), hca (hds.mpr hj)]

theorem prepare_again {identity key value encoded again q} (h : prepare d identity key value encoded = .ok q) :
    prepare d identity key q.canonical.toValue again =
      again.elim (.error .COMMAND_UNAVAILABLE) fun payload => .ok { q with payload } := by
  obtain ⟨hva, hre, hd⟩ := prepare_ok h
  -- 二度目の復号は、検査で読んだ値をもう一度読む。
  have hag : decodeInput d q.canonical.toValue = some (q.input, q.canonical) := by
    simp only [decodeInput, Option.bind_eq_bind, Option.bind_eq_some_iff, Option.ite_none_right_eq_some, Option.some.injEq] at hd ⊢
    obtain ⟨-, -, canonical', -, input', hinp, hsm, heq⟩ := hd
    cases heq
    exact ⟨_, hinp, _, hsm, _, hinp, hsm, rfl⟩
  unfold prepare
  simp only [hre, hag, bind, Except.bind]
  cases again <;> simp [hva.fingerprint]

/-- 挿し入れたままの行からの回復は、再び符号化した値のほかは同じ依頼を返すか、行の不正とは別の理由で失敗する。 -/
def RestoresUntouched (d : Definition ρ) : Prop :=
  ∀ identity key payload value q, prepare d identity key value (some payload) = .ok q →
    (∀ again, prepare d identity key q.canonical.toValue (some again) = .ok { q with payload := again }) ∧
    ∀ kind raw o t t', insertReceipt d q kind raw o t = .ok ((), t') → ∀ o' t'', t''.rows q.reference = t'.rows q.reference →
      o'.decoded = some q.canonical.toValue → ∀ principal,
        (o'.lock ≠ some (.command .COMMAND_RECEIPT_INVALID) →
          (restore d identity key principal).Fails (· ≠ .command .COMMAND_RECEIPT_INVALID) o' t'') ∧
        (∀ r t₁, restore d identity key principal o' t'' = .ok (r, t₁) → ∃ again, r = some { q with payload := again }) ∧
        ∀ again t₁, o'.encoded = some again → lockRequest d q principal o' t'' = .ok ((), t₁) →
          restore d identity key principal o' t'' = .ok (some { q with payload := again }, t₁)

theorem authorize_fails_ordinary {principal o} : (authorize d principal).Fails (· ≠ .command .COMMAND_RECEIPT_INVALID) o t := by
  have hch : ∀ t, checkAuthorization.Fails (· ≠ .command .COMMAND_RECEIPT_INVALID) o t := by
    intro t
    refine fails_bind (fails_of_ok (oracle_ok.mpr rfl)) fun o' t'' hor => ?_
    cases ha : o'.authorization with
    | allow => exact fails_pure
    | deny | malformed | threw => exact fails_throwCode (by simp)
  cases principal with
  | none => exact hch t
  | some subject =>
    refine fails_bind (fails_orThrow fun _ => by simp) fun _ t' _ => ?_
    split
    · exact fails_throwCode (by simp)
    · exact hch t'

theorem lock_fails_ordinary (hide : ref.Identified) (hlc : o.lock ≠ some (.command .COMMAND_RECEIPT_INVALID)) :
    (lock ref).Fails (· ≠ .command .COMMAND_RECEIPT_INVALID) o t := by
  refine fails_bind (fails_of_ok (keys_identified hide)) fun _ t₁ _ => ?_
  refine fails_bind (fails_of_ok (oracle_ok.mpr rfl)) fun o₁ t₂ hor => ?_
  simp only [oracle_ok, Prod.mk.injEq] at hor
  obtain ⟨rfl, rfl⟩ := hor
  exact fails_mayThrow fun e he hbad => hlc (he.trans (congrArg some hbad))

theorem restore_untouched {identity key payload value q kind raw t' o' t'' principal}
    (hpr : prepare d identity key value (some payload) = .ok q) (hins : insertReceipt d q kind raw o t = .ok ((), t'))
    (hro : t''.rows q.reference = t'.rows q.reference) (hde : o'.decoded = some q.canonical.toValue) :
    restore d identity key principal o' t'' = (do
      lock q.reference
      match o'.encoded with
      | none => throwCode .COMMAND_UNAVAILABLE
      | some again =>
        authorize d principal
        return some { q with payload := again }) o' t'' := by
  obtain ⟨-, row, rfl, -, hfi, hpa, hstt⟩ := insertReceipt_ok hins
  have hre := (prepare_ok hpr).2.1
  have hrow : t''.rows q.reference = some row := by simpa using hro
  have hrd := read_some (o := o') (reference_identified hre) hrow (by rw [decodeStored, hstt]; rfl)
  simp only [restore, hre]
  cases hl : lock q.reference o' t'' with
  | error e => simp [bind, hl]
  | ok r =>
    obtain ⟨_, t₁⟩ := r
    cases lock_ok hl
    rw [bind_of_ok hl, bind_of_ok hl, bind_of_ok hrd]
    simp only [hpa, bind_of_ok (oracle_ok.mpr rfl), hde, prepare_again hpr]
    cases o'.encoded <;> simp [hfi]

theorem restores_untouched (d : Definition ρ) : RestoresUntouched d := by
  intro identity key payload value q hpr
  refine ⟨fun again => prepare_again hpr, fun kind raw o t t' hins o' t'' hro hde principal => ?_⟩
  have hide := reference_identified (prepare_ok hpr).2.1
  refine ⟨fun hlc => ?_, fun r t₁ h => ?_, fun again t₁ hen h => ?_⟩
  · intro e he
    rw [restore_untouched hpr hins hro hde] at he
    refine fails_bind (lock_fails_ordinary hide hlc) (fun _ t₂ _ => ?_) e he
    cases o'.encoded with
    | none => exact fails_throwCode (by simp)
    | some again => exact fails_bind authorize_fails_ordinary fun _ _ _ => fails_pure
  · rw [restore_untouched hpr hins hro hde] at h
    cases hen : o'.encoded with
    | none => simp [hen] at h
    | some again =>
      simp only [hen, bind_ok, pure_ok, Prod.mk.injEq] at h
      obtain ⟨-, -, -, -, -, -, rfl, -⟩ := h
      exact ⟨again, rfl⟩
  · rw [restore_untouched hpr hins hro hde]
    simp only [lockRequest, bind_ok] at h ⊢
    obtain ⟨_, t₂, hl, ha⟩ := h
    refine ⟨_, t₂, hl, ?_⟩
    simp only [hen, bind_ok, pure_ok]
    exact ⟨_, t₁, ha, rfl⟩

/-- 正規の文字列は項目の順を除いて値を決め、挿し入れたままの行からは、同じ入力と指紋の依頼が戻る。 -/
theorem canonical_restored (d : Definition ρ) : CanonicalLaws ∧ RestoresUntouched d := ⟨canonicalLaws, restores_untouched d⟩

theorem canonical_restored_reencoded :
    ∃ q t, prepare Transactional.sampleDefinition Transactional.sampleIdentity "op" (.boolean true) (some "first") = .ok q ∧
      insertReceipt Transactional.sampleDefinition q .transactional (some (.boolean true)) {} Tables.empty = .ok ((), t) ∧
      restore Transactional.sampleDefinition Transactional.sampleIdentity "op" none
        { decoded := some (.boolean true), encoded := some "second" } t = .ok (some { q with payload := "second" }, t) :=
  ⟨_, _, rfl, rfl,
    (((canonical_restored Transactional.sampleDefinition).2 _ _ "first" (.boolean true) _ rfl).2 .transactional (some (.boolean true)) {}
      Tables.empty _ rfl _ _ rfl rfl none).2.2 _ _ rfl rfl⟩

end Supacloud.Commands
