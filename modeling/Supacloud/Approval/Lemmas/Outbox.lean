import Supacloud.Approval.Lemmas.Steps

/-! # 結果の行 -/

namespace Supacloud.Approval

open Library Approval List

variable {db db' : Db} {r : Run} {e : Event} {l : Option Lease} {log : List Entry} {new o old : Outcome} {run : Uuid} {tenant : String}

/-! ## 結果の行と承認の対応 -/

structure OutcomeRow (clock : Timestamp) (o : Outcome) : Prop where
  payload : o.payload.runId = o.runId
  attempts : o.attempts ≤ 10
  lease : o.leaseToken.isSome = o.leaseUntil.isSome
  dead : o.deadLetteredAt ≠ none → ∀ u ∈ o.leaseUntil, u ≤ clock

structure OutcomeInv (db : Db) : Prop where
  nodup : (db.outcomes.map Outcome.runId).Nodup
  run : ∀ o ∈ db.outcomes, ∃ r ∈ db.runs, r.id = o.runId ∧ r.tenant = o.tenant ∧ r.ended
  row : ∀ r ∈ db.runs, r.ended → ∃ o ∈ db.outcomes, o.runId = r.id
  shape : ∀ o ∈ db.outcomes, OutcomeRow db.clock o

theorem OutcomeRow.fresh {r clock} (h : FreshOutcome r o) : OutcomeRow clock o where
  payload := h.payload.trans h.runId.symm
  attempts := by simp [h.attempts]
  lease := by simp [h.leaseToken, h.leaseUntil]
  dead := by simp [h.leaseUntil]

section

variable (hi : OutcomeInv db)

include hi

theorem OutcomeInv.frame (h : Frame db db') : OutcomeInv db' where
  nodup := h.outcomes ▸ hi.nodup
  run := by
    intro o ho
    rw [h.outcomes] at ho
    obtain ⟨r, hr, hid, hten, he⟩ := hi.run o ho
    obtain ⟨r', hr', hco⟩ := mem_of_map_eq h.runs.symm hr
    obtain ⟨hcid, hct, -, hce⟩ := core_eq hco
    exact ⟨r', hr', hcid.trans hid, hct.trans hten, hce.mpr he⟩
  row := by
    intro r' hr' he
    obtain ⟨r, hr, hco⟩ := mem_of_map_eq h.runs hr'
    obtain ⟨hcid, -, -, hce⟩ := core_eq hco
    obtain ⟨o, ho, hid⟩ := hi.row r hr (hce.mpr he)
    exact ⟨o, h.outcomes ▸ ho, hid.trans hcid⟩
  shape := by
    rw [h.outcomes, h.clock]
    exact hi.shape

theorem OutcomeInv.insert (hs : r.status = .pending) : OutcomeInv { db with seed := db.seed + 1, runs := db.runs ++ [r] } where
  nodup := hi.nodup
  run := by
    intro o ho
    obtain ⟨x, hx, hre⟩ := hi.run o ho
    exact ⟨x, mem_append_left _ hx, hre⟩
  row := by
    intro x hx he
    rcases mem_append.mp hx with hx | hx
    · exact hi.row x hx he
    · rw [mem_singleton.mp hx] at he
      exact absurd hs he.1
  shape := hi.shape

theorem OutcomeInv.adopt (hb : Base db) {c} (parent) (hc : c ∈ db.runs) (hs : c.status = .pending) :
    OutcomeInv (db.updateRun c.id fun x => { x with graphParentId := some parent }) := by
  have hsa : ∀ x ∈ db.runs, x.ended → x.id ≠ c.id := by
    intro x hx he hid
    rw [hb.eq_of_id hx hc hid] at he
    exact he.1 hs
  refine { hi with run := fun o ho => ?_, row := fun x' hx' he => ?_ }
  · obtain ⟨x, hx, hid, hten, he⟩ := hi.run o ho
    exact ⟨x, mem_update.mpr ⟨x, hx, by simp [hsa x hx he]⟩, hid, hten, he⟩
  · obtain ⟨x, hx, rfl⟩ := mem_update.mp hx'
    split at he
    · exact absurd he.2 nofun
    · rename_i hid
      rw [if_neg hid]
      exact hi.row x hx he

theorem OutcomeInv.close (hb : Base db) {s} (hr : r ∈ db.runs) (hp : r.status = .pending)
    (hpr : r.graphParentId = none) (hs : s ≠ .pending) (ho : FreshOutcome r o) :
    OutcomeInv { db.updateRun r.id (fun x => { x with status := s }) with outcomes := db.outcomes ++ [o] } := by
  have hot : ∀ x ∈ db.runs, x.ended → x.id ≠ r.id := by
    intro x hx he hid
    rw [hb.eq_of_id hx hr hid] at he
    exact he.1 hp
  constructor
  · rw [map_append, nodup_append]
    refine ⟨hi.nodup, by simp, fun a ha b hb' => ?_⟩
    obtain ⟨o', ho', rfl⟩ := mem_map.mp ha
    obtain ⟨x, hx, hid, -, he⟩ := hi.run o' ho'
    rw [map_singleton, mem_singleton] at hb'
    rw [hb', ho.runId, ← hid]
    exact hot x hx he
  · intro o' ho'
    rcases mem_append.mp ho' with ho' | ho'
    · obtain ⟨x, hx, hid, hten, he⟩ := hi.run o' ho'
      exact ⟨x, mem_update.mpr ⟨x, hx, by simp [hot x hx he]⟩, hid, hten, he⟩
    · rw [mem_singleton.mp ho', ho.runId, ho.tenant]
      exact ⟨{ r with status := s }, mem_update.mpr ⟨r, hr, by simp⟩, rfl, rfl, hs, hpr⟩
  · intro x' hx' he
    obtain ⟨x, hx, rfl⟩ := mem_update.mp hx'
    split
    · grind [ho.runId]
    · grind [hi.row]
  · intro o' ho'
    rcases mem_append.mp ho' with ho' | ho'
    · exact hi.shape o' ho'
    · rw [mem_singleton.mp ho']
      exact .fresh ho

theorem OutcomeInv.path (hb : Base db) (h : Path db db') : OutcomeInv db' := by
  induction h with
  | refl => exact hi
  | tail hpa hmo ih =>
    cases hmo with
    | frame h => exact ih.frame h
    | insert _ hs => exact ih.insert hs
    | adopt parent hc hs => exact ih.adopt (hb.path hpa) parent hc hs
    | close hr hp hpr hs ho => exact ih.close (hb.path hpa) hr hp hpr hs ho

end

/-! ## 送り箱の一手 -/

inductive Served (db : Db) : Event → Option Lease → Outcome → Outcome → Prop where
  | claim {env tenant leaseSeconds o} : available env db tenant o → o.attempts < 10 →
      Served db (.claimOutcome env tenant leaseSeconds)
        (some ⟨o.payload, db.seed, db.clock + seconds leaseSeconds, o.attempts + 1⟩) o
        { o with
          attempts := o.attempts + 1
          leaseToken := some db.seed
          leaseUntil := some (db.clock + seconds leaseSeconds) }
  | exhaust {env tenant leaseSeconds o} : available env db tenant o → 10 ≤ o.attempts →
      Served db (.claimOutcome env tenant leaseSeconds) none o
        { o with deadLetteredAt := some db.clock, lastErrorCode := some "ATTEMPTS_EXHAUSTED" }
  | ack {token o} : o.leaseToken = some token → o.acknowledgedAt = none → o.deadLetteredAt = none →
      (∀ u ∈ o.leaseUntil, db.clock < u) →
      Served db (.ackOutcome o.tenant o.runId token) none o { o with acknowledgedAt := some db.clock }
  | nack {token code o} : o.leaseToken = some token → o.acknowledgedAt = none → o.deadLetteredAt = none →
      Served db (.nackOutcome o.tenant o.runId token code) none o
        { o with
          lastErrorCode := some code
          leaseToken := none
          leaseUntil := none
          availableAt := db.clock + backoff o.attempts
          deadLetteredAt := if 10 ≤ o.attempts then some db.clock else none }
  | requeue {reason o} : o.deadLetteredAt ≠ none → o.acknowledgedAt = none →
      Served db (.requeueOutcome o.tenant o.runId reason) none o
        { o with
          deadLetteredAt := none
          attempts := 0
          leaseToken := none
          leaseUntil := none
          availableAt := db.clock
          lastErrorCode := none }

theorem findOutcome_mem (h : db.findOutcome tenant run = some o) : o ∈ db.outcomes ∧ o.tenant = tenant ∧ o.runId = run := by
  refine ⟨mem_of_find?_eq_some h, ?_⟩
  simpa using find?_some h

theorem nextOutcome_mem {env} (h : nextOutcome env db tenant = some o) : o ∈ db.outcomes ∧ available env db tenant o := by
  have hmem := mem_of_mem_head? h
  rw [mem_insertionSort, mem_filter] at hmem
  simpa using hmem

theorem updateOutcome_ok (h : updateOutcome db old new = .ok db') : db' = { db with
    outcomes := update (fun o => o.tenant = old.tenant ∧ o.runId = old.runId) (fun _ => new) db.outcomes } := by
  simp only [updateOutcome, bind_eq_ok, require_eq_ok, pure_eq_ok, exists_const] at h
  exact h.2.2.symm

theorem step_served (he : e.isOutbox = true) (h : step db e = .ok (db', l)) :
    (db' = db ∧ l = none) ∨ ∃ old new, old ∈ db.outcomes ∧ Served db e l old new ∧ db.seed ≤ db'.seed ∧
      db'.clock = db.clock ∧ db'.runs = db.runs ∧
      db'.outcomes = update (fun o => o.tenant = old.tenant ∧ o.runId = old.runId) (fun _ => new) db.outcomes := by
  cases e with
  | claimOutcome env tenant leaseSeconds =>
    simp only [step, claimOutcome, bind_eq_ok, require_eq_ok, exists_const] at h
    obtain ⟨-, h⟩ := h
    split at h
    · simp only [pure_eq_ok, Prod.mk.injEq] at h
      exact .inl ⟨h.1.symm, h.2.symm⟩
    · rename_i o hnx
      obtain ⟨ho, hav⟩ := nextOutcome_mem hnx
      split at h
      · rename_i hten
        simp only [bind_eq_ok, pure_eq_ok, Prod.mk.injEq] at h
        obtain ⟨db₁, h₁, rfl, rfl⟩ := h
        cases updateOutcome_ok h₁
        exact .inr ⟨o, _, ho, .exhaust hav hten, le_rfl, rfl, rfl, rfl⟩
      · rename_i hten
        simp only [bind_eq_ok, pure_eq_ok, Prod.mk.injEq] at h
        obtain ⟨db₁, h₁, rfl, rfl⟩ := h
        cases updateOutcome_ok h₁
        exact .inr ⟨o, _, ho, .claim hav (Nat.lt_of_not_le hten), Nat.le_succ _, rfl, rfl, rfl⟩
  | ackOutcome tenant run token =>
    obtain ⟨hack, rfl⟩ := quiet_ok h
    simp only [ackOutcome, bind_eq_ok, fetch_eq_ok, require_eq_ok, exists_const] at hack
    obtain ⟨o, ho, htok, hack⟩ := hack
    obtain ⟨hmem, rfl, rfl⟩ := findOutcome_mem ho
    split at hack
    · simp only [pure_eq_ok] at hack
      exact .inl ⟨hack.symm, rfl⟩
    · rename_i hno
      simp only [bind_eq_ok, require_eq_ok, exists_const] at hack
      obtain ⟨⟨hde, hti⟩, hack⟩ := hack
      cases updateOutcome_ok hack
      exact .inr ⟨o, _, hmem, .ack htok (by simpa using hno) hde hti, le_rfl, rfl, rfl, rfl⟩
  | nackOutcome tenant run token code =>
    obtain ⟨hna, rfl⟩ := quiet_ok h
    simp only [nackOutcome, bind_eq_ok, fetch_eq_ok, require_eq_ok, exists_const] at hna
    obtain ⟨-, o, ho, ⟨htok, hack, hde, -⟩, hna⟩ := hna
    obtain ⟨hmem, rfl, rfl⟩ := findOutcome_mem ho
    cases updateOutcome_ok hna
    exact .inr ⟨o, _, hmem, .nack htok hack hde, le_rfl, rfl, rfl, rfl⟩
  | requeueOutcome tenant run reason =>
    obtain ⟨hreq, rfl⟩ := quiet_ok h
    simp only [requeueOutcome, bind_eq_ok, fetch_eq_ok, require_eq_ok, exists_const] at hreq
    obtain ⟨-, o, ho, ⟨hde, hack⟩, hreq⟩ := hreq
    obtain ⟨hmem, rfl, rfl⟩ := findOutcome_mem ho
    cases updateOutcome_ok hreq
    exact .inr ⟨o, _, hmem, .requeue (Option.isSome_iff_ne_none.mp hde) hack, le_rfl, rfl, rfl, rfl⟩
  | _ => cases he

theorem Served.key (h : Served db e l old new) : new.tenant = old.tenant ∧ new.runId = old.runId := by
  cases h <;> exact ⟨rfl, rfl⟩

theorem Served.unacknowledged (h : Served db e l old new) : old.acknowledgedAt = none := by
  cases h with
  | claim hav _ | exhaust hav _ => exact hav.2.1
  | ack _ hack _ _ | nack _ hack _ | requeue _ hack => exact hack

theorem Served.payload (h : Served db e l old new) : new.payload = old.payload ∧ ∀ x ∈ l, x.payload = old.payload := by
  cases h <;> simp

theorem Served.shape (h : Served db e l old new) (ho : OutcomeRow db.clock old) : OutcomeRow db.clock new := by
  cases h with
  | claim hav hlt =>
    refine ⟨ho.payload, hlt, by simp, fun hde => ?_⟩
    exact absurd hav.2.2.1 hde
  | exhaust hav _ => exact ⟨ho.payload, ho.attempts, ho.lease, fun _ => hav.2.2.2.2.1⟩
  | ack _ _ _ _ => exact ⟨ho.payload, ho.attempts, ho.lease, ho.dead⟩
  | nack _ _ _ => exact ⟨ho.payload, ho.attempts, rfl, by simp⟩
  | requeue _ _ => exact ⟨ho.payload, Nat.zero_le _, rfl, by simp⟩

/-! ## 取引の前後の行 -/

theorem OutcomeInv.update_row (hi : OutcomeInv db) (hold : old ∈ db.outcomes) (ho : o ∈ db.outcomes) :
    (if Decidable.decide (o.tenant = old.tenant ∧ o.runId = old.runId) = true then new else o) =
      if o = old then new else o := by
  by_cases he : o = old
  · simp [he]
  · have hne : ¬ (o.tenant = old.tenant ∧ o.runId = old.runId) := fun h => he (eq_of_key hi.nodup ho hold h.2)
    simp [he, hne]

structure RowsStep (db : Db) (e : Event) (l : Option Lease) (db' : Db) : Prop where
  clock : db.clock ≤ db'.clock
  kept : ∀ o ∈ db.outcomes, o ∈ db'.outcomes ∨ ∃ new ∈ db'.outcomes, Served db e l o new
  origin : ∀ o' ∈ db'.outcomes, o' ∈ db.outcomes ∨ o'.acknowledgedAt = none ∨ ∃ old ∈ db.outcomes, Served db e l old o'
  lease : ∀ x ∈ l, ∃ old ∈ db.outcomes, ∃ new ∈ db'.outcomes, Served db e l old new

theorem RowsStep.refl (db e) : RowsStep db e none db :=
  ⟨le_rfl, fun _ ho => .inl ho, fun _ ho => .inl ho, by simp⟩

theorem Path.outcomes (h : Path db db') :
    db'.clock = db.clock ∧ ∃ rows, db'.outcomes = db.outcomes ++ rows ∧ ∀ o ∈ rows, o.acknowledgedAt = none := by
  induction h with
  | refl => exact ⟨rfl, [], by simp, by simp⟩
  | tail _ hmo ih =>
    obtain ⟨hcl, rows, hro, hun⟩ := ih
    cases hmo with
    | frame h => exact ⟨h.clock.trans hcl, rows, h.outcomes.trans hro, hun⟩
    | insert _ _ | adopt _ _ _ => exact ⟨hcl, rows, hro, hun⟩
    | @close r s o _ _ _ _ ho =>
      refine ⟨hcl, rows ++ [o], (congrArg (· ++ [o]) hro).trans (append_assoc _ _ _), fun o' ho' => ?_⟩
      rcases mem_append.mp ho' with ho' | ho'
      · exact hun o' ho'
      · exact mem_singleton.mp ho' ▸ ho.acknowledgedAt

theorem Path.rowsStep (h : Path db db') (e) : RowsStep db e none db' := by
  obtain ⟨hcl, rows, hro, hun⟩ := h.outcomes
  refine ⟨hcl.ge, fun o ho => .inl (hro ▸ mem_append_left _ ho), fun o ho => ?_, by simp⟩
  rw [hro, mem_append] at ho
  rcases ho with ho | ho
  · exact .inl ho
  · exact .inr (.inl (hun o ho))

theorem step_rows (hb : Base db) (hi : OutcomeInv db) (h : step db e = .ok (db', l)) : RowsStep db e l db' := by
  cases he : e.isOutbox with
  | true =>
    rcases step_served he h with ⟨rfl, rfl⟩ | ⟨old, new, hold, hse, -, hcl, -, hout⟩
    · exact .refl db' e
    · have hnew : new ∈ db'.outcomes := by
        rw [hout, mem_update]
        exact ⟨old, hold, by simp⟩
      refine ⟨hcl.ge, ?_, ?_, fun _ _ => ⟨old, hold, new, hnew, hse⟩⟩
      · intro o ho
        by_cases heq : o = old
        · exact .inr ⟨new, hnew, heq ▸ hse⟩
        · left
          rw [hout, mem_update]
          exact ⟨o, ho, by rw [hi.update_row hold ho, if_neg heq]⟩
      · intro o' ho'
        rw [hout, mem_update] at ho'
        obtain ⟨o, ho, rfl⟩ := ho'
        rw [hi.update_row hold ho]
        split
        · exact .inr (.inr ⟨old, hold, hse⟩)
        · exact .inl ho
  | false =>
    obtain ⟨rfl, hef⟩ := step_effect hb he h
    cases hef with
    | tick elapsed => exact ⟨Nat.le_add_right _ _, fun _ ho => .inl ho, fun _ ho => .inl ho, by simp⟩
    | path hpa => exact hpa.rowsStep e

/-! ## 走行 -/

theorem OutcomeInv.served (hi : OutcomeInv db) (hold : old ∈ db.outcomes)
    (hs : Served db e l old new) (hcl : db'.clock = db.clock) (hru : db'.runs = db.runs)
    (hout : db'.outcomes = update (fun o => o.tenant = old.tenant ∧ o.runId = old.runId) (fun _ => new) db.outcomes) :
    OutcomeInv db' := by
  have hmem : ∀ o' ∈ db'.outcomes, o' = new ∨ o' ∈ db.outcomes := by grind [mem_update]
  constructor
  · rw [hout, map_update]
    · exact hi.nodup
    · intro o ho
      simp only [decide_eq_true_eq] at ho
      rw [hs.key.2, ho.2]
  · grind [hs.key, hi.run]
  · intro r hr he
    rw [hru] at hr
    obtain ⟨o, ho, hid⟩ := hi.row r hr he
    rw [hout]
    refine ⟨_, mem_update.mpr ⟨o, ho, rfl⟩, ?_⟩
    rw [hi.update_row hold ho]
    split
    · rename_i heq
      rw [hs.key.2, ← heq, hid]
    · exact hid
  · grind [hs.shape, hi.shape]

theorem OutcomeInv.step (hi : OutcomeInv db) (hb : Base db) (h : step db e = .ok (db', l)) : OutcomeInv db' := by
  cases he : e.isOutbox with
  | true => grind [hi.served, step_served]
  | false =>
    cases (step_effect hb he h).2 with
    | tick elapsed =>
      refine { hi with shape := fun o ho => ?_ }
      have hrow := hi.shape o ho
      exact { hrow with dead := fun hd u hu => Nat.le_trans (hrow.dead hd u hu) (Nat.le_add_right _ _) }
    | path hpa => exact hi.path hb hpa

theorem Base.step (hb : Base db) (h : step db e = .ok (db', l)) : Base db' := by
  cases he : e.isOutbox with
  | true =>
    rcases step_served he h with ⟨rfl, -⟩ | ⟨-, -, -, -, hsd, -, hru, -⟩
    · exact hb
    · exact ⟨hru ▸ hb.ids, hru ▸ fun r hr => (hb.fresh r hr).trans_le hsd⟩
  | false =>
    cases (step_effect hb he h).2 with
    | tick elapsed => exact { hb with }
    | path hpa => exact hb.path hpa

theorem commit_cases (db e) : (step db e = .ok (commit db e)) ∨ commit db e = (db, none) := by
  rw [commit]
  split
  · rename_i h
    exact .inl h
  · exact .inr rfl

theorem OutcomeInv.commit (hi : OutcomeInv db) (hb : Base db) (e) : OutcomeInv (commit db e).1 := by
  rcases commit_cases db e with h | h
  · exact hi.step hb h
  · rw [h]
    exact hi

theorem commit_rows (hb : Base db) (hi : OutcomeInv db) (e) : RowsStep db e (commit db e).2 (commit db e).1 := by
  rcases commit_cases db e with h | h
  · exact step_rows hb hi h
  · rw [h]
    exact .refl db e

theorem Trace.base (h : Trace log db) : Base db := by
  induction h with
  | empty clock seed => constructor <;> simp [Db.empty]
  | @commit log db e _ ih =>
    rcases commit_cases db e with h | h
    · exact ih.step h
    · exact h ▸ ih

theorem Trace.outcomeInv (h : Trace log db) : OutcomeInv db := by
  induction h with
  | empty clock seed => constructor <;> simp [Db.empty]
  | commit e h ih => exact ih.commit h.base e

theorem Trace.entries {P : Entry → Prop} (h : Trace log db) (hP : ∀ {log db} (e), Trace log db → P (Entry.of db e)) : ∀ x ∈ log, P x := by
  induction h with
  | empty clock seed => simp
  | commit e h ih =>
    intro x hx
    rcases mem_cons.mp hx with rfl | hx
    · exact hP e h
    · exact ih x hx

theorem RowsStep.acknowledged (h : RowsStep db e l db') (ho : o ∈ db.outcomes) (hack : o.acknowledgedAt ≠ none) : o ∈ db'.outcomes := by
  rcases h.kept o ho with hk | ⟨new, -, hs⟩
  · exact hk
  · exact absurd hs.unacknowledged hack

theorem Trace.acknowledged (h : Trace log db) {x} (hx : x ∈ log)
    (ho : o ∈ x.before.outcomes) (hack : o.acknowledgedAt ≠ none) : o ∈ db.outcomes := by
  induction h with
  | empty clock seed => cases hx
  | commit e h ih =>
    have hro := commit_rows h.base h.outcomeInv e
    rcases mem_cons.mp hx with rfl | hx
    · exact hro.acknowledged ho hack
    · exact hro.acknowledged (ih hx) hack

theorem Trace.payload (h : Trace log db) : ∀ x ∈ log, ∀ l ∈ x.lease, ∃ o ∈ db.outcomes, o.payload = l.payload := by
  induction h with
  | empty clock seed => simp
  | commit e h ih =>
    have hro := commit_rows h.base h.outcomeInv e
    intro x hx l hl
    rcases mem_cons.mp hx with rfl | hx
    · obtain ⟨old, -, new, hnew, hs⟩ := hro.lease l hl
      exact ⟨new, hnew, hs.payload.1.trans (hs.payload.2 l hl).symm⟩
    · obtain ⟨o, ho, hpa⟩ := ih x hx l hl
      rcases hro.kept o ho with hk | ⟨new, hnew, hs⟩
      · exact ⟨o, hk, hpa⟩
      · exact ⟨new, hnew, hs.payload.1.trans hpa⟩

theorem RowsStep.lease_row (h : RowsStep db e l db') (hi : OutcomeInv db) {x} (hx : l = some x) :
    ∃ old ∈ db.outcomes, ∃ new ∈ db'.outcomes, old.runId = x.payload.runId ∧ new.runId = x.payload.runId ∧
      new.leaseToken = some x.leaseToken ∧ new.leaseUntil = some x.leaseUntil ∧ old.acknowledgedAt = none ∧ old.attempts < 10 := by
  subst hx
  obtain ⟨old, hold, new, hnew, hs⟩ := h.lease x rfl
  have hpay := (hi.shape old hold).payload
  cases hs with
  | claim hav hlt => exact ⟨old, hold, _, hnew, hpay.symm, hpay.symm, rfl, rfl, hav.2.1, hlt⟩

theorem Surrendered.of_nack {code token r} (h : step db (.nackOutcome tenant run token code) = .ok r) :
    Surrendered (Entry.of db (.nackOutcome tenant run token code) :: log) run token :=
  ⟨Entry.of db (.nackOutcome tenant run token code), mem_cons_self, ⟨r, h⟩, tenant, code, rfl⟩

theorem Surrendered.cons {token} (x) (h : Surrendered log run token) : Surrendered (x :: log) run token := by
  obtain ⟨y, hy, hre⟩ := h
  exact ⟨y, mem_cons_of_mem _ hy, hre⟩

theorem Trace.held (h : Trace log db) {x} (hx : HoldsLease log db x) :
    ∃ o ∈ db.outcomes, o.runId = x.payload.runId ∧ o.leaseToken = some x.leaseToken ∧ o.leaseUntil = some x.leaseUntil := by
  induction h with
  | empty clock seed =>
    obtain ⟨y, hy, -⟩ := hx.granted
    cases hy
  | @commit log db e h ih =>
    have hi := h.outcomeInv
    have hro := commit_rows h.base hi e
    obtain ⟨y, hy, hyl⟩ := hx.granted
    rcases mem_cons.mp hy with rfl | hy
    · obtain ⟨-, -, new, hnew, -, hid, htok, hun, -⟩ := hro.lease_row hi hyl
      exact ⟨new, hnew, hid, htok, hun⟩
    · have hcl : db.clock < x.leaseUntil := Nat.lt_of_le_of_lt hro.clock hx.unexpired
      obtain ⟨o, ho, hid, htok, hun⟩ := ih ⟨⟨y, hy, hyl⟩, hcl, fun hs => hx.kept (hs.cons _)⟩
      rcases hro.kept o ho with hk | ⟨new, hnew, hs⟩
      · exact ⟨o, hk, hid, htok, hun⟩
      · -- 借りられている行に働くのは、受け取りと、同じ番号の願い出だけである
        have hli : ¬ ∀ u ∈ o.leaseUntil, u ≤ db.clock := by
          intro hle
          exact Nat.not_le_of_lt hcl (hle x.leaseUntil hun)
        generalize hl : (Approval.commit db e).2 = lease at hs
        cases hs with
        | claim hav _ | exhaust hav _ => exact absurd hav.2.2.2.2.1 hli
        | ack _ _ _ _ => exact ⟨_, hnew, hid, htok, hun⟩
        | @nack token code _ ht _ _ =>
          cases ht.symm.trans htok
          rcases commit_cases db (.nackOutcome o.tenant o.runId x.leaseToken code) with hok | hrej
          · exact absurd (hid ▸ Surrendered.of_nack hok) hx.kept
          · rw [hrej]
            exact ⟨o, ho, hid, htok, hun⟩
        | requeue hde _ => exact absurd ((hi.shape o ho).dead hde) hli

theorem RowsStep.exhausted (h : RowsStep db e l db') (hi : OutcomeInv db) (ho : o ∈ db.outcomes)
    (ht : 10 ≤ o.attempts) (hne : ∀ reason, e ≠ .requeueOutcome o.tenant o.runId reason) : (∀ x, l = some x → x.payload.runId ≠ o.runId) ∧
      ∃ o' ∈ db'.outcomes, o'.tenant = o.tenant ∧ o'.runId = o.runId ∧ 10 ≤ o'.attempts := by
  constructor
  · intro x hx hid
    obtain ⟨old, hold, -, -, hrun, -, -, -, -, hlt⟩ := h.lease_row hi hx
    rw [eq_of_key hi.nodup hold ho (hrun.trans hid)] at hlt
    exact absurd ht (Nat.not_le_of_lt hlt)
  · rcases h.kept o ho with hk | ⟨new, hnew, hs⟩
    · exact ⟨o, hk, rfl, rfl, ht⟩
    · cases hs with
      | claim _ hlt => exact absurd ht (Nat.not_le_of_lt hlt)
      | exhaust _ _ | ack _ _ _ _ | nack _ _ _ => exact ⟨_, hnew, rfl, rfl, ht⟩
      | requeue _ _ => exact absurd rfl (hne _)

theorem Trace.exhausted {newer older x} (h : Trace log db) (hlog : log = newer ++ x :: older) (ho : o ∈ x.before.outcomes) (ht : 10 ≤ o.attempts)
    (hne : ∀ y ∈ newer ++ [x], ∀ reason, y.event ≠ .requeueOutcome o.tenant o.runId reason) :
    (∀ y ∈ newer ++ [x], ∀ lease, y.lease = some lease → lease.payload.runId ≠ o.runId) ∧
      ∃ o' ∈ db.outcomes, o'.tenant = o.tenant ∧ o'.runId = o.runId ∧ 10 ≤ o'.attempts := by
  induction h generalizing newer with
  | empty clock seed => simp at hlog
  | @commit log db e h ih =>
    have hro := commit_rows h.base h.outcomeInv e
    cases newer with
    | nil =>
      rw [nil_append, cons.injEq] at hlog
      obtain ⟨rfl, -⟩ := hlog
      obtain ⟨hls, hrow⟩ := hro.exhausted h.outcomeInv ho ht (hne _ mem_cons_self)
      refine ⟨fun y hy => ?_, hrow⟩
      rw [mem_singleton.mp hy]
      exact hls
    | cons y newer =>
      rw [cons_append, cons.injEq] at hlog
      obtain ⟨rfl, hlog⟩ := hlog
      obtain ⟨hold, o₁, ho₁, hten, hid, ht₁⟩ := ih hlog fun y hy => hne y (mem_cons_of_mem _ hy)
      have hla : ∀ reason, e ≠ .requeueOutcome o₁.tenant o₁.runId reason := by
        rw [hten, hid]
        exact hne _ mem_cons_self
      obtain ⟨hls, o₂, ho₂, hte₂, hid₂, ht₂⟩ := hro.exhausted h.outcomeInv ho₁ ht₁ hla
      refine ⟨fun y hy => ?_, o₂, ho₂, hte₂.trans hten, hid₂.trans hid, ht₂⟩
      rcases mem_cons.mp hy with rfl | hy
      · rw [← hid]
        exact hls
      · exact hold y hy

theorem RowsStep.acknowledges (h : RowsStep db e l db') (hi : OutcomeInv db) {o'} (ho' : o' ∈ db'.outcomes)
    (hack : o'.acknowledgedAt ≠ none) (hnew : ∀ o ∈ db.outcomes, o.runId = o'.runId → o.acknowledgedAt = none) :
    ∃ o ∈ db.outcomes, o.runId = o'.runId ∧ ∃ token deadline, e = .ackOutcome o.tenant o.runId token ∧
      o.leaseToken = some token ∧ o.leaseUntil = some deadline ∧ db.clock < deadline := by
  rcases h.origin o' ho' with hold | hun | ⟨old, hold, hs⟩
  · exact absurd (hnew o' hold rfl) hack
  · exact absurd hun hack
  · have hno := hs.unacknowledged
    have hsh := (hi.shape old hold).lease
    cases hs with
    | claim _ _ | exhaust _ _ | nack _ _ _ | requeue _ _ => exact absurd hno hack
    | @ack token _ htok _ _ hti =>
      rw [htok] at hsh
      obtain ⟨u, hu⟩ := Option.isSome_iff_exists.mp hsh.symm
      exact ⟨old, hold, rfl, token, u, rfl, htok, hu, hti u hu⟩

end Supacloud.Approval
