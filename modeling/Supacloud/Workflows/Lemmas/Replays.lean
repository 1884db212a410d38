import Supacloud.Workflows.Lemmas.Growth

/-! # 要求の送り直し -/

namespace Supacloud.Workflows

open Library Store EventRow Request List Option

variable {s s' : Store} {now : Timestamp} {q q' : Request} {r : Uuid} {run : Run} {t : Step} {moment : Moment}
  {reply : Reply} {id : Uuid} {attempt : Nat} {receipt : RetryReceipt} {e : EventRow} {t' : Step} {workerId : Text}

/-! ## event と step -/

theorem Sound.event_step (h : Sound s) (he : e ∈ s.events) (hid : e.stepId = some id) :
    ∃ t ∈ s.steps, t.id = id ∧ t.runId = e.runId ∧ Ledger (s.view t.runId).events t := by
  have hmem : e ∈ (s.view e.runId).events := mem_events.mpr ⟨he, rfl⟩
  have hst : ∃ t ∈ (s.view e.runId).chain, t.id = id ∧ Ledger (s.view e.runId).events t := by
    have hph := h.phase e.runId
    generalize s.view e.runId = v at hph hmem
    cases hph with
    | absent => cases hmem
    | live _ _ hcha | ended _ _ hcha =>
      obtain ⟨x, hx, hxid⟩ := hcha.known e hmem id hid
      exact ⟨x, hx, hxid, hcha.ledger x hx⟩
  obtain ⟨t, ht, htid, hle⟩ := hst
  obtain ⟨hmm', hrun⟩ := mem_chain.mp ht
  exact ⟨t, hmm', htid, hrun, hrun.symm ▸ hle⟩

theorem Sound.filterMap_view {α : Type} (h : Sound s) (ht : t ∈ s.steps) {g : EventRow → Option α}
    (hg : ∀ e x, g e = some x → e.stepId = some t.id) : s.events.filterMap g = (s.view t.runId).events.filterMap g := by
  have hot : ∀ e ∈ s.events, e.runId ≠ t.runId → g e = none := by
    intro e he hrun
    cases hge : g e with
    | none => rfl
    | some x =>
      obtain ⟨t', ht', hid, hru', -⟩ := h.event_step he (hg e x hge)
      rw [Library.eq_of_key h.stepIds ht' ht hid] at hru'
      exact absurd hru'.symm hrun
  have hli : ∀ l : List EventRow, (∀ e ∈ l, e.runId ≠ t.runId → g e = none) →
      l.filterMap g = (l.filter fun e => e.runId = t.runId).filterMap g := by
    intro l hl
    induction l with
    | nil => rfl
    | cons e l ih => grind
  exact hli s.events hot

theorem EventRow.claim_stepId {x} (h : e.claim id = some x) : e.stepId = some id := by
  unfold claim at h
  split at h
  · assumption
  · cases h

theorem EventRow.outcome_stepId {x} (h : e.outcome id = some x) : e.stepId = some id := by
  unfold outcome at h
  split at h
  · assumption
  · cases h

section

variable (h : Sound s) (ht : t ∈ s.steps)

include h ht

theorem Sound.claimsOf_view : claimsOf t.id s.events = claimsOf t.id (s.view t.runId).events :=
  h.filterMap_view ht fun _ _ => claim_stepId

theorem Sound.outcomesOf_view : outcomesOf t.id s.events = outcomesOf t.id (s.view t.runId).events :=
  h.filterMap_view ht fun _ _ => outcome_stepId

theorem Sound.ledger : Ledger s.events t := by
  have hmem : t ∈ (s.view t.runId).chain := mem_chain.mpr ⟨ht, rfl⟩
  have hle : Ledger (s.view t.runId).events t := by
    rcases h.chained (r := t.runId) with hnil | ⟨past, x, hch, hcha⟩
    · rw [hnil] at hmem
      cases hmem
    · exact hcha.ledger t (hch ▸ hmem)
  have hc := h.claimsOf_view ht
  have ho := h.outcomesOf_view ht
  exact ⟨hc ▸ hle.claims, hc ▸ hle.bound, hc ▸ hle.active, hc ▸ hle.latest, ho ▸ hle.once, hc ▸ ho ▸ hle.claimed, ho ▸ hle.pending⟩

theorem Sound.attempted : Attempted s t := by
  have hle := h.ledger ht
  refine ⟨?_, hle.bound, hle.once⟩
  rw [hle.claims]
  exact pairwise_lt_range'

end

/-! ## 試みを戻した記録 -/

theorem EventRow.receipt_outcome (h : e.receipt id attempt = some receipt) : e.outcome id = some attempt := by
  unfold EventRow.receipt at h
  split at h
  · rename_i hco
    obtain ⟨hid, hat, hty⟩ := hco
    split at h
    · rename_i hdes
      rcases hty with hty | hty <;> simp [outcome, hid, hat, hty, hdes]
    · cases h
  · cases h

theorem Sound.retryReceipt_of_mem (h : Sound s) (he : e ∈ s.events) (hr : e.receipt id attempt = some receipt) :
    s.retryReceipt id attempt = some receipt := by
  unfold retryReceipt
  cases hfi : s.events.reverse.findSome? (EventRow.receipt id attempt) with
  | none =>
    rw [findSome?_eq_none_iff] at hfi
    rw [hfi e (mem_reverse.mpr he)] at hr
    cases hr
  | some receipt' =>
    obtain ⟨e', he', hr'⟩ := exists_of_findSome?_eq_some hfi
    have ho := receipt_outcome hr
    obtain ⟨t, ht, rfl, -, -⟩ := h.event_step he (EventRow.outcome_stepId ho)
    rw [Library.eq_of_filterMap_nodup (h.ledger ht).once (mem_reverse.mp he') he (receipt_outcome hr') ho, hr] at hr'
    exact hr'.symm

theorem Store.retryReceipt_mem (h : s.retryReceipt id attempt = some receipt) : ∃ e ∈ s.events, e.receipt id attempt = some receipt := by
  obtain ⟨e, he, hr⟩ := exists_of_findSome?_eq_some h
  exact ⟨e, mem_reverse.mp he, hr⟩

theorem Store.Grows.retryReceipt (h : s.Grows s') (hs : Sound s') (hr : s.retryReceipt id attempt = some receipt) :
    s'.retryReceipt id attempt = some receipt := by
  obtain ⟨e, he, hre⟩ := retryReceipt_mem hr
  have he' := (h e.runId).events e (mem_events.mpr ⟨he, rfl⟩)
  exact hs.retryReceipt_of_mem (mem_events.mp he').1 hre

/-! ## 記録のある要求 -/

theorem guarded_of {accepted} [Decidable accepted] {invalid body x}
    (ha : accepted) (hb : body = .ok x) : guarded accepted invalid body = .ok x := by
  simp [guarded, ha, hb, require, Except.mapError, bind, Except.bind]

theorem Store.snapshot_of_run (h : s.run id = some run) (idempotent) :
    s.snapshot id idempotent = some ⟨run, s.stepsOf id, idempotent⟩ := by
  simp [snapshot, h]

theorem Sound.run_of_step (h : Sound s) (ht : t ∈ s.steps) : ∃ run, s.run t.runId = some run := by
  have hmem : t ∈ (s.view t.runId).chain := mem_chain.mpr ⟨ht, rfl⟩
  have hph := h.phase t.runId
  rw [run_eq_head?]
  generalize s.view t.runId = v at hph hmem
  cases hph with
  | absent => cases hmem
  | live | ended => exact ⟨_, rfl⟩

theorem Recorded.replays (hs : Sound s) (hche : q.Checked) (h : Recorded s q) : Replays s moment q := by
  cases q with
  | start r =>
    obtain ⟨huu, name, version, key, hna, hve, hkey, hchs⟩ := hche
    obtain ⟨run, first, hrun, hfr, h₁, h₂, h₃, h₄, h₅, h₆⟩ := h
    rw [hna, some.injEq] at h₁
    rw [hve, some.injEq] at h₂
    rw [hkey, some.injEq] at h₄
    have hsn := snapshot_of_run hrun true
    refine ⟨r.runId, _, none, hsn, guarded_of huu ?_⟩
    simp only [startRun, bind_eq_ok, fetch_eq_ok, require_eq_ok]
    refine ⟨name, hna, version, hve, key, hkey, ⟨⟩, hchs, ?_⟩
    simp only [hrun, bind_eq_ok, fetch_eq_ok, require_eq_ok, pure_eq_ok, hsn]
    exact ⟨first, hfr, ⟨⟩, ⟨h₁, h₂, h₃, h₄, h₅, h₆⟩, trivial⟩
  | claim r => exact h.elim
  | advance r =>
    obtain ⟨hac, key, hkey, hchs⟩ := hche
    obtain ⟨key', t, next, hke', hlo, hstas, hnx, hsa⟩ := h
    rw [hkey, some.injEq] at hke'
    subst hke'
    obtain ⟨run, hrun⟩ := hs.run_of_step (lockStepAttempt_ok hlo).1
    have hsn := snapshot_of_run hrun true
    refine ⟨t.runId, _, none, hsn, guarded_of hac ?_⟩
    simp only [advanceStep, bind_eq_ok, fetch_eq_ok, require_eq_ok]
    refine ⟨key, hkey, ⟨⟩, hchs, t, hlo, ?_⟩
    simp only [hstas, ↓reduceIte, bind_eq_ok, fetch_eq_ok, require_eq_ok, pure_eq_ok, hsn]
    exact ⟨next, hnx, ⟨⟩, hsa, trivial⟩
  | complete r =>
    obtain ⟨hac, hchs⟩ := hche
    obtain ⟨t, run, hlo, hstas, hrun, hnx, hou, hdo, hrs⟩ := h
    have hsn := snapshot_of_run hrun true
    refine ⟨t.runId, _, none, hsn, guarded_of hac ?_⟩
    simp only [completeRun, bind_eq_ok, require_eq_ok]
    refine ⟨⟨⟩, hchs, t, hlo, ?_⟩
    simp only [hstas, ↓reduceIte, bind_eq_ok, require_eq_ok, pure_eq_ok, hsn]
    exact ⟨⟨⟩, ⟨hnx, hou, by simp [hrun, hdo, hrs]⟩, trivial⟩
  | retry r =>
    obtain ⟨hac, error, her, hchs⟩ := hche
    obtain ⟨t, receipt, hst, hrc, hme, hwo, hsa, hde⟩ := h
    rw [her, some.injEq] at hsa
    obtain ⟨run, hrun⟩ := hs.run_of_step (mem_of_step hst).1
    have hsn := snapshot_of_run hrun true
    refine ⟨t.runId, _, some { receipt with stepId := t.id, attempt := r.attempt }, hsn, guarded_of hac ?_⟩
    simp only [retryStep, bind_eq_ok, fetch_eq_ok, require_eq_ok, lockStep]
    refine ⟨error, her, ⟨⟩, hchs, t, hst, ?_⟩
    simp only [hrc, bind_eq_ok, require_eq_ok, pure_eq_ok, hsn]
    exact ⟨⟨⟩, ⟨hme, hwo, hsa, hde⟩, trivial⟩
  | fail r =>
    obtain ⟨hac, error, her, hln⟩ := hche
    obtain ⟨t, run, hlo, hstas, hrun, hme, hdo, hrs⟩ := h
    rw [her, some.injEq] at hme
    have hsn := snapshot_of_run hrun true
    refine ⟨t.runId, _, none, hsn, guarded_of hac ?_⟩
    simp only [failStep, bind_eq_ok, fetch_eq_ok, require_eq_ok]
    refine ⟨error, her, ⟨⟩, hln, t, hlo, ?_⟩
    simp only [hstas, ↓reduceIte, bind_eq_ok, require_eq_ok, pure_eq_ok, hsn]
    exact ⟨⟨⟩, ⟨hme, by simp [hrun, hdo, hrs, hme]⟩, trivial⟩
  | cancel r =>
    obtain ⟨huu, reason, hrea, hln⟩ := hche
    obtain ⟨run, hrun, hstas, hme⟩ := h
    rw [hrea, some.injEq] at hme
    have hsn := snapshot_of_run hrun true
    refine ⟨r.runId, _, none, hsn, guarded_of huu ?_⟩
    simp only [cancelRun, bind_eq_ok, fetch_eq_ok, require_eq_ok]
    refine ⟨reason, hrea, ⟨⟩, hln, run, hrun, ?_⟩
    simp only [hstas, ↓reduceIte, bind_eq_ok, require_eq_ok, pure_eq_ok, hsn]
    exact ⟨⟨⟩, hme, trivial⟩

theorem Recorded.grows (hs' : Sound s') (hgrs : s.Grows s') (hl : ∀ r, q = .start r → Led (s.view r.runId) ∧ Led (s'.view r.runId))
    (h : Recorded s q) : Recorded s' q := by
  cases q with
  | start r =>
    obtain ⟨run, first, hrun, hfr, h₁, h₂, h₃, h₄, h₅, h₆⟩ := h
    obtain ⟨run', hru', hke⟩ := hgrs.run_kept hs' hrun
    obtain ⟨first', hfi', hfiK⟩ := hgrs.first (hl r rfl).1 (hl r rfl).2 hfr
    exact ⟨run', first', hru', hfi', hke.workflowName ▸ h₁, hke.workflowVersion ▸ h₂, hke.input.trans h₃,
      hfiK.same.stepKey ▸ h₄, hfiK.same.input.trans h₅, hfiK.same.maxAttempts.trans h₆⟩
  | claim r => exact h
  | advance r =>
    obtain ⟨key, t, next, hkey, hlo, hstas, hnx, h₁, h₂, h₃, h₄⟩ := h
    obtain ⟨next', hne', hke⟩ := hgrs.stepByKey hs' hnx
    exact ⟨key, t, next', hkey, hgrs.lockStepAttempt hs' hlo (by rw [hstas]; rfl), hstas, hne', h₁, h₂,
      hke.same.input.trans h₃, hke.same.maxAttempts.trans h₄⟩
  | complete r =>
    obtain ⟨t, run, hlo, hstas, hrun, hnx, hou, hdo, hrs⟩ := h
    obtain ⟨run', hru', hke⟩ := hgrs.run_kept hs' hrun
    obtain rfl := hke.closed (by rw [hdo]; rfl)
    exact ⟨t, run', hgrs.lockStepAttempt hs' hlo (by rw [hstas]; rfl), hstas, hru', hnx, hou, hdo, hrs⟩
  | retry r =>
    obtain ⟨t, receipt, hst, hrc, hsa⟩ := h
    obtain ⟨t', hst', hke⟩ := hgrs.step hs' hst
    exact ⟨t', receipt, hst', hke.same.id ▸ hgrs.retryReceipt hs' hrc, hsa⟩
  | fail r =>
    obtain ⟨t, run, hlo, hstas, hrun, hme, hdo, hrs⟩ := h
    obtain ⟨run', hru', hke⟩ := hgrs.run_kept hs' hrun
    obtain rfl := hke.closed (by rw [hdo]; rfl)
    exact ⟨t, run', hgrs.lockStepAttempt hs' hlo (by rw [hstas]; rfl), hstas, hru', hme, hdo, hrs⟩
  | cancel r =>
    obtain ⟨run, hrun, hstas, hme⟩ := h
    obtain ⟨run', hru', hke⟩ := hgrs.run_kept hs' hrun
    obtain rfl := hke.closed (by rw [hstas]; rfl)
    exact ⟨run', hru', hstas, hme⟩

/-! ## 動きの残す記録 -/

theorem Store.run_of_rows (h : (s.view r).rows = [run]) : s.run r = some run := by
  rw [run_eq_head?, h]
  rfl

theorem Sound.stepByKey_of_mem (h : Sound s) (ht : t ∈ s.steps) : s.stepByKey t.runId t.stepKey = some t := by
  unfold stepByKey
  cases hfi : s.steps.find? fun x => x.runId = t.runId ∧ x.stepKey = t.stepKey with
  | none => exact absurd (decide_eq_true ⟨rfl, rfl⟩) (find?_eq_none.mp hfi t ht)
  | some x => grind [h.eq_of_key]

variable {a : StepAttempt}

theorem Holds.lock (h : Holds a workerId t) (hs : Sound s) (ht' : t' ∈ s.steps) (hid : t'.id = t.id)
    (hme : t'.queueMessageId = t.queueMessageId) (hats : t'.attempts = t.attempts) (hcl : t'.claimedBy = t.claimedBy) : lockStepAttempt s a = .ok t' := by
  simp only [lockStepAttempt, lockStep, bind_eq_ok, fetch_eq_ok, require_eq_ok, pure_eq_ok]
  refine ⟨t', ?_, workerId, h.worker, ⟨⟩, ⟨hme.trans h.messageId, hats.trans h.attempt, hcl.trans h.claimed⟩, rfl⟩
  rw [← h.stepId, ← hid]
  exact step_of_mem hs.stepIds ht'

theorem Effect.recorded (h : Effect s s' now q r) (hs : Sound s) (hs' : Sound s') (hcla : ∀ c, q ≠ .claim c) : Recorded s' q := by
  have hmo := h.move
  have hph := hs.phase r
  have hro : ∀ x, x ∈ (s'.view r).rows → x.id = r := fun x hx => (mem_rows.mp hx).2
  have hch : ∀ x, x ∈ (s'.view r).chain → x ∈ s'.steps ∧ x.runId = r := fun x hx => mem_chain.mp hx
  have hsts : s'.stepsOf r = (s'.view r).chain.insertionSort before := rfl
  have hevs : ∀ e, e ∈ (s'.view r).events → e ∈ s'.events := fun e he => (mem_events.mp he).1
  have hrun : ∀ run, (s'.view r).rows = [run] → s'.run r = some run := fun run => run_of_rows
  generalize s.view r = v at hmo hph
  generalize s'.view r = v' at hmo hro hch hsts hevs hrun
  cases hmo with
  | @start q name version key run t m hna hve hkey hmax hruE hid ht hm =>
    have hr : q.runId = r := by
      rw [← hro run (by simp), hruE]
      rfl
    subst hr
    refine ⟨run, t, hrun run rfl, by rw [hsts]; rfl, ?_⟩
    rw [hna, hve, hkey, hruE, ht]
    exact ⟨rfl, rfl, rfl, rfl, rfl, rfl⟩
  | grant | exhaust => exact absurd rfl (hcla _)
  | @advance q run past t t' m m' events workerId key hhe hhos hkey hmax hid ht' hm' hfre =>
    obtain ⟨hmem, how⟩ := hch (t.complete now q.output (some key)) (by simp)
    obtain ⟨hnx, how'⟩ := hch t' (by simp)
    have hlo := hhos.lock hs' hmem rfl rfl rfl rfl
    have hfi := hs'.stepByKey_of_mem hnx
    rw [how'.trans how.symm] at hfi
    refine ⟨key, t.complete now q.output (some key), t', hkey, hlo, rfl, ?_, rfl, rfl, by rw [ht']; rfl, by rw [ht']; rfl⟩
    rwa [show t'.stepKey = key by rw [ht']; rfl] at hfi
  | @complete q run past t m events workerId hhe hhos =>
    obtain ⟨hmem, how⟩ := hch (t.complete now q.stepOutput t.nextStepKey) (by simp)
    have hla : t.nextStepKey = none := hph.of_live.2.last
    refine ⟨t.complete now q.stepOutput t.nextStepKey, run.complete now q.runOutput, hhos.lock hs' hmem rfl rfl rfl rfl, rfl, ?_,
      hla, rfl, rfl, rfl⟩
    rw [how]
    exact hrun _ rfl
  | @requeue q run past t m events workerId error hhe hhos her hbo =>
    obtain ⟨hmem, how⟩ := hch (t.requeue now error q.delaySeconds) (by simp)
    have hst := step_of_mem hs'.stepIds hmem
    refine ⟨t.requeue now error q.delaySeconds, ⟨t.id, q.messageId, q.attempt, workerId, error, q.delaySeconds⟩, ?_, ?_, rfl,
      hhos.worker.symm, her.symm, rfl⟩
    · rw [← hhos.stepId]
      exact hst
    · refine hs'.retryReceipt_of_mem (hevs _ (mem_append_right _ (mem_singleton_self _))) ?_
      simp [receipt, Step.requeue]
  | @bury q run past t m events workerId error hhe hhos her =>
    obtain ⟨hmem, how⟩ := hch (t.close now .deadLettered error) (by simp)
    have hst := step_of_mem hs'.stepIds hmem
    refine ⟨t.close now .deadLettered error, ⟨t.id, q.messageId, q.attempt, workerId, error, q.delaySeconds⟩, ?_, ?_, rfl,
      hhos.worker.symm, her.symm, rfl⟩
    · rw [← hhos.stepId]
      exact hst
    · refine hs'.retryReceipt_of_mem (hevs _ (mem_append_right _ (mem_singleton_self _))) ?_
      simp [receipt, Step.close]
  | @fail q run past t m events workerId error hhe hhos her =>
    obtain ⟨hmem, how⟩ := hch (t.close now .failed error) (by simp)
    refine ⟨t.close now .failed error, run.fail now error, hhos.lock hs' hmem rfl rfl rfl rfl, rfl, ?_, her.symm, rfl, rfl⟩
    rw [how]
    exact hrun _ rfl
  | @cancel q run past t m events reason hhe hruI hrea =>
    have hr : q.runId = r := by
      rw [← hro (run.cancel now reason) (by simp), ← hruI]
      rfl
    subst hr
    exact ⟨run.cancel now reason, hrun _ rfl, rfl, hrea.symm⟩

theorem execute_recorded (hs : Sound s) (hok : execute s moment q = .ok (reply, s'))
    (hcla : ∀ c, q ≠ .claim c) : q.Checked ∧ Recorded s' q := by
  obtain ⟨hche, ⟨rfl, hrec⟩ | ⟨r, hef⟩⟩ := (execute_accomplished hs hok hcla).1
  · exact ⟨hche, hrec⟩
  · exact ⟨hche, hef.recorded hs (hef.sound hs) hcla⟩

/-! ## 同じ要求 -/

theorem normalize_btrim {text} : normalize (btrim text) = normalize text := by
  simp [normalize, btrim_btrim]

theorem btrim_eq_of_normalize {a b} (h : normalize a = normalize b) : btrim a = btrim b := by
  unfold normalize at h
  split at h <;> split at h <;> simp_all

@[simp] theorem Request.trimmed_checked : q.trimmed.Checked ↔ q.Checked := by
  cases q <;> simp [trimmed, Checked, normalize_btrim, StepAttempt.accepted]

@[simp] theorem recorded_trimmed : Recorded s q.trimmed ↔ Recorded s q := by
  cases q <;> simp [trimmed, Recorded, normalize_btrim, lockStepAttempt]

theorem lockStepAttempt_unique {a'} (h : lockStepAttempt s a = .ok t) (h' : lockStepAttempt s a' = .ok t')
    (hid : a'.stepId = a.stepId) : t' = t ∧ a'.messageId = a.messageId ∧ a'.attempt = a.attempt ∧ btrim a'.workerId = btrim a.workerId := by
  simp only [lockStepAttempt, lockStep, bind_eq_ok, fetch_eq_ok, require_eq_ok, pure_eq_ok] at h h'
  obtain ⟨x, hx, workerId, hwo, _, ⟨hme, hat, hcl⟩, rfl⟩ := h
  obtain ⟨x', hx', workerId', hwo', _, ⟨hme', hat', hcl'⟩, rfl⟩ := h'
  rw [hid, hx, some.injEq] at hx'
  subst hx'
  refine ⟨rfl, hme'.symm.trans hme, hat'.symm.trans hat, btrim_eq_of_normalize ?_⟩
  rw [hwo', hwo, ← hcl', ← hcl]

theorem Recorded.unique (h : Recorded s q) (h' : Recorded s q') (hta : q'.target = q.target) : q'.trimmed = q.trimmed := by
  cases q with
  | start r =>
    cases q' with
    | start r' =>
      simp only [Request.target, some.injEq, Target.start.injEq] at hta
      obtain ⟨run, first, hrun, hfr, h₁, h₂, h₃, h₄, h₅, h₆⟩ := h
      obtain ⟨run', first', hru', hfi', h₁', h₂', h₃', h₄', h₅', h₆'⟩ := h'
      rw [hta, hrun, some.injEq] at hru'
      rw [hta, hfr, some.injEq] at hfi'
      subst hru' hfi'
      have hna := btrim_eq_of_normalize (h₁'.symm.trans h₁)
      have hve := btrim_eq_of_normalize (h₂'.symm.trans h₂)
      have hkey := btrim_eq_of_normalize (h₄'.symm.trans h₄)
      simp only [Request.trimmed, hta, hna, hve, hkey, ← h₃', ← h₃, ← h₆', ← h₆]
    | _ => cases hta
  | claim r => exact h.elim
  | advance r =>
    cases q' with
    | advance r' =>
      simp only [Request.target, some.injEq, Target.advance.injEq] at hta
      obtain ⟨key, t, next, hkey, hlo, -, hnx, h₁, h₂, h₃, h₄⟩ := h
      obtain ⟨key', t', next', hke', hlo', -, hne', h₁', h₂', h₃', h₄'⟩ := h'
      obtain ⟨rfl, hme, hat, hwo⟩ := lockStepAttempt_unique hlo hlo' hta
      rw [h₂, some.injEq] at h₂'
      subst h₂'
      rw [hnx, some.injEq] at hne'
      subst hne'
      have hneK := btrim_eq_of_normalize (hke'.trans hkey.symm)
      simp only [Request.trimmed, hta, hme, hat, hwo, hneK, ← h₁', ← h₁, ← h₃', ← h₃, ← h₄', ← h₄]
    | _ => cases hta
  | complete r =>
    cases q' with
    | complete r' =>
      simp only [Request.target, some.injEq, Target.complete.injEq] at hta
      obtain ⟨t, run, hlo, -, hrun, -, h₁, -, h₂⟩ := h
      obtain ⟨t', run', hlo', -, hru', -, h₁', -, h₂'⟩ := h'
      obtain ⟨rfl, hme, hat, hwo⟩ := lockStepAttempt_unique hlo hlo' hta
      rw [hrun, some.injEq] at hru'
      subst hru'
      simp only [Request.trimmed, hta, hme, hat, hwo, ← h₁', ← h₁, ← h₂', ← h₂]
    | _ => cases hta
  | retry r =>
    cases q' with
    | retry r' =>
      simp only [Request.target, some.injEq, Target.retry.injEq] at hta
      obtain ⟨hid, hat⟩ := hta
      obtain ⟨t, receipt, hst, hrc, h₁, h₂, h₃, h₄⟩ := h
      obtain ⟨t', receipt', hst', hre', h₁', h₂', h₃', h₄'⟩ := h'
      rw [hid, hst, some.injEq] at hst'
      subst hst'
      rw [hat, hrc, some.injEq] at hre'
      subst hre'
      have hwo := btrim_eq_of_normalize (h₂'.symm.trans h₂)
      have her := btrim_eq_of_normalize (h₃'.symm.trans h₃)
      simp only [Request.trimmed, hid, hat, hwo, her, ← h₁', ← h₁, ← h₄', ← h₄]
    | _ => cases hta
  | fail r =>
    cases q' with
    | fail r' =>
      simp only [Request.target, some.injEq, Target.fail.injEq] at hta
      obtain ⟨t, run, hlo, -, -, h₁, -⟩ := h
      obtain ⟨t', run', hlo', -, -, h₁', -⟩ := h'
      obtain ⟨rfl, hme, hat, hwo⟩ := lockStepAttempt_unique hlo hlo' hta
      have her := btrim_eq_of_normalize (h₁'.symm.trans h₁)
      simp only [Request.trimmed, hta, hme, hat, hwo, her]
    | _ => cases hta
  | cancel r =>
    cases q' with
    | cancel r' =>
      simp only [Request.target, some.injEq, Target.cancel.injEq] at hta
      obtain ⟨run, hrun, -, h₁⟩ := h
      obtain ⟨run', hru', -, h₁'⟩ := h'
      rw [hta, hrun, some.injEq] at hru'
      subst hru'
      have hrea := btrim_eq_of_normalize (h₁'.symm.trans h₁)
      simp [Request.trimmed, hta, hrea]
    | _ => cases hta

theorem Sound.eq_of_lock (hs : Sound s) (hlo : lockStepAttempt s a = .ok t') (ht : t ∈ s.steps) (hid : t.id = a.stepId) : t' = t := by
  obtain ⟨hmem, hid', -⟩ := lockStepAttempt_ok hlo
  exact Library.eq_of_key hs.stepIds hmem ht (hid'.trans hid.symm)

theorem Sound.retryReceipt_none (hs : Sound s) (ht : t ∈ s.steps) (hhos : Holds a workerId t) :
    s.retryReceipt t.id a.attempt = none := by
  cases hrc : s.retryReceipt t.id a.attempt with
  | none => rfl
  | some receipt =>
    obtain ⟨e, he, hr⟩ := retryReceipt_mem hrc
    have hmem : a.attempt ∈ outcomesOf t.id s.events := mem_filterMap.mpr ⟨e, he, receipt_outcome hr⟩
    rw [← hhos.attempt] at hmem
    exact absurd hmem ((hs.ledger ht).pending hhos.running)

theorem Recorded.settled (h : Recorded s q) (hs : Sound s) (hta : q'.target = q.target) : ¬ Effect s s' now q' r := by
  intro hef
  have hmo := hef.move
  have hro : ∀ x, x ∈ (s'.view r).rows → x.id = r := fun x hx => (Store.mem_rows.mp hx).2
  have hch : ∀ x, x ∈ (s.view r).chain → x ∈ s.steps := fun x hx => (Store.mem_chain.mp hx).1
  have hrun : ∀ run, (s.view r).rows = [run] → s.run r = some run := fun run => Store.run_of_rows
  have hab : (s.view r).rows = [] → s.run r = none := fun hnil => by rw [Store.run_eq_head?, hnil]; rfl
  generalize s.view r = v at hmo hch hrun hab
  generalize s'.view r = v' at hmo hro
  cases hmo with
  | @start q' name version key run t m hna hve hkey hmax hruE hid ht hm =>
    cases q with
    | start q =>
      simp only [Request.target, some.injEq, Target.start.injEq] at hta
      obtain ⟨run', first, hru', -⟩ := h
      have hr : q'.runId = r := by
        rw [← hro run (by simp), hruE]
        rfl
      rw [← hta, hr, hab rfl] at hru'
      cases hru'
    | _ => cases hta
  | grant | exhaust =>
    cases q with
    | claim q => exact h
    | _ => cases hta
  | @advance q' run past t t' m m' events workerId key hhe hhos hkey hmax hid ht' hm' hfre =>
    cases q with
    | advance q =>
      simp only [Request.target, some.injEq, Target.advance.injEq] at hta
      obtain ⟨key', x, next, -, hlo, hstas, -⟩ := h
      rw [hs.eq_of_lock hlo (hch t (by simp)) (hhos.stepId.trans hta), hhos.running] at hstas
      cases hstas
    | _ => cases hta
  | @complete q' run past t m events workerId hhe hhos =>
    cases q with
    | complete q =>
      simp only [Request.target, some.injEq, Target.complete.injEq] at hta
      obtain ⟨x, run', hlo, hstas, -⟩ := h
      rw [hs.eq_of_lock hlo (hch t (by simp)) (hhos.stepId.trans hta), hhos.running] at hstas
      cases hstas
    | _ => cases hta
  | @requeue q' run past t m events workerId error hhe hhos | @bury q' run past t m events workerId error hhe hhos =>
    cases q with
    | retry q =>
      simp only [Request.target, some.injEq, Target.retry.injEq] at hta
      obtain ⟨x, receipt, hst, hrc, -⟩ := h
      obtain ⟨hmem, hid⟩ := Store.mem_of_step hst
      rw [Library.eq_of_key hs.stepIds hmem (hch t (by simp)) (hid.trans (hta.1.symm.trans hhos.stepId.symm)), ← hta.2,
        hs.retryReceipt_none (hch t (by simp)) hhos] at hrc
      cases hrc
    | _ => cases hta
  | @fail q' run past t m events workerId error hhe hhos her =>
    cases q with
    | fail q =>
      simp only [Request.target, some.injEq, Target.fail.injEq] at hta
      obtain ⟨x, run', hlo, hstas, -⟩ := h
      rw [hs.eq_of_lock hlo (hch t (by simp)) (hhos.stepId.trans hta), hhos.running] at hstas
      cases hstas
    | _ => cases hta
  | @cancel q' run past t m events reason hhe hruI hrea =>
    cases q with
    | cancel q =>
      simp only [Request.target, some.injEq, Target.cancel.injEq] at hta
      obtain ⟨run', hru', hstas, -⟩ := h
      have hr : run.id = r := hro (run.cancel now reason) (by simp)
      rw [← hta, ← hruI, hr, hrun run rfl, some.injEq] at hru'
      have hact := hhe.active
      rw [hru', hstas] at hact
      cases hact
    | _ => cases hta

theorem Recorded.resent (h : Recorded s q) (hs : Sound s) (hche : q.Checked) (hta : q'.target = q.target) :
    (q'.trimmed = q.trimmed → Replays s moment q') ∧ (q'.trimmed ≠ q.trimmed → Refuses s moment q') := by
  constructor
  · intro hsa
    refine Recorded.replays hs ?_ ?_
    · rw [← trimmed_checked, hsa, trimmed_checked]
      exact hche
    · rw [← recorded_trimmed, hsa, recorded_trimmed]
      exact h
  · intro hne
    cases hex : execute s moment q' with
    | error e => exact ⟨e, hex⟩
    | ok x =>
      obtain ⟨reply, s'⟩ := x
      have hcla : ∀ c, q' ≠ .claim c := by
        rintro c rfl
        cases q with
        | claim q => exact h
        | _ => cases hta
      obtain ⟨-, ⟨-, hrec⟩ | ⟨r, hef⟩⟩ := (execute_accomplished hs hex hcla).1
      · exact absurd (h.unique hrec hta) hne
      · exact absurd hef (h.settled hs hta)

/-! ## 試みの受け渡し -/

/-! ## 最後に渡した試み -/

theorem Sound.latest (hs : Sound s) {a} (ht : t ∈ s.steps) (hhos : Holds a workerId t) :
    ∃ t ∈ s.steps, ∃ workerId, t.id = a.stepId ∧ t.queueMessageId = a.messageId ∧ normalize a.workerId = some workerId ∧
      (claimsOf a.stepId s.events).getLast? = some (a.attempt, workerId) := by
  refine ⟨t, ht, workerId, hhos.stepId, hhos.messageId, hhos.worker, ?_⟩
  obtain ⟨workerId', hcl, hla⟩ := (hs.ledger ht).latest hhos.running
  rw [hhos.claimed, some.injEq] at hcl
  rw [← hhos.stepId, hla, hhos.attempt, hcl]

theorem Effect.holds (h : Effect s s' now q r) (ha : q.attempt = some a) : ∃ t ∈ s.steps, ∃ workerId, Holds a workerId t := by
  have hmo := h.move
  have hch : ∀ x, x ∈ (s.view r).chain → x ∈ s.steps := fun x hx => (mem_chain.mp hx).1
  generalize s.view r = v at hmo hch
  generalize s'.view r = v' at hmo
  cases hmo with
  | start | grant | exhaust | cancel => cases ha
  | advance hhe hhos | complete hhe hhos | requeue hhe hhos | bury hhe hhos | fail hhe hhos =>
    cases ha
    exact ⟨_, hch _ (by simp), _, hhos⟩

theorem execute_fenced (hs : Sound s) (hok : execute s moment q = .ok (reply, s')) : Fenced s s' q := by
  intro a ha hne
  rcases execute_effect hs hok with rfl | ⟨r, hef⟩
  · exact absurd rfl hne
  · obtain ⟨t, ht, workerId, hhos⟩ := hef.holds ha
    exact hs.latest ht hhos

/-! ## 渡した記録 -/

theorem claimsOf_quiet {id es} (h : ∀ e ∈ es, e.eventType ≠ .stepClaimed) : claimsOf id es = [] := by
  refine filterMap_eq_nil_iff.mpr fun e he => ?_
  unfold EventRow.claim
  have hne := h e he
  split
  · split
    · rename_i hty _ _
      exact absurd hty hne
    · rfl
  · rfl

theorem Quiet.granted (h : Quiet s s' reply) : Granted s s' reply := by
  obtain ⟨⟨snapshot, receipt, rfl⟩, es, hes, hqu⟩ := h
  intro id
  rw [hes, claimsOf_append, claimsOf_quiet hqu]

theorem execute_granted (hs : Sound s) (hok : execute s moment q = .ok (reply, s')) : Granted s s' reply := by
  by_cases hclm : ∃ r, q = .claim r
  · obtain ⟨r, rfl⟩ := hclm
    exact (claimStep_ok hs (guarded_ok hok).2).2
  · exact (execute_accomplished hs hok fun r hr => hclm ⟨r, hr⟩).2.granted

end Supacloud.Workflows
