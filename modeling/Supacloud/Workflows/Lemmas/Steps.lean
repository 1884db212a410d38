import Supacloud.Workflows.Lemmas.Phases

/-!
# 手続きと動き

成功した手続きは、確定した結果を返すだけで何も変えないか、一つの run を動かす。
-/

namespace Supacloud.Workflows

open Library Store Message List Option

variable {s s' : Store} {now : Timestamp} {q : Request} {r : Uuid} {run : Run} {past : List Step} {t : Step} {m : Message}
  {box : List Message} {events es : List EventRow} {moment : Moment} {reply : Reply} {g : Run → Run}

/-! ## 表の不変条件 -/

structure Sound (s : Store) : Prop where
  stepIds : (s.steps.map Step.id).Nodup
  messageIds : (s.queue.map Message.id).Nodup
  sent : ∀ m ∈ s.queue, m.id ≤ s.sent
  phase : ∀ r, Phase (s.view r)

structure Live (s : Store) (run : Run) (past : List Step) (t : Step) (m : Message) (events : List EventRow) : Prop where
  view : s.view t.runId = ⟨[run], past ++ [t], [m], events⟩
  held : Held run t m
  count : m.readCount = t.attempts
  chained : Chained events past t

namespace Live

section

variable (h : Live s run past t m events)

include h

theorem rows : s.runs.filter (fun x => x.id = t.runId) = [run] := congrArg View.rows h.view

theorem chain : s.steps.filter (fun x => x.runId = t.runId) = past ++ [t] := congrArg View.chain h.view

theorem mail : s.queue.filter (fun x => x.runId = t.runId) = [m] := congrArg View.mail h.view

theorem run_mem : run ∈ s.runs := (mem_filter.mp (h.rows ▸ mem_singleton_self run)).1

theorem step_mem : t ∈ s.steps :=
  (mem_filter.mp (h.chain ▸ mem_append_right _ (mem_singleton_self t))).1

theorem message_mem : m ∈ s.queue ∧ m.runId = t.runId := by
  have hm := mem_filter.mp (h.mail ▸ mem_singleton_self m)
  exact ⟨hm.1, of_decide_eq_true hm.2⟩

theorem run_eq : s.run t.runId = some run := by
  rw [run_eq_head?, h.view]
  rfl

end

end Live

theorem Live.find_active (h : Live s run past t m events) : s.steps.find? (fun x => x.runId = t.runId ∧ x.status.active) = some t := by
  have hsp : s.steps.find? (fun x => x.runId = t.runId ∧ x.status.active) =
      (s.steps.filter fun x => x.runId = t.runId).find? fun x => x.status.active := by
    rw [find?_filter]
    congr 1
    funext x
    simp
  have hpa : past.find? (fun x => x.status.active) = none :=
    find?_eq_none.mpr fun x hx => by simp [h.chained.completed hx, StepStatus.active]
  rw [hsp, h.chain, find?_append, hpa]
  simp [h.held.pending]

theorem Sound.live (h : Sound s) (ht : t ∈ s.steps) (hac : t.status.active = true) :
    ∃ run past m events, Live s run past t m events := by
  have hmem : t ∈ (s.view t.runId).chain := mem_chain.mpr ⟨ht, rfl⟩
  have hph := h.phase t.runId
  generalize hv : s.view t.runId = v at hph hmem
  cases hph with
  | absent => cases hmem
  | @live run past t' m events hhe hcn hcha =>
    rcases mem_append.mp hmem with hpa | hla
    · rw [hcha.completed hpa] at hac
      cases hac
    · obtain rfl := mem_singleton.mp hla
      exact ⟨run, past, m, events, hv, hhe, hcn, hcha⟩
  | ended hrun hst hcha =>
    rcases mem_append.mp hmem with hpa | hla
    · rw [hcha.completed hpa] at hac
      cases hac
    · rw [mem_singleton.mp hla, hst] at hac
      cases hac

theorem Sound.live_message (h : Sound s) (hm : m ∈ s.queue) :
    ∃ run past t events, Live s run past t m events ∧ t.runId = m.runId := by
  have hmem : m ∈ (s.view m.runId).mail := mem_mail.mpr ⟨hm, rfl⟩
  have hph := h.phase m.runId
  generalize hv : s.view m.runId = v at hph hmem
  cases hph with
  | absent | ended => cases hmem
  | @live run past t m' events hhe hcn hcha =>
    obtain rfl := mem_singleton.mp hmem
    have hruI : t.runId = m.runId := (mem_chain.mp (show t ∈ (s.view m.runId).chain by simp [hv])).2
    exact ⟨run, past, t, events, ⟨hruI ▸ hv, hhe, hcn, hcha⟩, hruI⟩

theorem Sound.live_run (h : Sound s) (hrun : run ∈ s.runs) (hac : run.status.active = true) :
    ∃ past t m events, Live s run past t m events ∧ t.runId = run.id := by
  have hmem : run ∈ (s.view run.id).rows := mem_rows.mpr ⟨hrun, rfl⟩
  have hph := h.phase run.id
  generalize hv : s.view run.id = v at hph hmem
  cases hph with
  | absent => cases hmem
  | @live run' past t m events hhe hcn hcha =>
    obtain rfl := mem_singleton.mp hmem
    have hruI : t.runId = run.id := (mem_chain.mp (show t ∈ (s.view run.id).chain by simp [hv])).2
    exact ⟨past, t, m, events, ⟨hruI ▸ hv, hhe, hcn, hcha⟩, hruI⟩
  | @ended run' past t events hru' hst hcha =>
    obtain rfl := mem_singleton.mp hmem
    rw [hac] at hru'
    cases hru'

/-! ## 一つの run の書き換え -/

structure Effect (s s' : Store) (now : Timestamp) (q : Request) (r : Uuid) : Prop where
  move : Move now q (s.view r) (s'.view r)
  frame : ∀ r', r' ≠ r → s'.view r' = s.view r'
  stepIds : (s'.steps.map Step.id).Nodup
  messageIds : (s'.queue.map Message.id).Nodup
  sent : ∀ m ∈ s'.queue, m.id ≤ s'.sent

structure Posts (s s' : Store) (r : Uuid) (box : List Message) : Prop where
  mail : s'.queue.filter (fun x => x.runId = r) = box
  frame : ∀ r', r' ≠ r → s'.queue.filter (fun x => x.runId = r') = s.queue.filter fun x => x.runId = r'
  ids : (s'.queue.map Message.id).Nodup
  sent : ∀ m ∈ s'.queue, m.id ≤ s'.sent

section Posts

variable (h : Sound s) (hlv : Live s run past t m events)

include h hlv

theorem Posts.keep (hqu : s'.queue = s.queue) (hse : s'.sent = s.sent) : Posts s s' t.runId [m] where
  mail := hqu ▸ hlv.mail
  frame _ _ := by rw [hqu]
  ids := hqu ▸ h.messageIds
  sent := by
    rw [hqu, hse]
    exact h.sent

theorem Posts.archive (hqu : s'.queue = s.queue.filter fun x => x.id ≠ m.id) (hse : s'.sent = s.sent) : Posts s s' t.runId [] where
  mail := by
    rw [hqu]
    exact mail_archive hlv.mail
  frame r' hr' := by
    rw [hqu]
    exact mail_archive_other h.messageIds hlv.message_mem.1 (hlv.message_mem.2.symm ▸ hr')
  ids := by
    rw [hqu]
    exact (filter_sublist.map Message.id).nodup h.messageIds
  sent := by
    rw [hqu, hse]
    exact fun x hx => h.sent x (mem_filter.mp hx).1

theorem Posts.read (hqu : s'.queue = update (fun x => x.id = m.id) reread s.queue)
    (hse : s'.sent = s.sent) : Posts s s' t.runId [m.reread] where
  mail := by
    rw [hqu, ← hlv.message_mem.2]
    exact mail_update (fun _ => rfl) (hlv.message_mem.2.symm ▸ hlv.mail)
  frame r' hr' := by
    rw [hqu]
    exact mail_update_other (fun _ => rfl) h.messageIds hlv.message_mem.1 (hlv.message_mem.2.symm ▸ hr')
  ids := by
    have hids : (update (fun x => x.id = m.id) Message.reread s.queue).map Message.id =
        s.queue.map Message.id := map_update fun _ _ => rfl
    rw [hqu, hids]
    exact h.messageIds
  sent := by
    rw [hqu, hse]
    intro x hx
    obtain ⟨y, hy, rfl⟩ := mem_update.mp hx
    split
    · exact h.sent y hy
    · exact h.sent y hy

variable {p : Run → Bool} {f : Step → Step} (hrn : s'.runs = update p g s.runs) (hg : ∀ x, (g x).id = x.id)
  (hp : ∀ x, p x = true → x.id = t.runId) (hsts : s'.steps = update (fun x => x.id = t.id) f s.steps)
  (hf : ∀ x, (f x).id = x.id ∧ (f x).runId = x.runId) (hpos : Posts s s' t.runId box) (hevs : s'.events = s.events ++ es)
  (hes : ∀ e ∈ es, e.runId = t.runId)

include hrn hg hp hsts hf hpos hevs hes

theorem Live.patch :
    s'.view t.runId = ⟨update p g [run], past ++ [f t], box, events ++ es⟩ ∧ (∀ r', r' ≠ t.runId → s'.view r' = s.view r') ∧
      s'.steps.map Step.id = s.steps.map Step.id := by
  refine ⟨?_, fun r' hr' => ?_, ?_⟩
  · have hro : s'.runs.filter (fun x => x.id = t.runId) = update p g [run] := by
      rw [hrn, filter_update (fun x => by rw [hg x]), hlv.rows]
    have hch : s'.steps.filter (fun x => x.runId = t.runId) = past ++ [f t] := by
      rw [hsts]
      exact chain_update (fun x => (hf x).2) h.stepIds hlv.chain
    have hev : s'.events.filter (fun e => e.runId = t.runId) = events ++ es := by
      have hnew : es.filter (fun e => e.runId = t.runId) = es := filter_eq_self.mpr fun e he => by simp [hes e he]
      rw [hevs, filter_append, hnew]
      exact congrArg (· ++ es) (congrArg View.events hlv.view)
    simp only [Store.view, hro, hch, hpos.mail, hev]
  · have hro : s'.runs.filter (fun x => x.id = r') = s.runs.filter fun x => x.id = r' := by
      rw [hrn]
      exact rows_update_other hg hp hr'
    have hch : s'.steps.filter (fun x => x.runId = r') = s.steps.filter fun x => x.runId = r' := by
      rw [hsts]
      exact chain_update_other (fun x => (hf x).2) h.stepIds hlv.step_mem hr'
    have hev : s'.events.filter (fun e => e.runId = r') = s.events.filter fun e => e.runId = r' := by
      have hnew : es.filter (fun e => e.runId = r') = [] := filter_eq_nil_iff.mpr fun e he => by simpa [hes e he] using hr'.symm
      rw [hevs, filter_append, hnew, append_nil]
    simp only [Store.view, hro, hch, hpos.frame r' hr', hev]
  · rw [hsts]
    exact map_update fun x _ => (hf x).1

theorem Live.effect (hmo : Move now q ⟨[run], past ++ [t], [m], events⟩ ⟨update p g [run], past ++ [f t], box, events ++ es⟩) :
    Effect s s' now q t.runId := by
  obtain ⟨hvi, hfr, hids⟩ := hlv.patch h hrn hg hp hsts hf hpos hevs hes
  exact ⟨by rw [hlv.view, hvi]; exact hmo, hfr, hids ▸ h.stepIds, hpos.ids, hpos.sent⟩

end Posts

/-! ## 要求の記録 -/

def Request.Checked : Request → Prop
  | .start r => isUuid r.runId = true ∧ ∃ name version key, normalize r.workflowName = some name ∧
      normalize r.workflowVersion = some version ∧ normalize r.firstStepKey = some key ∧
      (isName name ∧ version.length ≤ 80 ∧ isName key ∧ isObject r.input ∧ 1 ≤ r.maxAttempts ∧ r.maxAttempts ≤ 100)
  | .claim _ => True
  | .advance r => r.toStepAttempt.accepted ∧ ∃ key, normalize r.nextStepKey = some key ∧
      (isObject r.output ∧ isObject r.nextInput ∧ isName key ∧ 1 ≤ r.nextMaxAttempts ∧ r.nextMaxAttempts ≤ 100)
  | .complete r => r.toStepAttempt.accepted ∧ isObject r.stepOutput ∧ isObject r.runOutput
  | .retry r => r.toStepAttempt.accepted ∧ ∃ error, normalize r.errorMessage = some error ∧ error.length ≤ 4000 ∧ r.delaySeconds ≤ 86400
  | .fail r => r.toStepAttempt.accepted ∧ ∃ error, normalize r.errorMessage = some error ∧ error.length ≤ 4000
  | .cancel r => isUuid r.runId = true ∧ ∃ reason, normalize r.reason = some reason ∧ reason.length ≤ 4000

def Recorded (s : Store) : Request → Prop
  | .start r => ∃ run first, s.run r.runId = some run ∧ (s.stepsOf r.runId).head? = some first ∧
      some run.workflowName = normalize r.workflowName ∧ some run.workflowVersion = normalize r.workflowVersion ∧ run.input = r.input ∧
      some first.stepKey = normalize r.firstStepKey ∧ first.input = r.input ∧ first.maxAttempts = r.maxAttempts
  | .claim _ => False
  | .advance r => ∃ key t next, normalize r.nextStepKey = some key ∧ lockStepAttempt s r.toStepAttempt = .ok t ∧ t.status = .completed ∧
      s.stepByKey t.runId key = some next ∧ t.output = r.output ∧ t.nextStepKey = some key ∧ next.input = r.nextInput ∧
      next.maxAttempts = r.nextMaxAttempts
  | .complete r => ∃ t run, lockStepAttempt s r.toStepAttempt = .ok t ∧ t.status = .completed ∧ s.run t.runId = some run ∧
      t.nextStepKey = none ∧ t.output = r.stepOutput ∧ run.status = .completed ∧ run.output = r.runOutput
  | .retry r => ∃ t receipt, s.step r.stepId = some t ∧ s.retryReceipt t.id r.attempt = some receipt ∧ receipt.messageId = r.messageId ∧
      some receipt.workerId = normalize r.workerId ∧ some receipt.errorMessage = normalize r.errorMessage ∧
      receipt.delaySeconds = r.delaySeconds
  | .fail r => ∃ t run, lockStepAttempt s r.toStepAttempt = .ok t ∧ t.status = .failed ∧ s.run t.runId = some run ∧
      some t.errorMessage = normalize r.errorMessage ∧ run.status = .failed ∧ run.errorMessage = t.errorMessage
  | .cancel r => ∃ run, s.run r.runId = some run ∧ run.status = .cancelled ∧ some run.errorMessage = normalize r.reason

def Accomplished (s s' : Store) (now : Timestamp) (q : Request) : Prop :=
  q.Checked ∧ (s' = s ∧ Recorded s q ∨ ∃ id, Effect s s' now q id)

structure Quiet (s s' : Store) (reply : Reply) : Prop where
  state : ∃ snapshot receipt, reply = .state snapshot receipt
  events : ∃ es, s'.events = s.events ++ es ∧ ∀ e ∈ es, e.eventType ≠ .stepClaimed

theorem Quiet.refl (h : ∃ snapshot receipt, reply = .state snapshot receipt) : Quiet s s reply :=
  ⟨h, [], by simp, nofun⟩

/-! ## 結果を知らせる手続き -/

theorem lockStepAttempt_ok {a} (hok : lockStepAttempt s a = .ok t) : t ∈ s.steps ∧ t.id = a.stepId ∧
    t.queueMessageId = a.messageId ∧ t.attempts = a.attempt ∧ ∃ workerId, normalize a.workerId = some workerId ∧ t.claimedBy = some workerId := by
  simp only [lockStepAttempt, lockStep, bind_eq_ok, fetch_eq_ok, require_eq_ok, pure_eq_ok] at hok
  obtain ⟨active, hac, workerId, hwo, _, ⟨hme, hat, hcla⟩, rfl⟩ := hok
  obtain ⟨hmem, hid⟩ := mem_of_step hac
  exact ⟨hmem, hid, hme, hat, workerId, hwo, hcla⟩

theorem archiveMessage_ok {id} (hok : archiveMessage s id = .ok s') : s' = s.archive id := by
  simp only [archiveMessage, bind_eq_ok, require_eq_ok, pure_eq_ok] at hok
  obtain ⟨_, -, rfl⟩ := hok
  rfl

theorem Sound.holds {a} (h : Sound s) (hok : lockStepAttempt s a = .ok t) (hru : t.status = .running) :
    ∃ run past m events workerId, Live s run past t m events ∧ Holds a workerId t := by
  obtain ⟨hmem, hid, hme, hat, workerId, hwo, hcla⟩ := lockStepAttempt_ok hok
  obtain ⟨run, past, m, events, hlv⟩ := h.live hmem (by rw [hru]; rfl)
  exact ⟨run, past, m, events, workerId, hlv, ⟨hid, hme, hat, hwo, hcla, hru⟩⟩

section

variable (hlv : Live s run past t m events)

include hlv

theorem update_running (hru : run.status = .running) :
    update (fun x : Run => x.id = t.runId ∧ x.status = .running) g [run] = [g run] := by
  simp [update, hlv.held.owner, hru]

theorem Live.running (hall : (s.run t.runId).all (fun run => run.status = .running) = true) : run.status = .running := by
  rw [hlv.run_eq] at hall
  simpa using hall

theorem Live.archive_eq {a workerId} (hhos : Holds a workerId t) :
    (s.archive a.messageId).queue = s.queue.filter fun x => x.id ≠ m.id := by
  rw [hlv.held.id, hhos.messageId]
  rfl

end

theorem failStep_ok (h : Sound s) {r} (hacc : r.toStepAttempt.accepted)
    (hok : failStep s moment r = .ok (reply, s')) : Accomplished s s' moment.now (.fail r) ∧ Quiet s s' reply := by
  simp only [failStep, bind_eq_ok, fetch_eq_ok, require_eq_ok] at hok
  obtain ⟨error, her, _, hln, t, hlo, hok⟩ := hok
  refine and_assoc.mpr ⟨⟨hacc, error, her, hln⟩, ?_⟩
  split at hok
  · rename_i hfa
    simp only [bind_eq_ok, require_eq_ok, pure_eq_ok, Prod.mk.injEq] at hok
    obtain ⟨_, ⟨hme, hany⟩, rfl, rfl⟩ := hok
    obtain ⟨run, hrun, hco⟩ := (any_eq_true _ _).mp hany
    obtain ⟨hdo, hre⟩ := of_decide_eq_true hco
    exact ⟨.inl ⟨rfl, t, run, hlo, hfa, hrun, by rw [hme, her], hdo, hre.trans hme.symm⟩, .refl ⟨_, _, rfl⟩⟩
  · simp only [bind_eq_ok, require_eq_ok, pure_eq_ok, Prod.mk.injEq] at hok
    obtain ⟨_, hru, _, hall, s₁, har, rfl, rfl⟩ := hok
    cases archiveMessage_ok har
    obtain ⟨run, past, m, events, workerId, hlv, hhos⟩ := h.holds hlo hru
    refine ⟨.inr ⟨t.runId, hlv.effect h rfl (fun _ => rfl) (fun _ hx => (of_decide_eq_true hx).1) rfl (fun _ => ⟨rfl, rfl⟩)
      (.archive h hlv (hlv.archive_eq hhos) rfl) rfl (by simp) ?_⟩, ⟨_, _, rfl⟩, _, rfl, by simp⟩
    rw [update_running hlv (hlv.running hall), hlv.held.owner]
    exact .fail hlv.held hhos her

theorem completeRun_ok (h : Sound s) {r} (hacc : r.toStepAttempt.accepted)
    (hok : completeRun s moment r = .ok (reply, s')) : Accomplished s s' moment.now (.complete r) ∧ Quiet s s' reply := by
  simp only [completeRun, bind_eq_ok, require_eq_ok] at hok
  obtain ⟨_, hob, t, hlo, hok⟩ := hok
  refine and_assoc.mpr ⟨⟨hacc, hob⟩, ?_⟩
  split at hok
  · rename_i hcm
    simp only [bind_eq_ok, require_eq_ok, pure_eq_ok, Prod.mk.injEq] at hok
    obtain ⟨_, ⟨hne, hou, hany⟩, rfl, rfl⟩ := hok
    obtain ⟨run, hrun, hco⟩ := (any_eq_true _ _).mp hany
    obtain ⟨hdo, hre⟩ := of_decide_eq_true hco
    exact ⟨.inl ⟨rfl, t, run, hlo, hcm, hrun, hne, hou, hdo, hre⟩, .refl ⟨_, _, rfl⟩⟩
  · simp only [bind_eq_ok, require_eq_ok, pure_eq_ok, Prod.mk.injEq] at hok
    obtain ⟨_, hru, _, hall, s₁, har, rfl, rfl⟩ := hok
    cases archiveMessage_ok har
    obtain ⟨run, past, m, events, workerId, hlv, hhos⟩ := h.holds hlo hru
    refine ⟨.inr ⟨t.runId, hlv.effect h rfl (fun _ => rfl) (fun _ hx => (of_decide_eq_true hx).1) rfl (fun _ => ⟨rfl, rfl⟩)
      (.archive h hlv (hlv.archive_eq hhos) rfl) (append_assoc _ _ _) (by simp) ?_⟩, ⟨_, _, rfl⟩, _, append_assoc _ _ _, by simp⟩
    rw [update_running hlv (hlv.running hall), hlv.held.owner]
    exact .complete hlv.held hhos

theorem update_none {l} : update (fun _ => false) g l = l := update_eq_self fun _ _ => rfl

theorem releaseStep_events {receipt} (hok : releaseStep s now t receipt = .ok s') :
    ∃ e, s'.events = s.events ++ [e] ∧ e.eventType ≠ .stepClaimed := by
  unfold releaseStep at hok
  split at hok
  · simp only [buryStep, bind_eq_ok, require_eq_ok, pure_eq_ok] at hok
    obtain ⟨s₁, har, -, -, rfl⟩ := hok
    cases archiveMessage_ok har
    exact ⟨_, rfl, by simp⟩
  · simp only [requeueStep, bind_eq_ok, require_eq_ok, pure_eq_ok] at hok
    obtain ⟨-, -, rfl⟩ := hok
    exact ⟨_, rfl, by simp⟩

theorem retryStep_ok (h : Sound s) {r} (hacc : r.toStepAttempt.accepted)
    (hok : retryStep s moment r = .ok (reply, s')) : Accomplished s s' moment.now (.retry r) ∧ Quiet s s' reply := by
  simp only [retryStep, bind_eq_ok, fetch_eq_ok, require_eq_ok, lockStep] at hok
  obtain ⟨error, her, _, hchs, t, hst, hok⟩ := hok
  refine and_assoc.mpr ⟨⟨hacc, error, her, hchs⟩, ?_⟩
  split at hok
  · rename_i receipt hrc
    simp only [bind_eq_ok, require_eq_ok, pure_eq_ok, Prod.mk.injEq] at hok
    obtain ⟨_, ⟨hme, hwo, hsa, hde⟩, rfl, rfl⟩ := hok
    exact ⟨.inl ⟨rfl, t, receipt, hst, hrc, hme, hwo, by rw [hsa, her], hde⟩, .refl ⟨_, _, rfl⟩⟩
  · simp only [bind_eq_ok, fetch_eq_ok, require_eq_ok, pure_eq_ok, Prod.mk.injEq] at hok
    obtain ⟨workerId, hwo, _, ⟨hme, hat, hcla, hru⟩, s₁, hwr, rfl, rfl⟩ := hok
    obtain ⟨hmem, hid⟩ := mem_of_step hst
    have hhos : Holds r.toStepAttempt workerId t := ⟨hid, hme, hat, hwo, hcla, hru⟩
    obtain ⟨run, past, m, events, hlv⟩ := h.live hmem (by rw [hru]; rfl)
    refine and_comm.mp ⟨?_, .inr ⟨t.runId, ?_⟩⟩
    · obtain ⟨e, hevs, hty⟩ := releaseStep_events hwr
      exact ⟨⟨_, _, rfl⟩, [e], hevs, by simpa using hty⟩
    unfold releaseStep at hwr
    split at hwr
    · simp only [buryStep, bind_eq_ok, require_eq_ok, pure_eq_ok] at hwr
      obtain ⟨s₂, har, _, hany, rfl⟩ := hwr
      cases archiveMessage_ok har
      have hrun : run.status = .running := by
        obtain ⟨x, hx, hco⟩ := any_eq_true.mp hany
        obtain ⟨hxid, hxss⟩ := of_decide_eq_true hco
        have hro : x ∈ s.runs.filter fun y => y.id = t.runId := mem_filter.mpr ⟨hx, by simpa using hxid⟩
        rw [hlv.rows, mem_singleton] at hro
        rwa [← hro]
      refine hlv.effect h rfl (fun _ => rfl) (fun _ hx => (of_decide_eq_true hx).1) rfl (fun _ => ⟨rfl, rfl⟩)
        (.archive h hlv (hlv.archive_eq hhos) rfl) rfl (by simp) ?_
      rw [update_running hlv hrun, hlv.held.owner]
      exact .bury hlv.held hhos her
    · rename_i hbo
      simp only [requeueStep, bind_eq_ok, require_eq_ok, pure_eq_ok] at hwr
      obtain ⟨_, -, rfl⟩ := hwr
      refine hlv.effect h (g := id) update_none.symm (fun _ => rfl) (by simp) rfl (fun _ => ⟨rfl, rfl⟩) (.keep h hlv rfl rfl) rfl
        (by simp) ?_
      rw [update_none, hlv.held.owner]
      exact .requeue hlv.held hhos her (by omega)

theorem cancelRun_ok (h : Sound s) {r} (huu : isUuid r.runId = true)
    (hok : cancelRun s moment r = .ok (reply, s')) : Accomplished s s' moment.now (.cancel r) ∧ Quiet s s' reply := by
  simp only [cancelRun, bind_eq_ok, fetch_eq_ok, require_eq_ok] at hok
  obtain ⟨reason, hrs, _, hln, run, hrun, hok⟩ := hok
  refine and_assoc.mpr ⟨⟨huu, reason, hrs, hln⟩, ?_⟩
  split at hok
  · rename_i hca
    simp only [bind_eq_ok, require_eq_ok, pure_eq_ok, Prod.mk.injEq] at hok
    obtain ⟨_, hsa, rfl, rfl⟩ := hok
    exact ⟨.inl ⟨rfl, run, hrun, hca, by rw [hsa, hrs]⟩, .refl ⟨_, _, rfl⟩⟩
  · simp only [bind_eq_ok, require_eq_ok, pure_eq_ok, Prod.mk.injEq] at hok
    obtain ⟨_, hac, rfl, rfl⟩ := hok
    have hmem : run ∈ s.runs := mem_of_find?_eq_some hrun
    have hid : run.id = r.runId := by simpa using find?_some hrun
    obtain ⟨past, t, m, events, hlv, how⟩ := h.live_run hmem hac
    have hfi : s.steps.find? (fun t => t.runId = r.runId ∧ t.status.active) = some t := hid ▸ how ▸ hlv.find_active
    simp only [hfi, cancelActiveStep, map_some]
    refine ⟨.inr ⟨t.runId, hlv.effect h rfl (fun _ => rfl) (fun _ hx => (of_decide_eq_true hx).trans (how.trans hid).symm) rfl
      (fun _ => ⟨rfl, rfl⟩) (.archive h hlv (by rw [hlv.held.id]; rfl) rfl) rfl (by simp [how, hid]) ?_⟩, ⟨_, _, rfl⟩, _, rfl, by simp⟩
    rw [show update (fun x : Run => x.id = r.runId) (fun x => x.cancel moment.now reason) [run] = [run.cancel moment.now reason] by
      simp [update, hid], ← hid]
    exact .cancel hlv.held hid hrs

/-! ## step を渡す手続き -/

theorem Store.read_some {visible m'} (h : s.read visible = some (m', s')) : ∃ m ∈ s.queue, m' = m.reread ∧
      s' = { s with queue := update (fun x => x.id = m.id) reread s.queue } := by
  simp only [read, Option.bind_eq_bind, Option.bind_eq_some_iff, Option.pure_def, Option.some.injEq, Prod.mk.injEq] at h
  obtain ⟨id, -, m, hm, rfl, rfl⟩ := h
  exact ⟨m, mem_of_find?_eq_some hm, rfl, rfl⟩

theorem Live.find_message (h : Sound s) (hlv : Live s run past t m events) (hsts : s'.steps = s.steps) :
    s'.stepFor m.reread = some t := by
  unfold stepFor
  rw [hsts]
  have hco : t.id = m.stepId ∧ t.runId = m.runId ∧ t.queueMessageId = m.id :=
    ⟨hlv.held.stepId.symm, hlv.message_mem.2.symm, hlv.held.id.symm⟩
  cases hfi : s.steps.find? fun x => x.id = m.reread.stepId ∧ x.runId = m.reread.runId ∧ x.queueMessageId = m.reread.id with
  | none => exact absurd (decide_eq_true hco) (find?_eq_none.mp hfi t hlv.step_mem)
  | some x =>
    have hx := find?_some hfi
    rw [eq_of_key h.stepIds (mem_of_find?_eq_some hfi) hlv.step_mem ((of_decide_eq_true hx).1.trans hco.1.symm)]

theorem claimStep_ok (h : Sound s) {r} (hok : claimStep s moment r = .ok (reply, s')) :
    (s' = s ∨ ∃ id, Effect s s' moment.now (.claim r) id) ∧ Granted s s' reply := by
  simp only [claimStep, bind_eq_ok, fetch_eq_ok, require_eq_ok] at hok
  obtain ⟨workerId, hwo, _, -, hok⟩ := hok
  split at hok
  · simp only [pure_eq_ok, Prod.mk.injEq] at hok
    obtain ⟨rfl, rfl⟩ := hok
    exact ⟨.inl rfl, by simp [Granted]⟩
  · rename_i m' s₁ hrd
    obtain ⟨m, hm, rfl, rfl⟩ := read_some hrd
    obtain ⟨run, past, t, events, hlv, how⟩ := h.live_message hm
    obtain ⟨hid, hruI⟩ := hlv.chained.uuids t (by simp)
    have huus : isUuid m.runId ∧ isUuid m.stepId := ⟨how ▸ hruI, hlv.held.stepId ▸ hid⟩
    simp only [reread_runId, reread_stepId, reread_id, huus, and_self, not_true_eq_false, ↓reduceIte] at hok
    have hfi : ({ s with queue := update (fun x => x.id = m.id) reread s.queue } : Store).stepFor m.reread = some t :=
      hlv.find_message h rfl
    rw [hfi] at hok
    simp only [bind_eq_ok, require_eq_ok] at hok
    obtain ⟨_, -, hok⟩ := hok
    have hac : ¬ (((s.run t.runId).any fun run => ¬ run.status.active) = true ∨ ¬ t.status.active = true) := by
      simp [hlv.run_eq, hlv.held.active, hlv.held.pending]
    have hrun : ({ s with queue := update (fun x => x.id = m.id) reread s.queue } : Store).run
        t.runId = s.run t.runId := rfl
    rw [hrun, if_neg hac] at hok
    have hup : ∀ g, update (fun x : Run => x.id = t.runId) g [run] = [g run] := by
      intro g
      simp [update, hlv.held.owner]
    split at hok
    · rename_i hbo
      simp only [pure_eq_ok, Prod.mk.injEq] at hok
      obtain ⟨rfl, rfl⟩ := hok
      have hqu : (update (fun x => x.id = m.id) reread s.queue).filter (fun x => x.id ≠ m.id) =
          s.queue.filter fun x => x.id ≠ m.id := by
        rw [filter_update (f := reread) fun _ => rfl]
        exact update_eq_self fun x hx => by simpa using (mem_filter.mp hx).2
      refine and_comm.mp ⟨fun id => ?_, .inr ⟨t.runId, hlv.effect h rfl (fun _ => rfl) (fun _ hx => of_decide_eq_true hx) rfl
        (fun _ => ⟨rfl, rfl⟩) (.archive h hlv hqu rfl) rfl (by simp) ?_⟩⟩
      · simp [exhaustStep, updateStep, updateRun, archive, insertEvent, claimsOf, EventRow.claim]
      rw [hup, hlv.held.owner]
      exact .exhaust hlv.held hbo
    · rename_i hbo
      simp only [pure_eq_ok, Prod.mk.injEq] at hok
      obtain ⟨rfl, rfl⟩ := hok
      refine and_comm.mp ⟨fun id => ?_, .inr ⟨t.runId, hlv.effect h rfl (fun _ => rfl) (fun _ hx => of_decide_eq_true hx) rfl
        (fun _ => ⟨rfl, rfl⟩) (.read h hlv rfl rfl) rfl (by simp) ?_⟩⟩
      · simp only [grantStep, updateStep, updateRun, insertEvent, claimsOf_append]
        simp only [claimsOf, EventRow.claim, some.injEq, filterMap_cons, filterMap_nil]
        split <;> simp_all
      rw [hup, hlv.held.owner]
      exact .grant hlv.held hwo (Nat.le_of_not_lt hbo)

/-! ## step を加える手続き -/

structure Enqueued (s s' : Store) (t : Step) (m : Message) : Prop where
  runs : s'.runs = s.runs
  steps : s'.steps = s.steps ++ [t]
  events : s'.events = s.events
  queue : s'.queue = s.queue ++ [m]
  sent : s'.sent = s.sent + 1
  id : m.id = s.sent + 1
  message : m = ⟨m.id, t.runId, t.id, 0⟩
  fresh : ∀ x ∈ s.steps, x.id ≠ t.id ∧ ¬ (x.runId = t.runId ∧ x.stepKey = t.stepKey)

theorem enqueueStep_ok {runId stepKey key input maxAttempts} (hkey : normalize stepKey = some key)
    (hok : enqueueStep s moment runId stepKey input maxAttempts = .ok (t, s')) :
    1 ≤ maxAttempts ∧ isUuid t.id = true ∧ ∃ m, t = newStep moment.now t.id runId key input maxAttempts m.id ∧ Enqueued s s' t m := by
  simp only [enqueueStep, bind_eq_ok, fetch_eq_ok, require_eq_ok, pure_eq_ok, send, insertStep, Prod.mk.injEq] at hok
  obtain ⟨key', hke', _, ⟨-, -, hmax, -⟩, _, -, s₁, ⟨_, huni, _, -, rfl⟩, rfl, rfl⟩ := hok
  rw [hkey, some.injEq] at hke'
  subst hke'
  refine ⟨hmax, moment.stepId.2, ⟨s.sent + 1, runId, moment.stepId, 0⟩, rfl, rfl, rfl, rfl, rfl, rfl, rfl, rfl, fun x hx => ?_⟩
  obtain ⟨hid, hke, -⟩ := require_eq_ok.mp huni x hx
  exact ⟨hid, hke⟩

namespace Enqueued

section

variable (h : Enqueued s s' t m)

include h

theorem view : s'.view t.runId =
    { s.view t.runId with chain := (s.view t.runId).chain ++ [t], mail := (s.view t.runId).mail ++ [m] } := by
  have hm : m.runId = t.runId := by rw [h.message]
  simp [Store.view, h.runs, h.steps, h.events, h.queue, hm]

theorem frame (hr : r ≠ t.runId) : s'.view r = s.view r := by
  have hm : m.runId = t.runId := by rw [h.message]
  simp [Store.view, h.runs, h.steps, h.events, h.queue, hm, hr.symm]

theorem stepIds (hids : (s.steps.map Step.id).Nodup) : (s'.steps.map Step.id).Nodup := by
  rw [h.steps, map_append, nodup_append]
  refine ⟨hids, by simp, ?_⟩
  rintro a ha b hb rfl
  obtain ⟨x, hx, rfl⟩ := mem_map.mp ha
  exact (h.fresh x hx).1 (by simpa using hb)

theorem sent_le (hse : ∀ x ∈ s.queue, x.id ≤ s.sent) : ∀ x ∈ s'.queue, x.id ≤ s'.sent := by
  rw [h.queue, h.sent]
  intro x hx
  rcases mem_append.mp hx with hx | hx
  · exact (hse x hx).trans (Nat.le_succ _)
  · rw [mem_singleton.mp hx, h.id]

theorem messageIds (hids : (s.queue.map Message.id).Nodup) (hse : ∀ x ∈ s.queue, x.id ≤ s.sent) : (s'.queue.map Message.id).Nodup := by
  rw [h.queue, map_append, nodup_append]
  refine ⟨hids, by simp, ?_⟩
  rintro a ha b hb rfl
  obtain ⟨x, hx, rfl⟩ := mem_map.mp ha
  have hle := hse x hx
  rw [map_singleton, mem_singleton, h.id] at hb
  omega

end

end Enqueued

theorem advanceStep_ok (h : Sound s) {r} (hacc : r.toStepAttempt.accepted)
    (hok : advanceStep s moment r = .ok (reply, s')) : Accomplished s s' moment.now (.advance r) ∧ Quiet s s' reply := by
  simp only [advanceStep, bind_eq_ok, fetch_eq_ok, require_eq_ok] at hok
  obtain ⟨key, hkey, _, hchs, t, hlo, hok⟩ := hok
  have hmax := hchs.2.2.2.1
  refine and_assoc.mpr ⟨⟨hacc, key, hkey, hchs⟩, ?_⟩
  split at hok
  · rename_i hcm
    simp only [bind_eq_ok, fetch_eq_ok, require_eq_ok, pure_eq_ok, Prod.mk.injEq] at hok
    obtain ⟨next, hne, _, ⟨hou, hli, hinp, hats⟩, rfl, rfl⟩ := hok
    exact ⟨.inl ⟨rfl, key, t, next, hkey, hlo, hcm, hne, hou, hli, hinp, hats⟩, .refl ⟨_, _, rfl⟩⟩
  · simp only [bind_eq_ok, require_eq_ok, pure_eq_ok, Prod.mk.injEq] at hok
    obtain ⟨_, hru, s₁, har, ⟨t', s₂⟩, hen, rfl, rfl⟩ := hok
    cases archiveMessage_ok har
    obtain ⟨run, past, m, events, workerId, hlv, hhos⟩ := h.holds hlo hru
    obtain ⟨-, hid, m', ht', had⟩ := enqueueStep_ok (normalize_some hkey) hen
    generalize hs₁ : ((s.archive r.messageId).updateStep t.id fun t => t.complete moment.now r.output (some key)).insertEvent
      ⟨t.runId, some t.id, .stepCompleted, some r.attempt, .next key, moment.now⟩ = s₁ at had
    have hpos : Posts s s₁ t.runId [] := .archive h hlv (hs₁ ▸ hlv.archive_eq hhos) (hs₁ ▸ rfl)
    have hrn : s₁.runs = update (fun _ => false) id s.runs := by rw [← hs₁, update_none]; rfl
    have hsts : s₁.steps = update (fun x => x.id = t.id) (fun x => x.complete moment.now r.output (some key)) s.steps := hs₁ ▸ rfl
    have hevs : s₁.events = s.events ++ [⟨t.runId, some t.id, .stepCompleted, some r.attempt, .next key, moment.now⟩] := hs₁ ▸ rfl
    obtain ⟨hvi, hfr, hids⟩ := hlv.patch h hrn (fun _ => rfl) (by simp) hsts (fun _ => ⟨rfl, rfl⟩) hpos hevs (by simp)
    have how : t'.runId = t.runId := by rw [ht']; rfl
    refine ⟨.inr ⟨t.runId, ?_, fun r' hr' => ?_, had.stepIds (hids ▸ h.stepIds), had.messageIds hpos.ids hpos.sent,
      had.sent_le hpos.sent⟩, ⟨_, _, rfl⟩, _, had.events.trans hevs, by simp⟩
    · have hnew := had.view
      rw [how, hvi, update_none] at hnew
      rw [hlv.view, hnew, append_assoc, hlv.held.owner]
      refine .advance hlv.held hhos hkey hmax hid (hlv.held.owner ▸ ht') ?_ ?_
      · rw [← hlv.held.owner, ← how]
        exact had.message
      · have hmem : ∀ x ∈ past ++ [t.complete moment.now r.output (some key)], x ∈ s₁.steps ∧ x.runId = t.runId := fun x hx =>
          Store.mem_chain.mp (by rw [hvi]; exact hx)
        have hke' : t'.stepKey = key := by rw [ht']; rfl
        have hfre : ∀ x ∈ past ++ [t.complete moment.now r.output (some key)], x.stepKey ≠ key := fun x hx heq =>
          (had.fresh x (hmem x hx).1).2 ⟨(hmem x hx).2.trans how.symm, heq.trans hke'.symm⟩
        intro x hx
        rcases mem_append.mp hx with hx | hx
        · exact hfre x (mem_append_left _ hx)
        · rw [mem_singleton.mp hx]
          exact hfre (t.complete moment.now r.output (some key)) (by simp)
    · rw [had.frame (how ▸ hr'), hfr r' hr']

theorem Sound.absent (h : Sound s) (hrun : s.run r = none) : s.view r = .absent := by
  rw [run_eq_head?, head?_eq_none_iff] at hrun
  have hph := h.phase r
  generalize s.view r = v at hph hrun
  cases hph with
  | absent => rfl
  | live | ended => cases hrun

theorem startRun_ok (h : Sound s) {r} (huu : isUuid r.runId = true) (hok : startRun s moment r = .ok (reply, s')) :
    Accomplished s s' moment.now (.start r) ∧ Quiet s s' reply := by
  simp only [startRun, bind_eq_ok, fetch_eq_ok, require_eq_ok] at hok
  obtain ⟨name, hna, version, hve, key, hkey, _, hchs, hok⟩ := hok
  have hmax := hchs.2.2.2.2.1
  refine and_assoc.mpr ⟨⟨huu, name, version, key, hna, hve, hkey, hchs⟩, ?_⟩
  split at hok
  · rename_i run hrun
    simp only [bind_eq_ok, fetch_eq_ok, require_eq_ok, pure_eq_ok, Prod.mk.injEq] at hok
    obtain ⟨first, hfir, _, ⟨h₁, h₂, h₃, h₄, h₅, h₆⟩, rfl, rfl⟩ := hok
    exact ⟨.inl ⟨rfl, run, first, hrun, hfir, by rw [h₁, hna], by rw [h₂, hve], h₃, by rw [h₄, hkey], h₅, h₆⟩, .refl ⟨_, _, rfl⟩⟩
  · rename_i hno
    simp only [bind_eq_ok, pure_eq_ok, Prod.mk.injEq] at hok
    obtain ⟨⟨t, s₂⟩, hen, rfl, rfl⟩ := hok
    have hab := h.absent hno
    obtain ⟨-, hid, m, ht, had⟩ := enqueueStep_ok (normalize_some hkey) hen
    generalize hs₁ : ({ s with runs := s.runs ++ [newRun moment.now r.runId name version r.input] } : Store) = s₁ at had
    have hsts : s₁.steps = s.steps ∧ s₁.queue = s.queue ∧ s₁.sent = s.sent ∧ s₁.events = s.events ∧
        s₁.runs = s.runs ++ [newRun moment.now r.runId name version r.input] := by
      subst hs₁
      exact ⟨rfl, rfl, rfl, rfl, rfl⟩
    obtain ⟨hsts, hqu, hse, hevs, hrn⟩ := hsts
    have how : t.runId = r.runId := by rw [ht]; rfl
    have hro : s.runs.filter (fun x => x.id = r.runId) = [] := congrArg View.rows hab
    have hch : s.steps.filter (fun x => x.runId = r.runId) = [] := congrArg View.chain hab
    have hma : s.queue.filter (fun x => x.runId = r.runId) = [] := congrArg View.mail hab
    have hev : s.events.filter (fun x => x.runId = r.runId) = [] := congrArg View.events hab
    have hid' : (newRun moment.now r.runId name version r.input).id = r.runId := rfl
    have hvi : s₁.view r.runId = ⟨[newRun moment.now r.runId name version r.input], [], [], []⟩ := by
      simp [Store.view, hsts, hqu, hevs, hrn, hro, hch, hma, hev, hid']
    have hfr : ∀ r', r' ≠ r.runId → s₁.view r' = s.view r' := by
      intro r' hr'
      simp [Store.view, hsts, hqu, hevs, hrn, hid', hr'.symm]
    refine ⟨.inr ⟨r.runId, ?_, fun r' hr' => ?_, ?_, ?_, ?_⟩, ⟨_, _, rfl⟩, _, congrArg (· ++ _) (had.events.trans hevs), by simp⟩
    · have hnew := had.view
      rw [how, hvi] at hnew
      have hfn : (s₂.insertEvent ⟨r.runId, some t.id, .runStarted, none, .empty, moment.now⟩).view r.runId =
          ⟨[newRun moment.now r.runId name version r.input], [t], [m], [⟨r.runId, some t.id, .runStarted, none, .empty, moment.now⟩]⟩ := by
        have hev₂ : s₂.events.filter (fun e => e.runId = r.runId) = [] := congrArg View.events hnew
        have hins : (s₂.insertEvent ⟨r.runId, some t.id, .runStarted, none, .empty, moment.now⟩).view r.runId = { s₂.view r.runId with
              events := (s₂.view r.runId).events ++ [⟨r.runId, some t.id, .runStarted, none, .empty, moment.now⟩] } := by
          simp [Store.view, Store.insertEvent]
        rw [hins, hnew]
        rfl
      rw [hab, hfn]
      exact .start hna hve hkey hmax rfl ⟨hid, huu⟩ ht (how ▸ had.message)
    · have hins : (s₂.insertEvent ⟨r.runId, some t.id, .runStarted, none, .empty, moment.now⟩).view r' = s₂.view r' := by
        simp [Store.view, Store.insertEvent, hr'.symm]
      rw [hins, had.frame (how ▸ hr'), hfr r' hr']
    · exact had.stepIds (hsts ▸ h.stepIds)
    · exact had.messageIds (hqu ▸ h.messageIds) (hqu ▸ hse ▸ h.sent)
    · exact had.sent_le (hqu ▸ hse ▸ h.sent)

/-! ## 公開の手続き -/

theorem guarded_ok {accepted} [Decidable accepted] {invalid body x}
    (hok : guarded accepted invalid body = .ok x) : accepted ∧ body = .ok x := by
  unfold guarded at hok
  by_cases ha : accepted
  · cases hb : body with
    | error e => simp [ha, hb, require, Except.mapError, bind, Except.bind] at hok
    | ok y =>
      simp only [ha, hb, require, ↓reduceIte, Except.mapError, bind, Except.bind] at hok
      exact ⟨ha, hok⟩
  · simp [ha, require, Except.mapError, bind, Except.bind] at hok

theorem execute_accomplished (h : Sound s) (hok : execute s moment q = .ok (reply, s')) (hta : ∀ r, q ≠ .claim r) :
    Accomplished s s' moment.now q ∧ Quiet s s' reply := by
  cases q with
  | start r => exact startRun_ok h (guarded_ok hok).1 (guarded_ok hok).2
  | claim r => exact absurd rfl (hta r)
  | advance r => exact advanceStep_ok h (guarded_ok hok).1 (guarded_ok hok).2
  | complete r => exact completeRun_ok h (guarded_ok hok).1 (guarded_ok hok).2
  | retry r => exact retryStep_ok h (guarded_ok hok).1 (guarded_ok hok).2
  | fail r => exact failStep_ok h (guarded_ok hok).1 (guarded_ok hok).2
  | cancel r => exact cancelRun_ok h (guarded_ok hok).1 (guarded_ok hok).2

theorem execute_effect (h : Sound s) (hok : execute s moment q = .ok (reply, s')) : s' = s ∨ ∃ id, Effect s s' moment.now q id := by
  by_cases hclm : ∃ r, q = .claim r
  · obtain ⟨r, rfl⟩ := hclm
    exact (claimStep_ok h (guarded_ok hok).2).1
  · exact (execute_accomplished h hok fun r hr => hclm ⟨r, hr⟩).1.2.imp_left And.left

/-! ## 不変条件 -/

theorem Effect.sound (hef : Effect s s' now q r) (h : Sound s) : Sound s' := by
  refine ⟨hef.stepIds, hef.messageIds, hef.sent, fun r' => ?_⟩
  by_cases hr : r' = r
  · subst hr
    refine hef.move.phase (h.phase r') ?_
    exact (filter_sublist.map Step.id).nodup hef.stepIds
  · rw [hef.frame r' hr]
    exact h.phase r'

theorem Sound.empty : Sound .empty := ⟨nodup_nil, nodup_nil, nofun, fun _ => .absent⟩

theorem commit_cases (h : Sound s) (o) : commit s o = s ∨ ∃ r, Effect s (commit s o) o.now o.request r := by
  unfold commit
  cases hok : execute s o.toMoment o.request with
  | error e => exact .inl rfl
  | ok x => exact execute_effect h hok

theorem commit_sound {o} (h : Sound s) : Sound (commit s o) := by
  rcases commit_cases h o with hs | ⟨r, hef⟩
  · rwa [hs]
  · exact hef.sound h

theorem reached_sound {os} : Sound (reached os) := run_invariant (fun _ _ h => commit_sound h) Sound.empty

end Supacloud.Workflows
