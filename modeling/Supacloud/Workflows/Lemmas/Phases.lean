import Supacloud.Workflows.Engine

/-!
# 表の切り分け

表の一つの書き換えが、run ごとに切り分けた表をどう変えるか。
-/

namespace Supacloud.Workflows

open Library Store List Option

variable {s s' : Store} {r r' : Uuid} {run : Run} {t : Step} {m : Message} {past : List Step} {events : List EventRow} {id : Uuid}
  {t' : Step}

theorem Store.mem_rows : run ∈ (s.view r).rows ↔ run ∈ s.runs ∧ run.id = r := by
  simp [view]

theorem Store.mem_chain : t ∈ (s.view r).chain ↔ t ∈ s.steps ∧ t.runId = r := by
  simp [view]

theorem Store.mem_mail : m ∈ (s.view r).mail ↔ m ∈ s.queue ∧ m.runId = r := by
  simp [view]

theorem Store.mem_events {e} : e ∈ (s.view r).events ↔ e ∈ s.events ∧ e.runId = r := by
  simp [view]

theorem Store.run_eq_head? : s.run r = (s.view r).rows.head? := by
  simp [run, view]

theorem Store.mem_of_step (h : s.step id = some t) : t ∈ s.steps ∧ t.id = id :=
  ⟨mem_of_find?_eq_some h, by simpa using find?_some h⟩

theorem Store.step_of_mem (hids : (s.steps.map Step.id).Nodup) (ht : t ∈ s.steps) : s.step t.id = some t := by
  cases h : s.step t.id with
  | none => exact absurd (find?_eq_none.mp h t ht) (by simp)
  | some t' =>
    obtain ⟨ht', hid⟩ := mem_of_step h
    rw [eq_of_key hids ht' ht hid]

/-! ## 書き換えた行 -/

section Rows

variable {runs : List Run}

theorem rows_update_other {p g} (hg : ∀ x, (g x).id = x.id) (hp : ∀ x, p x = true → x.id = r) (hr : r' ≠ r) :
    (update p g runs).filter (fun x => x.id = r') = runs.filter fun x => x.id = r' :=
  filter_update_other hg fun x _ hx => hp x hx ▸ hr.symm

end Rows

section Chain

variable {steps : List Step} {f : Step → Step}

section

variable (hf : ∀ x, (f x).runId = x.runId) (hids : (steps.map Step.id).Nodup)

include hf hids

theorem chain_update (hch : steps.filter (fun x => x.runId = t.runId) = past ++ [t]) :
    (update (fun x => x.id = t.id) f steps).filter (fun x => x.runId = t.runId) = past ++ [f t] := by
  rw [filter_update (fun x => by rw [hf x]), hch, update_append, update_eq_self]
  · simp [update]
  · intro x hx
    have hnd : ((past ++ [t]).map Step.id).Nodup := by
      rw [← hch]
      exact filter_sublist.map Step.id |>.nodup hids
    rw [map_append, nodup_append] at hnd
    simpa using hnd.2.2 x.id (mem_map_of_mem hx) t.id (by simp)

theorem chain_update_other (ht : t ∈ steps) (hr : r ≠ t.runId) :
    (update (fun x => x.id = t.id) f steps).filter (fun x => x.runId = r) = steps.filter fun x => x.runId = r :=
  filter_update_other hf fun x hx hid => by
    rw [eq_of_key hids hx ht (of_decide_eq_true hid)]
    exact hr.symm

end

end Chain

section Mail

variable {queue : List Message}

theorem mail_archive (hma : queue.filter (fun x => x.runId = r) = [m]) :
    (queue.filter fun x => x.id ≠ m.id).filter (fun x => x.runId = r) = [] := by
  rw [filter_comm, hma]
  simp

theorem mail_archive_other (hids : (queue.map Message.id).Nodup) (hm : m ∈ queue) (hr : r ≠ m.runId) :
    (queue.filter fun x => x.id ≠ m.id).filter (fun x => x.runId = r) = queue.filter fun x => x.runId = r := by
  rw [filter_comm]
  refine filter_eq_self.mpr fun x hx => ?_
  obtain ⟨hmem, hx⟩ := mem_filter.mp hx
  simp only [decide_eq_true_eq] at hx
  simp only [ne_eq, decide_not, Bool.not_eq_true', decide_eq_false_iff_not]
  intro hid
  rw [eq_of_key hids hmem hm hid] at hx
  exact hr hx.symm

theorem mail_update {f} (hf : ∀ x, (f x).runId = x.runId) (hma : queue.filter (fun x => x.runId = m.runId) = [m]) :
    (update (fun x => x.id = m.id) f queue).filter (fun x => x.runId = m.runId) = [f m] := by
  rw [filter_update (fun x => by rw [hf x]), hma]
  simp [update]

theorem mail_update_other {f} (hf : ∀ x, (f x).runId = x.runId) (hids : (queue.map Message.id).Nodup) (hm : m ∈ queue)
    (hr : r ≠ m.runId) : (update (fun x => x.id = m.id) f queue).filter (fun x => x.runId = r) = queue.filter fun x => x.runId = r :=
  filter_update_other hf fun x hx hid => by
    rw [eq_of_key hids hx hm (of_decide_eq_true hid)]
    exact hr.symm

end Mail

/-! ## 一つの run の不変条件 -/

variable {v v' : View} {x : Step} {es : List EventRow}

/-! ## 試みの記録 -/

/-- step を渡した記録は 1 から順に番号が付き、上限を超えない。結果の記録は、渡した試みごとに高々一つである。 -/
structure Ledger (events : List EventRow) (t : Step) : Prop where
  claims : (claimsOf t.id events).map Prod.fst = List.range' 1 (claimsOf t.id events).length
  bound : (claimsOf t.id events).length ≤ t.maxAttempts
  active : t.status.active = true → t.attempts = (claimsOf t.id events).length
  latest : t.status = .running → ∃ workerId, t.claimedBy = some workerId ∧ (claimsOf t.id events).getLast? = some (t.attempts, workerId)
  once : (outcomesOf t.id events).Nodup
  claimed : ∀ a ∈ outcomesOf t.id events, a ≤ (claimsOf t.id events).length
  pending : t.status = .running → t.attempts ∉ outcomesOf t.id events

theorem claimsOf_append : claimsOf id (events ++ es) = claimsOf id events ++ claimsOf id es := filterMap_append

theorem outcomesOf_append : outcomesOf id (events ++ es) = outcomesOf id events ++ outcomesOf id es := filterMap_append

theorem claimsOf_eq_nil (h : ∀ e ∈ es, e.stepId ≠ some id) : claimsOf id es = [] :=
  filterMap_eq_nil_iff.mpr fun e he => if_neg (h e he)

theorem outcomesOf_eq_nil (h : ∀ e ∈ es, e.stepId ≠ some id) : outcomesOf id es = [] :=
  filterMap_eq_nil_iff.mpr fun e he => if_neg (h e he)

namespace Ledger

theorem append_other (h : Ledger events t) (hes : ∀ e ∈ es, e.stepId ≠ some t.id) : Ledger (events ++ es) t := by
  have hc : claimsOf t.id (events ++ es) = claimsOf t.id events := by rw [claimsOf_append, claimsOf_eq_nil hes, append_nil]
  have ho : outcomesOf t.id (events ++ es) = outcomesOf t.id events := by rw [outcomesOf_append, outcomesOf_eq_nil hes, append_nil]
  constructor
  · rw [hc]; exact h.claims
  · rw [hc]; exact h.bound
  · rw [hc]; exact h.active
  · rw [hc]; exact h.latest
  · rw [ho]; exact h.once
  · rw [hc, ho]; exact h.claimed
  · rw [ho]; exact h.pending

theorem fresh (hes : ∀ e ∈ events, e.stepId ≠ some t.id) (hsts : t.status = .queued) (hats : t.attempts = 0) : Ledger events t := by
  have hc := claimsOf_eq_nil hes
  have ho := outcomesOf_eq_nil hes
  constructor <;> simp [hc, ho, hsts, hats]

theorem grant {now workerId} (h : Ledger events t) (hac : t.status.active = true) (hbo : t.attempts + 1 ≤ t.maxAttempts) :
    Ledger (events ++ [⟨run.id, some t.id, .stepClaimed, some (t.attempts + 1), .claimed workerId, now⟩])
      (t.grant now (t.attempts + 1) workerId) := by
  have hlen := h.active hac
  have hid : (t.grant now (t.attempts + 1) workerId).id = t.id := rfl
  have hc : claimsOf t.id (events ++ [⟨run.id, some t.id, .stepClaimed, some (t.attempts + 1), .claimed workerId, now⟩]) =
      claimsOf t.id events ++ [(t.attempts + 1, workerId)] := by
    rw [claimsOf_append]
    simp [claimsOf, EventRow.claim]
  have ho : outcomesOf t.id (events ++ [⟨run.id, some t.id, .stepClaimed, some (t.attempts + 1), .claimed workerId, now⟩]) =
      outcomesOf t.id events := by
    rw [outcomesOf_append]
    simp [outcomesOf, EventRow.outcome]
  constructor
  · rw [hid, hc, map_append, h.claims, length_append, length_singleton, range'_concat, hlen]
    simp [Nat.add_comm]
  · rw [hid, hc, length_append, ← hlen]
    exact hbo
  · intro _
    rw [hid, hc, length_append, ← hlen]
    rfl
  · intro _
    exact ⟨workerId, rfl, by rw [hid, hc, getLast?_concat]; rfl⟩
  · rw [hid, ho]
    exact h.once
  · rw [hid, ho, hc]
    intro a ha
    exact (h.claimed a ha).trans (by simp)
  · intro _ hmem
    rw [hid, ho] at hmem
    have hle := h.claimed _ hmem
    rw [← hlen] at hle
    exact absurd hle (by simp [Step.grant])

theorem settle (h : Ledger events t) (hru : t.status = .running) (hid : t'.id = t.id) (hmax : t'.maxAttempts = t.maxAttempts)
    (hats : t'.attempts = t.attempts) (hsts : t'.status ≠ .running)
    (hc : claimsOf t.id es = []) (ho : outcomesOf t.id es = [t.attempts]) : Ledger (events ++ es) t' := by
  have hc' : claimsOf t'.id (events ++ es) = claimsOf t.id events := by rw [hid, claimsOf_append, hc, append_nil]
  have ho' : outcomesOf t'.id (events ++ es) = outcomesOf t.id events ++ [t.attempts] := by rw [hid, outcomesOf_append, ho]
  have hlen : t.attempts = (claimsOf t.id events).length := h.active (by simp [hru, StepStatus.active])
  constructor
  · rw [hc']; exact h.claims
  · rw [hc', hmax]; exact h.bound
  · intro _
    rw [hc', hats]; exact hlen
  · exact fun hr => absurd hr hsts
  · grind [h.once, h.pending]
  · grind [→ h.claimed]
  · exact fun hr => absurd hr hsts

theorem drop (h : Ledger events t) (hid : t'.id = t.id) (hmax : t'.maxAttempts = t.maxAttempts)
    (hac : t'.status.active = false) (hc : claimsOf t.id es = []) (ho : outcomesOf t.id es = []) : Ledger (events ++ es) t' := by
  have hc' : claimsOf t'.id (events ++ es) = claimsOf t.id events := by rw [hid, claimsOf_append, hc, append_nil]
  have ho' : outcomesOf t'.id (events ++ es) = outcomesOf t.id events := by rw [hid, outcomesOf_append, ho, append_nil]
  have hsts : t'.status ≠ .running := by
    intro hr
    rw [hr] at hac
    cases hac
  constructor
  · rw [hc']; exact h.claims
  · rw [hc', hmax]; exact h.bound
  · intro ha
    rw [hac] at ha
    cases ha
  · exact fun hr => absurd hr hsts
  · rw [ho']; exact h.once
  · rw [hc', ho']; exact h.claimed
  · exact fun hr => absurd hr hsts

end Ledger

/-! ## step の鎖 -/

structure Chained (events : List EventRow) (past : List Step) (t : Step) : Prop where
  linked : (past ++ [t]).IsChain Linked
  last : t.nextStepKey = none
  keys : ((past ++ [t]).map Step.stepKey).Nodup
  ids : ((past ++ [t]).map Step.id).Nodup
  uuids : ∀ x ∈ past ++ [t], isUuid x.id = true ∧ isUuid x.runId = true
  ledger : ∀ x ∈ past ++ [t], Ledger events x
  known : ∀ e ∈ events, ∀ id, e.stepId = some id → ∃ x ∈ past ++ [t], x.id = id

namespace Chained

theorem ledger_last (h : Chained events past t) : Ledger events t := h.ledger t (by simp)

theorem id_ne (h : Chained events past t) (hx : x ∈ past) : x.id ≠ t.id := by
  have hids := h.ids
  rw [map_append, nodup_append] at hids
  exact hids.2.2 x.id (mem_map_of_mem hx) t.id (by simp)

theorem completed (h : Chained events past t) (hx : x ∈ past) : x.status = .completed := by
  have hli := h.linked
  clear h
  induction past with
  | nil => cases hx
  | cons a past ih =>
    rcases mem_cons.mp hx with rfl | hx
    · cases past with
      | nil | cons b past => exact (isChain_cons_cons.mp hli).1.1
    · exact ih hx hli.tail

structure Rewrites (t t' : Step) : Prop where
  id : t'.id = t.id
  runId : t'.runId = t.runId
  stepKey : t'.stepKey = t.stepKey
  input : t'.input = t.input
  maxAttempts : t'.maxAttempts = t.maxAttempts
  queueMessageId : t'.queueMessageId = t.queueMessageId
  createdAt : t'.createdAt = t.createdAt

theorem linked_replace (hkey : t'.stepKey = t.stepKey) (h : (past ++ [t]).IsChain Linked) : (past ++ [t']).IsChain Linked := by
  rw [isChain_append] at h ⊢
  refine ⟨h.1, isChain_singleton _, fun a ha b hb => ?_⟩
  obtain ⟨hs, hn⟩ := h.2.2 a ha t (by simp)
  simp only [head?_cons, mem_def, some.injEq] at hb
  subst hb
  exact ⟨hs, by rw [hn, hkey]⟩

theorem replace (h : Chained events past t) (hrw : Rewrites t t') (hne : t'.nextStepKey = none)
    (hes : ∀ e ∈ es, e.stepId = some t.id) (hld : Ledger (events ++ es) t') : Chained (events ++ es) past t' where
  linked := linked_replace hrw.stepKey h.linked
  last := hne
  keys := by simpa [hrw.stepKey] using h.keys
  ids := by simpa [hrw.id] using h.ids
  uuids := by
    intro x hx
    rcases mem_append.mp hx with hx | hx
    · exact h.uuids x (mem_append_left _ hx)
    · rw [mem_singleton.mp hx, hrw.id, hrw.runId]
      exact h.uuids t (by simp)
  ledger := by
    intro x hx
    rcases mem_append.mp hx with hx | hx
    · refine (h.ledger x (mem_append_left _ hx)).append_other fun e he hid => ?_
      rw [hes e he, some.injEq] at hid
      exact h.id_ne hx hid.symm
    · rw [mem_singleton.mp hx]
      exact hld
  known := by
    intro e he id hid
    rcases mem_append.mp he with he | he
    · grind [h.known, hrw.id, id]
    · rw [hes e he, some.injEq] at hid
      exact ⟨t', by simp, hrw.id.trans hid⟩

theorem extend {u} (h : Chained events past t) (hrw : Rewrites t t') (hln : Linked t' u) (hne : u.nextStepKey = none)
    (hkey : ∀ x ∈ past ++ [t], x.stepKey ≠ u.stepKey) (hid : ∀ x ∈ past ++ [t], x.id ≠ u.id)
    (huu : isUuid u.id = true ∧ isUuid u.runId = true)
    (hes : ∀ e ∈ es, e.stepId = some t.id) (hld : Ledger (events ++ es) t') (hu : u.status = .queued ∧ u.attempts = 0) :
    Chained (events ++ es) (past ++ [t']) u := by
  have hfr : ∀ e ∈ events ++ es, e.stepId ≠ some u.id := by grind [h.known]
  have hke' : ∀ x ∈ past ++ [t'], x.stepKey ≠ u.stepKey := by grind [hrw.stepKey]
  have hid' : ∀ x ∈ past ++ [t'], x.id ≠ u.id := by grind [hrw.id]
  have hes' : ∀ x ∈ past, ∀ e ∈ es, e.stepId ≠ some x.id := by
    intro x hx e he heq
    rw [hes e he, some.injEq] at heq
    exact h.id_ne hx heq.symm
  constructor
  · rw [isChain_append]
    refine ⟨linked_replace hrw.stepKey h.linked, isChain_singleton _, fun a ha b hb => ?_⟩
    simp only [getLast?_concat, head?_cons, mem_def, some.injEq] at ha hb
    subst ha hb
    exact hln
  · exact hne
  · grind [hrw.stepKey, h.keys]
  · grind [hrw.id, h.ids]
  · grind [h.uuids, hrw.id, hrw.runId]
  · intro x hx
    rcases mem_append.mp hx with hx | hx
    · rcases mem_append.mp hx with hx | hx
      · exact (h.ledger x (mem_append_left _ hx)).append_other (hes' x hx)
      · rw [mem_singleton.mp hx]
        exact hld
    · rw [mem_singleton.mp hx]
      exact .fresh hfr hu.1 hu.2
  · grind [h.known, hrw.id]

end Chained

/-! ## run の段階 -/

inductive Phase : View → Prop
  | absent : Phase .absent
  | live {run : Run} {past t m events} (hheld : Held run t m)
      (hcount : m.readCount = t.attempts) (hchained : Chained events past t) : Phase ⟨[run], past ++ [t], [m], events⟩
  | ended {run : Run} {past t events} (hrun : run.status.active = false)
      (hstep : t.status.active = false) (hchained : Chained events past t) : Phase ⟨[run], past ++ [t], [], events⟩

theorem Phase.of_live (h : Phase ⟨[run], past ++ [t], [m], events⟩) : m.readCount = t.attempts ∧ Chained events past t := by
  generalize hv : View.mk [run] (past ++ [t]) [m] events = v at h
  cases h with
  | absent => exact absurd (congrArg View.rows hv) (by simp [View.absent])
  | ended => exact absurd (congrArg View.mail hv) (by simp)
  | live hheld hcount hchained =>
    simp only [View.mk.injEq, cons.injEq, and_true, append_singleton_inj] at hv
    obtain ⟨-, ⟨rfl, rfl⟩, rfl, rfl⟩ := hv
    exact ⟨hcount, hchained⟩

theorem Chained.first {u} (hsts : u.status = .queued ∧ u.attempts = 0) (hne : u.nextStepKey = none)
    (huu : isUuid u.id = true ∧ isUuid u.runId = true) (hes : ∀ e ∈ es, e.stepId = some u.id) (hc : claimsOf u.id es = [])
    (ho : outcomesOf u.id es = []) : Chained es [] u where
  linked := isChain_singleton _
  last := hne
  keys := by simp
  ids := by simp
  uuids := by simpa using huu
  ledger := by
    intro x hx
    obtain rfl : x = u := by simpa using hx
    constructor <;> simp [hc, ho, hsts]
  known := by
    intro e he id hid
    rw [hes e he, some.injEq] at hid
    exact ⟨u, by simp, hid⟩

theorem Held.rewritten (h : Held run t m) (hrw : Chained.Rewrites t t') (hstep : t'.status.active = true) : Held run t' m :=
  ⟨h.active, hstep, hrw.runId.trans h.owner, h.stepId.trans hrw.id.symm, h.id.trans hrw.queueMessageId.symm⟩

theorem Move.phase {now q} (hmo : Move now q v v') (h : Phase v)
    (hids : (v'.chain.map Step.id).Nodup) : Phase v' := by
  cases hmo with
  | @start r name version key run t m hna hve hkey hmax hrun hid ht hm =>
    have hstep : t.status = .queued ∧ t.attempts = 0 ∧ t.nextStepKey = none ∧ t.runId = r.runId ∧ t.queueMessageId = m.id := by
      rw [ht]
      simp [newStep]
    obtain ⟨hsts, hats, hne, hruI, hme⟩ := hstep
    have hheld : Held run t m := by
      refine ⟨by rw [hrun]; rfl, by rw [hsts]; rfl, by rw [hruI, hrun]; rfl, by rw [hm], hme.symm⟩
    have hchained : Chained [⟨run.id, some t.id, .runStarted, none, .empty, now⟩] [] t := by
      refine .first ⟨hsts, hats⟩ hne ?_ (by simp) ?_ ?_
      · rw [hruI]
        exact hid
      · simp [claimsOf, EventRow.claim]
      · simp [outcomesOf, EventRow.outcome]
    exact .live hheld (by rw [hm, hats]) hchained
  | grant hheld hwo hbo =>
    obtain ⟨hcount, hchained⟩ := h.of_live
    rw [hcount] at hbo ⊢
    refine .live ⟨rfl, rfl, hheld.owner, hheld.stepId, hheld.id⟩ (congrArg (· + 1) hcount) (hchained.replace ⟨rfl, rfl, rfl, rfl, rfl, rfl, rfl⟩ hchained.last (by simp) ?_)
    exact hchained.ledger_last.grant hheld.pending hbo
  | exhaust hheld hbo | cancel hheld hrun hre =>
    obtain ⟨hcount, hchained⟩ := h.of_live
    refine .ended rfl rfl (hchained.replace ⟨rfl, rfl, rfl, rfl, rfl, rfl, rfl⟩ hchained.last (by simp) ?_)
    exact hchained.ledger_last.drop rfl rfl rfl (by simp [claimsOf, EventRow.claim]) (by simp [outcomesOf, EventRow.outcome])
  | @advance r run past t t' m m' events workerId key hheld hhos hkey hmax hid ht' hm' hfr =>
    obtain ⟨hcount, hchained⟩ := h.of_live
    have hstep : t'.status = .queued ∧ t'.attempts = 0 ∧ t'.nextStepKey = none ∧ t'.runId = run.id ∧ t'.stepKey = key ∧
        t'.queueMessageId = m'.id := by
      rw [ht']
      simp [newStep]
    obtain ⟨hsts, hats, hne, hruI, hke', hme⟩ := hstep
    have hot : ∀ x ∈ past ++ [t], x.id ≠ t'.id := by
      intro x hx heq
      have hnd : ((past ++ [t.complete now r.output (some key)]).map Step.id ++ [t'.id]).Nodup := by simpa using hids
      refine (nodup_append.mp hnd).2.2 x.id ?_ t'.id (by simp) heq
      rcases mem_append.mp hx with hx | hx
      · exact mem_map_of_mem (mem_append_left _ hx)
      · rw [mem_singleton.mp hx]
        simp [Step.complete]
    have huu : isUuid t'.runId = true := by
      rw [hruI, ← hheld.owner]
      exact (hchained.uuids t (by simp)).2
    have hld : Ledger (events ++ [⟨run.id, some t.id, .stepCompleted, some r.attempt, .next key, now⟩])
        (t.complete now r.output (some key)) :=
      hchained.ledger_last.settle hhos.running rfl rfl rfl nofun (by simp [claimsOf, EventRow.claim])
        (by simp [outcomesOf, EventRow.outcome, hhos.attempt])
    have hln : Linked (t.complete now r.output (some key)) t' := ⟨rfl, by rw [hke']; rfl⟩
    have hrw : Chained.Rewrites t (t.complete now r.output (some key)) := ⟨rfl, rfl, rfl, rfl, rfl, rfl, rfl⟩
    have hla := hchained.extend hrw hln hne
      (fun x hx => by rw [hke']; exact hfr x hx) hot ⟨hid, huu⟩
      (fun e he => by rw [mem_singleton.mp he]) hld ⟨hsts, hats⟩
    rw [show past ++ [t.complete now r.output (some key), t'] = past ++ [t.complete now r.output (some key)] ++ [t'] by simp]
    exact .live ⟨hheld.active, by rw [hsts]; rfl, hruI, by rw [hm'], hme.symm⟩ (by rw [hm', hats]) hla
  | complete hheld hhos | bury hheld hhos her | fail hheld hhos her =>
    obtain ⟨hcount, hchained⟩ := h.of_live
    refine .ended rfl rfl (hchained.replace ⟨rfl, rfl, rfl, rfl, rfl, rfl, rfl⟩ hchained.last (by simp) ?_)
    refine hchained.ledger_last.settle hhos.running rfl rfl rfl nofun (by simp [claimsOf, EventRow.claim]) ?_
    simp [outcomesOf, EventRow.outcome, hhos.attempt]
  | requeue hheld hhos her hbo =>
    obtain ⟨hcount, hchained⟩ := h.of_live
    refine .live (hheld.rewritten ⟨rfl, rfl, rfl, rfl, rfl, rfl, rfl⟩ rfl) hcount
      (hchained.replace ⟨rfl, rfl, rfl, rfl, rfl, rfl, rfl⟩ hchained.last (by simp) ?_)
    refine hchained.ledger_last.settle hhos.running rfl rfl rfl nofun (by simp [claimsOf, EventRow.claim]) ?_
    simp [outcomesOf, EventRow.outcome, hhos.attempt]

end Supacloud.Workflows
