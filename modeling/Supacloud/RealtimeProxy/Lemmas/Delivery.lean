import Supacloud.RealtimeProxy.Lemmas.Service

/-! # 配信の漏れと順序 -/

namespace Supacloud.RealtimeProxy

open Contracts (JsString)

open Library Tenant List

variable {filters : Filters} {visible : Nat → Nat → Nat → Bool} {w w' : Tenant} {k : Nat} {task : Task} {work : Work} {scan : Scan}
  {states states' : List SubscriptionState} {state : SubscriptionState} {next counter i : Nat} {present seen checked : List Nat}
  {change : RealtimeChange} {sees : Nat → Bool} {array id j : Nat} {x' : SubscriptionState}

/-! ## 漏れ -/

theorem Covered.edit (h : Covered filters sees change states next present seen) (hpr : ∀ id ∈ present, id ≤ counter)
    (hbc : ∀ (i) (x'), states'[i]? = some x' → i < next → counter < x'.id ∨
      ∃ (j : Nat) (x : SubscriptionState), states[j]? = some x ∧ SameState x x' ∧
        (j < next ∨ (x.id ∈ present → x.matchesChange filters change = true → sees x.id = false))) :
    Covered filters sees change states' next present seen := by
  intro i x' hx hi hmem hma hse
  rcases hbc i x' hx hi with hnew | ⟨j, x, hx, hsa, hj⟩
  · exact absurd (hpr x'.id hmem) (by omega)
  · rw [← hsa.1] at hmem hse ⊢
    rw [← hsa.matches_eq] at hma
    rcases hj with hj | hsk
    · exact h j x hx hj hmem hma hse
    · rw [hsk hmem hma] at hse
      cases hse

theorem Covered.advance (h : Covered filters sees change states next present checked) (hst : states[i]? = some state)
    (hsk : ∀ (j) (x), next ≤ j → j < i → states[j]? = some x → x.matchesChange filters change = false) :
    Covered filters sees change states (i + 1) present (checked ++ [state.id]) := by
  intro j x hx hj hmem hma hse
  by_cases hlt : j < next
  · exact mem_append_left _ (h j x hx hlt hmem hma hse)
  · grind

abbrev Scan.Covered (filters : Filters) (visible : Nat → Nat → Nat → Bool) (w : Tenant) (k : Nat) (scan : Scan) : Prop :=
  RealtimeProxy.Covered filters (visible k scan.work.offset) scan.work.change (w.states scan.work.array) scan.next scan.work.present
    (scan.checked ++ [scan.check.stateId])

structure Complete (filters : Filters) (visible : Nat → Nat → Nat → Bool) (w : Tenant) : Prop where
  covered : ∀ (k : Nat) (task : Task) (scan : Scan), w.tasks[k]? = some task → task.running = some scan →
    Covered filters (visible k scan.work.offset) scan.work.change (w.states scan.work.array) scan.next scan.work.present
      (scan.checked ++ [scan.check.stateId])
  finished : ∀ f ∈ w.finished, ∀ state ∈ f.kept, state.matchesChange filters f.change = true → visible f.task f.offset state.id = true →
    w.emittedTo f.task f.offset state.id = 1
  past : ∀ f ∈ w.finished, ∃ task, w.tasks[f.task]? = some task ∧ f.offset < task.position ∧
    ∀ scan, task.running = some scan → scan.work.offset ≠ f.offset

theorem complete_empty (projectRef) : Complete filters visible (.empty projectRef) := by
  refine ⟨?_, ?_, ?_⟩
  · intro k task scan h
    cases h
  · intro f hf
    cases hf
  · intro f hf
    cases hf

theorem Complete.edited (h : Complete filters visible w) (he : Edited w w')
    (hco : ∀ (k : Nat) (task) (scan), w.tasks[k]? = some task → task.running = some scan →
      scan.Covered filters visible w' k) : Complete filters visible w' := by
  refine ⟨?_, ?_, ?_⟩
  · intro k task scan hta hsc
    rw [he.tasks] at hta
    exact hco k task scan hta hsc
  · intro f hf state hst hma hvi
    rw [he.finished] at hf
    simp only [emittedTo, he.log]
    exact h.finished f hf state hst hma hvi
  · intro f hf
    rw [he.finished] at hf
    rw [he.tasks]
    exact h.past f hf

theorem Complete.resume (hrd : Ready visible w k task work next checked)
    (hots : w.Others k fun j _ scan => scan.Covered filters visible w j)
    (hco : Covered filters (visible k work.offset) work.change (w.states work.array) next work.present checked)
    (hfi : ∀ f ∈ w.finished, ∀ state ∈ f.kept, state.matchesChange filters f.change = true → visible f.task f.offset state.id = true →
      w.emittedTo f.task f.offset state.id = 1)
    (hpa : ∀ f ∈ w.finished, ∃ task, w.tasks[f.task]? = some task ∧ f.offset < task.position ∧ (f.task = k → f.offset ≠ work.offset) ∧
      (f.task ≠ k → ∀ scan, task.running = some scan → scan.work.offset ≠ f.offset)) :
    Complete filters visible (RealtimeProxy.resume filters w k task work next checked) := by
  obtain ⟨old, hold, _, hpo⟩ := hrd.old
  have hpaS : ∀ running, (∀ scan, running = some scan → scan.work = work) → ∀ f ∈ w.finished,
      ∃ found, (w.tasks.set k { task with running })[f.task]? = some found ∧ f.offset < found.position ∧
        ∀ scan, found.running = some scan → scan.work.offset ≠ f.offset := by
    intro running hru f hf
    obtain ⟨found, hfo, hlt, hown, hot⟩ := hpa f hf
    rw [getElem?_set_of hold]
    by_cases hk : k = f.task
    · grind
    · rw [if_neg hk]
      exact ⟨found, hfo, hlt, hot (fun h => hk h.symm)⟩
  have hcoS : ∀ running, (∀ scan, running = some scan → scan.Covered filters visible w k) →
      ∀ (j : Nat) (task') (scan'), (w.tasks.set k { task with running })[j]? = some task' → task'.running = some scan' →
        scan'.Covered filters visible w j := by
    intro running hru j task' scan' hta hsc
    rw [getElem?_set_of hold] at hta
    by_cases hk : k = j
    · rw [if_pos hk] at hta
      cases hta
      rw [← hk]
      exact hru scan' hsc
    · rw [if_neg hk] at hta
      exact hots j task' scan' (fun h => hk h.symm) hta hsc
  rcases resume_cases filters w k task work next checked with ⟨hrs, heq⟩ | ⟨i, state, hle, hst, _, hsk, heq⟩
  · rw [heq]
    refine ⟨hcoS none (fun scan hsc => nomatch hsc), ?_, ?_⟩
    · intro f hf kept hke hma hvi
      rcases mem_append.mp hf with hf | hf
      · exact hfi f hf kept hke hma hvi
      · cases mem_singleton.mp hf
        obtain ⟨hmem, hpr⟩ := mem_filter.mp hke
        obtain ⟨i, hi⟩ := mem_iff_getElem?.mp hmem
        have hlt : i < next := by
          by_contra hge
          rw [hrs i kept hi (by omega)] at hma
          cases hma
        have hchc := hco i kept hi hlt (by simpa using hpr) hma hvi
        exact (hrd.emitted kept.id).trans (if_pos ⟨hchc, hvi⟩)
    · grind [hrd.offset, getElem?_set_of]
  · rw [heq]
    refine ⟨hcoS _ ?_, hfi, hpaS _ ?_⟩
    · intro scan hsc
      cases hsc
      exact hco.advance hst hsk
    · intro scan hsc
      cases hsc
      rfl

section

variable (hi : Inv visible w) (h : Complete filters visible w) (hta : w.tasks[k]? = some task)

include hi h hta

theorem filterAndEmit_complete (hidl : task.running = none) (hch : task.changes[task.position]? = some change) :
    Complete filters visible (filterAndEmit filters w k task change) := by
  have hots : w.Others k fun j _ scan => scan.Covered filters visible w j := fun j task' scan' _ => h.covered j task' scan'
  rcases filterAndEmit_cases filters w k task change with ⟨_, heq⟩ | ⟨array, hcu, _, heq⟩
  · rw [heq]
    refine ⟨?_, h.finished, ?_⟩
    · intro j task' scan' hta' hsc'
      rw [show ({ w with tasks := w.tasks.set k { task with position := task.position + 1 } } : Tenant).tasks =
        w.tasks.set k { task with position := task.position + 1 } from rfl, getElem?_set_of hta] at hta'
      by_cases hk : k = j
      · grind
      · rw [if_neg hk] at hta'
        exact hots j task' scan' (fun h => hk h.symm) hta' hsc'
    · grind [h.past, getElem?_set_of]
  · rw [heq]
    refine Complete.resume (hi.startReady hta hcu hch) hots ?_ h.finished ?_
    · intro i x _ hlt
      exact absurd hlt (Nat.not_lt_zero i)
    · grind [h.past]

theorem finishCheck_complete (hsc : task.running = some scan) : Complete filters visible (finishCheck filters visible w k task scan) := by
  have hrd := hi.ready hta hsc
  have hco := h.covered k task scan hta hsc
  have hpa : ∀ f ∈ w.finished, ∃ task, w.tasks[f.task]? = some task ∧ f.offset < task.position ∧ (f.task = k → f.offset ≠ scan.work.offset) ∧
      (f.task ≠ k → ∀ scan, task.running = some scan → scan.work.offset ≠ f.offset) := by
    intro f hf
    obtain ⟨found, hfo, hlt, hscs⟩ := h.past f hf
    refine ⟨found, hfo, hlt, ?_, fun _ => hscs⟩
    intro hk
    rw [hk, hta] at hfo
    cases hfo
    exact (hscs scan hsc).symm
  unfold finishCheck
  by_cases hvi : visible k scan.work.offset scan.check.stateId = true
  · simp only [hvi, if_true] at hrd ⊢
    refine Complete.resume hrd (fun j task' scan' _ => h.covered j task' scan') hco ?_ hpa
    intro f hf state hst hma hse
    rw [emittedTo_concat, if_neg, Nat.add_zero]
    · exact h.finished f hf state hst hma hse
    · rintro ⟨hk, hof, _⟩
      obtain ⟨_, _, _, hown, _⟩ := hpa f hf
      exact hown hk.symm hof.symm
  · grind [h.covered, h.finished, Complete.resume]

end

/-! ## 登録の呼び出しの後の配列 -/

theorem subscribeTenant_states {skipped subscriptions token}
    (ha : Arrays w) (hx : ((subscribeTenant w skipped subscriptions token).states array)[i]? = some x') :
    w.subscriptionCounter < x'.id ∨ (w.states array)[i]? = some x' := by
  have hpu : ∀ states,
      (states ++ [(⟨w.subscriptionCounter + skipped + 1, subscriptions, some token⟩ : SubscriptionState)])[i]? = some x' →
        w.subscriptionCounter < x'.id ∨ states[i]? = some x' := by
    intro states hx
    by_cases hi : i < states.length
    · rw [getElem?_append_left hi] at hx
      exact .inr hx
    · grind
  unfold subscribeTenant at hx
  split at hx
  · rename_i array' hcu
    simp only [states, states_set (ha.lt array' hcu)] at hx
    split at hx
    · rename_i heq
      subst heq
      exact hpu _ hx
    · exact .inr hx
  · simp only [states, states_append] at hx
    split at hx
    · exact hpu _ hx
    · rw [append_nil] at hx
      exact .inr hx

theorem updateSubscriptionToken_states {token} (ha : Arrays w)
    (hx : ((updateSubscriptionToken w id token).states array)[i]? = some x') : ∃ x, (w.states array)[i]? = some x ∧ SameState x x' := by
  unfold updateSubscriptionToken at hx
  split at hx
  · exact ⟨x', hx, rfl, rfl⟩
  · rename_i array' hcu
    simp only [states, states_set (ha.lt array' hcu)] at hx
    split at hx
    · rename_i heq
      subst heq
      rw [getElem?_map, Option.map_eq_some_iff] at hx
      obtain ⟨x, hx, rfl⟩ := hx
      exact ⟨x, hx, sameState_withToken id token x⟩
    · exact ⟨x', hx, rfl, rfl⟩

theorem unsubscribeSubscription_states (ha : Arrays w) (hx : ((unsubscribeSubscription w id).states array)[i]? = some x') :
    (w.states array)[i]? = some x' ∨
      (w.current = some array ∧ (w.states array).findIdx (·.id == id) ≤ i ∧ (w.states array)[i + 1]? = some x') := by
  unfold unsubscribeSubscription at hx
  split at hx
  · exact .inl hx
  · rename_i array' hcu
    simp only [states, states_set (ha.lt array' hcu)] at hx
    split at hx
    · rename_i heq
      subst heq
      rw [getElem?_eraseIdx] at hx
      split at hx
      · exact .inl hx
      · rename_i hge
        exact .inr ⟨hcu, Nat.not_lt.mp hge, hx⟩
    · exact .inl hx

theorem step_complete (hi : Inv visible w) (h : Complete filters visible w) (e) (hkp : KeepsPlace filters visible w e) :
    Complete filters visible (step filters visible w e) := by
  have hpr : ∀ (k : Nat) (task) (scan), w.tasks[k]? = some task → task.running = some scan →
      ∀ id ∈ scan.work.present, id ≤ w.subscriptionCounter :=
    fun k task scan hta hsc => (hi.scans k task scan hta hsc).place.present_le
  cases e with
  | deliver changes =>
    refine ⟨?_, h.finished, ?_⟩
    · intro k task scan hta hsc
      have htas : (w.tasks ++ [{ changes, position := 0, running := none }])[k]? = some task := hta
      by_cases hk : k < w.tasks.length
      · rw [getElem?_append_left hk] at htas
        exact h.covered k task scan htas hsc
      · grind
    · intro f hf
      obtain ⟨task, hta, hrs⟩ := h.past f hf
      refine ⟨task, ?_, hrs⟩
      rw [← hta]
      exact List.getElem?_append_left (List.getElem?_eq_some_iff.mp hta).1
  | start k =>
    simp only [step]
    split
    next => exact h
    next task hta =>
      split
      next change hidl hch => exact filterAndEmit_complete hi h hta hidl hch
      next => exact h
  | resolve k =>
    simp only [step]
    split
    next => exact h
    next task hta =>
      split
      next => exact h
      next scan hsc => exact finishCheck_complete hi h hta hsc
  | subscribe skipped subscriptions token =>
    refine h.edited (subscribeTenant_inv hi.arrays).2 fun k task scan hta hsc => ?_
    refine (h.covered k task scan hta hsc).edit (hpr k task scan hta hsc) ?_
    intro i x' hx hlt
    rcases subscribeTenant_states hi.arrays hx with hnew | hold
    · exact .inl hnew
    · exact .inr ⟨i, x', hold, ⟨rfl, rfl⟩, .inl hlt⟩
  | unsubscribe id =>
    refine h.edited (unsubscribeSubscription_inv hi.arrays).2 fun k task scan hta hsc => ?_
    refine (h.covered k task scan hta hsc).edit (hpr k task scan hta hsc) ?_
    intro i x' hx hlt
    rcases unsubscribeSubscription_states hi.arrays hx with hold | ⟨hcu, hle, hold⟩
    · exact .inr ⟨i, x', hold, ⟨rfl, rfl⟩, .inl hlt⟩
    · refine .inr ⟨i + 1, x', hold, ⟨rfl, rfl⟩, ?_⟩
      by_cases hnx : i + 1 < scan.next
      · exact .inl hnx
      · have heq : i + 1 = scan.next := by omega
        rw [heq] at hold
        exact .inr (hkp k task scan hta hsc hcu (by omega) x' hold)
  | updateToken id token =>
    refine h.edited (updateSubscriptionToken_inv hi.arrays).2 fun k task scan hta hsc => ?_
    refine (h.covered k task scan hta hsc).edit (hpr k task scan hta hsc) ?_
    intro i x' hx hlt
    obtain ⟨x, hold, hsa⟩ := updateSubscriptionToken_states hi.arrays hx
    exact .inr ⟨i, x, hold, hsa, .inl hlt⟩
  | registerIds id ids => exact ⟨h.covered, h.finished, h.past⟩

/-! ## 順序 -/

def Earlier (a b : Nat × Nat) : Prop := a.1 < b.1 ∨ (a.1 = b.1 ∧ a.2 < b.2)

def place (e : Emission) : Nat × Nat := (e.task, e.offset)

structure Sorted (filters : Filters) (visible : Nat → Nat → Nat → Bool) (w : Tenant) : Prop where
  settled : ∀ e ∈ w.log, ∀ k i, ¬ Earlier (place e) (k, i) → ¬ Upcoming filters visible w k i e.stateId
  ordered : w.log.Pairwise fun a b => a.stateId = b.stateId → Earlier (place a) (place b)

theorem mem_currentStates : state ∈ w.currentStates ↔ ∃ array, w.current = some array ∧ state ∈ w.states array := by
  unfold currentStates
  cases w.current with
  | none | some array => simp

theorem Upcoming.edited (ha : Arrays w) (he : Edited w w') (hid : id ≤ w.subscriptionCounter)
    (h : Upcoming filters visible w' k i id) : Upcoming filters visible w k i id := by
  obtain ⟨hvi, task, hta, hcas⟩ := h
  rw [he.tasks] at hta
  refine ⟨hvi, task, hta, ?_⟩
  rcases hcas with ⟨scan, hsc, hof, hst⟩ | ⟨hpo, change, hch, state', hmem, hstI, hma⟩
  · refine .inl ⟨scan, hsc, hof, ?_⟩
    rcases hst with hche | ⟨j, x', hj, hx, hxid, hma⟩
    · exact .inl hche
    · rcases he.edit _ j x' hx with hnew | ⟨j', x, hjj, hx, hsa⟩
      · omega
      · exact .inr ⟨j', x, hj.trans hjj, hx, hsa.1.trans hxid, hsa.matches_eq.trans hma⟩
  · refine .inr ⟨hpo, change, hch, ?_⟩
    obtain ⟨array, _, hmem⟩ := mem_currentStates.mp hmem
    obtain ⟨j, hx⟩ := mem_iff_getElem?.mp hmem
    rcases he.edit array j state' hx with hnew | ⟨_, x, _, hx, hsa⟩
    · omega
    · have hxm := mem_of_getElem? hx
      have hcu := ha.current array (ne_nil_of_mem hxm)
      exact ⟨x, mem_currentStates.mpr ⟨array, hcu, hxm⟩, hsa.1.trans hstI, hsa.matches_eq.trans hma⟩

theorem upcoming_resume (hold : ∃ old, w.tasks[k]? = some old)
    (h : Upcoming filters visible (resume filters w k task work next checked) k i id) : visible k i id = true ∧
      ((work.offset = i ∧ ∃ j state, next ≤ j ∧ (w.states work.array)[j]? = some state ∧ state.id = id ∧
          state.matchesChange filters work.change = true) ∨
        (task.position ≤ i ∧ ∃ change, task.changes[i]? = some change ∧ ∃ state ∈ w.currentStates, state.id = id ∧
          state.matchesChange filters change = true)) := by
  obtain ⟨old, hold⟩ := hold
  obtain ⟨hvi, task', hta, hcas⟩ := h
  refine ⟨hvi, ?_⟩
  rcases resume_cases filters w k task work next checked with ⟨_, heq⟩ | ⟨i', state', hle, hst', hma', _, heq⟩
  · rw [heq] at hta hcas
    rw [show ({ w with tasks := w.tasks.set k { task with running := none }, finished := _ } : Tenant).tasks =
      w.tasks.set k { task with running := none } from rfl, getElem?_set_of hold, if_pos rfl] at hta
    cases hta
    rcases hcas with ⟨scan, hsc, _⟩ | hla
    · cases hsc
    · exact .inr hla
  · rw [heq] at hta hcas
    rw [show ({ w with tasks := w.tasks.set k { task with running := some ⟨work, i' + 1, checkOf filters w work.change state', checked⟩ } } :
      Tenant).tasks = w.tasks.set k { task with running := some ⟨work, i' + 1, checkOf filters w work.change state', checked⟩ } from rfl,
      getElem?_set_of hold, if_pos rfl] at hta
    cases hta
    rcases hcas with ⟨scan, hsc, hof, hst⟩ | hla
    · cases hsc
      refine .inl ⟨hof, ?_⟩
      rcases hst with hche | ⟨j, x, hj, hx, hrs⟩
      · exact ⟨i', state', hle, hst', hche, hma'⟩
      · exact ⟨j, x, by show next ≤ j; have : i' + 1 ≤ j := hj; omega, hx, hrs⟩
    · exact .inr hla

theorem upcoming_setTask {w'} (hne : j ≠ k) (htas : ∃ task, w'.tasks = w.tasks.set k task)
    (hsts : w'.arrays = w.arrays) (hcu : w'.current = w.current) (h : Upcoming filters visible w' j i id) :
    Upcoming filters visible w j i id := by
  obtain ⟨hvi, task', hta, hcas⟩ := h
  obtain ⟨task, htas⟩ := htas
  rw [htas, getElem?_set_ne (fun heq => hne heq.symm)] at hta
  have hsa : w'.states = w.states := by
    funext array
    rw [states, states, hsts]
  have hre : w'.currentStates = w.currentStates := by rw [currentStates, currentStates, hcu, hsa]
  rw [hsa, hre] at hcas
  exact ⟨hvi, task', hta, hcas⟩

theorem resume_frame (filters w k task work next checked) :
    (∃ task', (resume filters w k task work next checked).tasks = w.tasks.set k task') ∧
      (resume filters w k task work next checked).arrays = w.arrays ∧ (resume filters w k task work next checked).current = w.current ∧
      (resume filters w k task work next checked).log = w.log := by
  rcases resume_cases filters w k task work next checked with ⟨_, heq⟩ | ⟨_, _, _, _, _, _, heq⟩
  · rw [heq]
    exact ⟨⟨_, rfl⟩, rfl, rfl, rfl⟩
  · rw [heq]
    exact ⟨⟨_, rfl⟩, rfl, rfl, rfl⟩

theorem upcoming_filterAndEmit (hta : w.tasks[k]? = some task) (hidl : task.running = none)
    (hch : task.changes[task.position]? = some change) (h : Upcoming filters visible (filterAndEmit filters w k task change) j i id) :
    Upcoming filters visible w j i id := by
  rcases filterAndEmit_cases filters w k task change with ⟨_, heq⟩ | ⟨array, hcu, _, heq⟩
  · rw [heq] at h
    by_cases hj : j = k
    · subst hj
      obtain ⟨hvi, task', hta', hcas⟩ := h
      rw [show ({ w with tasks := w.tasks.set j { task with position := task.position + 1 } } : Tenant).tasks =
        w.tasks.set j { task with position := task.position + 1 } from rfl, getElem?_set_of hta, if_pos rfl] at hta'
      cases hta'
      refine ⟨hvi, task, hta, ?_⟩
      rcases hcas with ⟨scan, hsc, _⟩ | ⟨hpo, hla⟩
      · grind
      · exact .inr ⟨by have : task.position + 1 ≤ i := hpo; omega, hla⟩
    · have htas : ∃ task', ({ w with tasks := w.tasks.set k { task with position := task.position + 1 } } : Tenant).tasks =
          w.tasks.set k task' := ⟨_, rfl⟩
      exact upcoming_setTask hj htas rfl rfl h
  · rw [heq] at h
    by_cases hj : j = k
    · subst hj
      obtain ⟨hvi, hcas⟩ := upcoming_resume ⟨task, hta⟩ h
      refine ⟨hvi, task, hta, .inr ?_⟩
      rcases hcas with ⟨hof, _, state, _, hst, hid, hma⟩ | ⟨hpo, hla⟩
      · have hi : task.position = i := hof
        refine ⟨hi.le, change, by rw [← hi, hch], state, ?_, hid, hma⟩
        exact mem_currentStates.mpr ⟨array, hcu, mem_of_getElem? hst⟩
      · exact ⟨by have : task.position + 1 ≤ i := hpo; omega, hla⟩
    · obtain ⟨htas, hars, hcur, _⟩ := resume_frame filters w k { task with position := task.position + 1 }
        { offset := task.position, change, array, present := (w.states array).map (·.id) } 0 []
      exact upcoming_setTask hj htas hars hcur h

theorem upcoming_finishCheck (hi : Inv visible w) (hta : w.tasks[k]? = some task) (hsc : task.running = some scan)
    (h : Upcoming filters visible (finishCheck filters visible w k task scan) j i id) :
    Upcoming filters visible w j i id ∧ (j = k → i ≤ scan.work.offset → id ≠ scan.check.stateId) := by
  obtain ⟨w₁, hw₁, htas, hars, hcu⟩ : ∃ w₁, w₁ = (if visible k scan.work.offset scan.check.stateId then
      { w with log := w.log ++ [emission k scan] } else w) ∧ w₁.tasks = w.tasks ∧ w₁.arrays = w.arrays ∧ w₁.current = w.current := by
    refine ⟨_, rfl, ?_⟩
    split <;> exact ⟨rfl, rfl, rfl⟩
  have hsts : w₁.states = w.states := by
    funext array
    rw [states, states, hars]
  have hre : w₁.currentStates = w.currentStates := by rw [currentStates, currentStates, hcu, hsts]
  unfold finishCheck at h
  simp only [← hw₁] at h
  by_cases hj : j = k
  · subst hj
    have hok := hi.scans j task scan hta hsc
    obtain ⟨hvi, hcas⟩ := upcoming_resume ⟨task, by rw [htas]; exact hta⟩ h
    rw [hsts, hre] at hcas
    refine ⟨⟨hvi, task, hta, ?_⟩, ?_⟩
    · grind
    · rintro _ hle rfl
      rcases hcas with ⟨_, n, state, hn, hst, hid, _⟩ | ⟨hpo, _⟩
      · exact hok.place.fresh n state hst hn (by rw [hid]; exact mem_append_right _ mem_cons_self)
      · have := hok.offset
        omega
  · obtain ⟨⟨task', hta'⟩, harr, hcur, _⟩ := resume_frame filters w₁ k task scan.work scan.next (scan.checked ++ [scan.check.stateId])
    refine ⟨?_, fun heq => absurd heq hj⟩
    exact upcoming_setTask hj ⟨task', by rw [hta', htas]⟩ (harr.trans hars) (hcur.trans hcu) h

theorem Sorted.mono (h : Sorted filters visible w) (hlog : w'.log = w.log)
    (hup : ∀ e ∈ w.log, ∀ k i, ¬ Earlier (place e) (k, i) → Upcoming filters visible w' k i e.stateId → Upcoming filters visible w k i e.stateId) :
    Sorted filters visible w' := by
  refine ⟨?_, hlog ▸ h.ordered⟩
  intro e he k i hnot hnew
  rw [hlog] at he
  exact h.settled e he k i hnot (hup e he k i hnot hnew)

theorem finishCheck_sorted (hi : Inv visible w) (h : Sorted filters visible w) (hta : w.tasks[k]? = some task) (hsc : task.running = some scan)
    (htu : visible k scan.work.offset scan.check.stateId = true → ∀ k' < k, ∀ i, ¬ Upcoming filters visible w k' i scan.check.stateId) :
    Sorted filters visible (finishCheck filters visible w k task scan) := by
  have hlog : (finishCheck filters visible w k task scan).log =
      if visible k scan.work.offset scan.check.stateId then w.log ++ [emission k scan] else w.log := by
    unfold finishCheck
    rw [(resume_frame _ _ _ _ _ _ _).2.2.2]
    split <;> rfl
  by_cases hvi : visible k scan.work.offset scan.check.stateId = true
  · rw [if_pos hvi] at hlog
    have hnow : Upcoming filters visible w k scan.work.offset scan.check.stateId :=
      ⟨hvi, task, hta, .inl ⟨scan, hsc, rfl, .inl rfl⟩⟩
    refine ⟨?_, ?_⟩
    · intro e he j i hnot hup
      obtain ⟨hold, hfr⟩ := upcoming_finishCheck hi hta hsc hup
      rw [hlog] at he
      rcases mem_append.mp he with he | he
      · exact h.settled e he j i hnot hold
      · cases mem_singleton.mp he
        have hle : ¬ Earlier (k, scan.work.offset) (j, i) := hnot
        simp only [Earlier, not_or, not_and, not_lt] at hle
        rcases Nat.lt_or_eq_of_le hle.1 with hlt | heq
        · exact htu hvi j hlt i hold
        · exact hfr heq (hle.2 heq.symm) rfl
    · rw [hlog, pairwise_append]
      refine ⟨h.ordered, pairwise_singleton _ _, ?_⟩
      intro a ha b hb hid
      cases mem_singleton.mp hb
      by_contra hnot
      exact h.settled a ha k scan.work.offset hnot (hid ▸ hnow)
  · rw [if_neg hvi] at hlog
    exact h.mono hlog fun e _ j i _ hup => (upcoming_finishCheck hi hta hsc hup).1

theorem step_sorted (hi : Inv visible w) (h : Sorted filters visible w) (e) (htu : InTurn filters visible w e) :
    Sorted filters visible (step filters visible w e) := by
  have hbo : ∀ e ∈ w.log, e.stateId ≤ w.subscriptionCounter := fun e he => (hi.logged.entries e he).2.1
  cases e with
  | deliver changes =>
    refine h.mono rfl fun e he k i hnot hup => ?_
    obtain ⟨_, _, known, hkn, _⟩ := hi.logged.entries e he
    have hlt := (List.getElem?_eq_some_iff.mp hkn).1
    have hle : k ≤ e.task := by
      simp only [Earlier, not_or, not_and, not_lt] at hnot
      exact hnot.1
    obtain ⟨hvi, task, hta, hcas⟩ := hup
    have htas : (w.tasks ++ [{ changes, position := 0, running := none }])[k]? = some task := hta
    rw [getElem?_append_left (by omega)] at htas
    exact ⟨hvi, task, htas, hcas⟩
  | start k =>
    rw [step]
    split
    · exact h
    · rename_i task hta
      split
      · rename_i change hidl hch
        refine h.mono ?_ fun e _ j i _ hup => upcoming_filterAndEmit hta hidl hch hup
        rcases filterAndEmit_cases filters w k task change with ⟨_, heq⟩ | ⟨array, _, _, heq⟩
        · rw [heq]
        · rw [heq]
          exact (resume_frame _ _ _ _ _ _ _).2.2.2
      · exact h
  | resolve k =>
    rw [step]
    split
    · exact h
    · rename_i task hta
      split
      · exact h
      · rename_i scan hsc
        exact finishCheck_sorted hi h hta hsc (htu task scan hta hsc)
  | subscribe skipped subscriptions token =>
    exact h.mono (subscribeTenant_inv hi.arrays).2.log fun e he k i _ hup => hup.edited hi.arrays (subscribeTenant_inv hi.arrays).2 (hbo e he)
  | unsubscribe id =>
    exact h.mono (unsubscribeSubscription_inv hi.arrays).2.log fun e he k i _ hup =>
      hup.edited hi.arrays (unsubscribeSubscription_inv hi.arrays).2 (hbo e he)
  | updateToken id token =>
    exact h.mono (updateSubscriptionToken_inv hi.arrays).2.log fun e he k i _ hup =>
      hup.edited hi.arrays (updateSubscriptionToken_inv hi.arrays).2 (hbo e he)
  | registerIds id ids => exact h.mono rfl fun e _ k i _ hup => hup

/-! ## 部分列 -/

theorem pairwise_zipIdx {α : Type} (l : List α) (n) : (l.zipIdx n).Pairwise fun a b => a.2 < b.2 := by
  induction l generalizing n with
  | nil => exact List.Pairwise.nil
  | cons a l ih =>
    rw [zipIdx_cons, pairwise_cons]
    refine ⟨fun b hb => ?_, ih (n + 1)⟩
    have := (mem_zipIdx hb).1
    show n < b.2
    omega

def spot (c : Nat × Nat × RealtimeChange) : Nat × Nat := (c.1, c.2.1)

theorem produced_ordered : (produced w).Pairwise fun a b => Earlier (spot a) (spot b) := by
  rw [produced, pairwise_flatMap]
  refine ⟨fun task _ => ?_, (pairwise_zipIdx w.tasks 0).imp fun {a b} hlt => ?_⟩
  · rw [pairwise_map]
    exact (pairwise_zipIdx task.1.changes 0).imp fun hlt => .inr ⟨rfl, hlt⟩
  · intro x hx y hy
    obtain ⟨_, _, rfl⟩ := mem_map.mp hx
    obtain ⟨_, _, rfl⟩ := mem_map.mp hy
    exact .inl hlt

theorem mem_produced {change} (hta : w.tasks[k]? = some task) (hch : task.changes[i]? = some change) : (k, i, change) ∈ produced w := by
  refine mem_flatMap.mpr ⟨(task, k), mem_zipIdx_iff_getElem?.mpr hta, ?_⟩
  exact mem_map.mpr ⟨(change, i), mem_zipIdx_iff_getElem?.mpr hch, rfl⟩

theorem emittedFor_sublist (hl : Logged w) (h : Sorted filters visible w) (id) : (emittedFor w id).Sublist (produced w) := by
  have hor : (emittedFor w id).Pairwise fun a b => Earlier (spot a) (spot b) := by
    rw [emittedFor, pairwise_map]
    refine (List.Pairwise.filter _ h.ordered).imp_of_mem fun {a b} ha hb hlt => ?_
    have hida : a.stateId = id := by simpa using (mem_filter.mp ha).2
    have hidb : b.stateId = id := by simpa using (mem_filter.mp hb).2
    exact hlt (hida.trans hidb.symm)
  have hasy : ∀ a b, Earlier a b → ¬ Earlier b a := by
    intro a b hab hba
    simp only [Earlier] at hab hba
    omega
  have hsu : emittedFor w id ⊆ produced w := by
    intro c hc
    obtain ⟨e, he, rfl⟩ := mem_map.mp hc
    obtain ⟨_, _, task, hta, _, hch⟩ := hl.entries e (mem_filter.mp he).1
    exact mem_produced hta hch
  have han : Std.Antisymm fun a b : Nat × Nat × RealtimeChange => Earlier (spot a) (spot b) :=
    ⟨fun a b hab hba => absurd hba (hasy _ _ hab)⟩
  have hnd : (emittedFor w id).Nodup := by
    refine hor.imp fun {a b} hab => ?_
    rintro rfl
    exact hasy _ _ hab hab
  exact sublist_of_subperm_of_pairwise (subperm_of_subset hnd hsu) hor produced_ordered

end Supacloud.RealtimeProxy
