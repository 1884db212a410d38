import Supacloud.Library.Table
import Supacloud.RealtimeProxy.Service

/-!
# 配信の不変条件

配列は、進行中の処理から見て、後ろに足されるか、抜かれて前に詰まるだけである。
-/

namespace Supacloud.RealtimeProxy

open Contracts (JsString)

open Library Tenant List

variable {filters : Filters} {visible : Nat → Nat → Nat → Bool} {w w' : Tenant} {k : Nat} {task : Task} {work : Work} {scan : Scan}
  {states states' : List SubscriptionState} {state : SubscriptionState} {next counter counter' i : Nat} {present seen checked : List Nat}
  {change : RealtimeChange} {array id : Nat}

/-! ## 配列の変化 -/

def SameState (a b : SubscriptionState) : Prop := a.id = b.id ∧ a.subscriptions = b.subscriptions

theorem SameState.matches_eq {a b} (h : SameState a b) : a.matchesChange filters change = b.matchesChange filters change := by
  simp [SubscriptionState.matchesChange, h.2]

def Edit (counter : Nat) (states states' : List SubscriptionState) : Prop :=
  ∀ (i : Nat) (x' : SubscriptionState), states'[i]? = some x' → counter < x'.id ∨ ∃ (j : Nat) (x : SubscriptionState), i ≤ j ∧ states[j]? = some x ∧ SameState x x'

def Distinct (states : List SubscriptionState) : Prop :=
  ∀ (i j : Nat) (x y : SubscriptionState), states[i]? = some x → states[j]? = some y → x.id = y.id → i = j

theorem Edit.refl : Edit counter states states := fun i x' hx => .inr ⟨i, x', le_refl i, hx, rfl, rfl⟩

theorem Edit.push (hnew : counter < state.id) : Edit counter states (states ++ [state]) := by
  intro i x' hx
  by_cases hi : i < states.length
  · rw [getElem?_append_left hi] at hx
    exact .inr ⟨i, x', le_refl i, hx, rfl, rfl⟩
  · grind

theorem Edit.erase : Edit counter states (states.eraseIdx i) := by
  intro j x' hx
  rw [getElem?_eraseIdx] at hx
  split at hx
  · exact .inr ⟨j, x', le_refl j, hx, rfl, rfl⟩
  · exact .inr ⟨j + 1, x', Nat.le_succ j, hx, rfl, rfl⟩

theorem sameState_withToken (id token x) : SameState x (x.withToken id token) := by
  unfold SubscriptionState.withToken
  split
  · exact ⟨rfl, rfl⟩
  · exact ⟨rfl, rfl⟩

theorem Edit.tokens (id token) : Edit counter states (states.map (.withToken id token)) := by
  intro i x' hx
  rw [getElem?_map, Option.map_eq_some_iff] at hx
  obtain ⟨x, hx, rfl⟩ := hx
  exact .inr ⟨i, x, le_refl i, hx, sameState_withToken id token x⟩

theorem Distinct.push (h : Distinct states) (hnew : ∀ x ∈ states, x.id < state.id) : Distinct (states ++ [state]) := by
  have hla : ∀ (i) x, (states ++ [state])[i]? = some x → (i < states.length ∧ states[i]? = some x) ∨ (i = states.length ∧ x = state) := by grind
  intro i j x y hx hy hid
  rcases hla i x hx with ⟨_, hold⟩ | ⟨hi, hlas⟩
  · rcases hla j y hy with ⟨_, hol'⟩ | ⟨_, hls⟩
    · exact h i j x y hold hol' hid
    · have hlt := hnew x (mem_of_getElem? hold)
      rw [hls] at hid
      omega
  · grind

theorem Distinct.erase (h : Distinct states) : Distinct (states.eraseIdx i) := by
  intro j j' x y hx hy hid
  rw [getElem?_eraseIdx] at hx hy
  split at hx <;> split at hy <;> have := h _ _ x y hx hy hid <;> omega

theorem Distinct.tokens (h : Distinct states) (id token) : Distinct (states.map (.withToken id token)) := by
  intro i j x' y' hx hy hid
  rw [getElem?_map, Option.map_eq_some_iff] at hx hy
  obtain ⟨x, hx, rfl⟩ := hx
  obtain ⟨y, hy, rfl⟩ := hy
  rw [← (sameState_withToken id token x).1, ← (sameState_withToken id token y).1] at hid
  exact h i j x y hx hy hid

/-! ## 処理の位置 -/

structure Place (states : List SubscriptionState) (counter next : Nat) (present seen : List Nat) : Prop where
  fresh : ∀ (i : Nat) (x : SubscriptionState), states[i]? = some x → next ≤ i → x.id ∉ seen
  nodup : seen.Nodup
  seen_le : ∀ id ∈ seen, id ≤ counter
  present_le : ∀ id ∈ present, id ≤ counter

theorem Place.edit (h : Place states counter next present seen) (hed : Edit counter states states') (hle : counter ≤ counter') :
    Place states' counter' next present seen := by
  refine ⟨?_, h.nodup, fun id hid => (h.seen_le id hid).trans hle, fun id hid => (h.present_le id hid).trans hle⟩
  intro i x' hx hi hmem
  rcases hed i x' hx with hnew | ⟨j, x, hij, hx, hsa⟩
  · exact absurd (h.seen_le x'.id hmem) (by omega)
  · exact h.fresh j x hx (hi.trans hij) (hsa.1 ▸ hmem)

theorem Place.advance (h : Place states counter next present checked) (hdi : Distinct states) (hle : next ≤ i)
    (hst : states[i]? = some state) (hbn : state.id ≤ counter) : Place states counter (i + 1) present (checked ++ [state.id]) := by
  have hnot : state.id ∉ checked := h.fresh i state hst hle
  refine ⟨?_, ?_, ?_, h.present_le⟩
  · intro j x hx hj hmem
    rcases mem_append.mp hmem with hmem | hmem
    · exact h.fresh j x hx (by omega) hmem
    · have hij := hdi j i x state hx hst (mem_singleton.mp hmem)
      omega
  · rw [nodup_append_comm, singleton_append, nodup_cons]
    exact ⟨hnot, h.nodup⟩
  · grind [→ h.seen_le]

def Covered (filters : Filters) (visible : Nat → Bool) (change : RealtimeChange) (states : List SubscriptionState) (next : Nat)
    (present seen : List Nat) : Prop :=
  ∀ (i : Nat) (x : SubscriptionState), states[i]? = some x → i < next → x.id ∈ present → x.matchesChange filters change = true → visible x.id = true → x.id ∈ seen

/-! ## 次の購読状態 -/

theorem nextMatch_some {rest} (h : nextMatch filters change next rest = some (i, state)) :
    next ≤ i ∧ rest[i - next]? = some state ∧ state.matchesChange filters change = true ∧
      ∀ j x, next ≤ j → j < i → rest[j - next]? = some x → x.matchesChange filters change = false := by
  induction rest generalizing next with
  | nil => cases h
  | cons head rest ih =>
    rw [nextMatch] at h
    by_cases hma : head.matchesChange filters change = true
    · grind
    · rw [if_neg hma] at h
      obtain ⟨hle, hget, hst, hsk⟩ := ih h
      refine ⟨by omega, ?_, hst, ?_⟩
      · rw [show i - next = (i - (next + 1)) + 1 by omega, getElem?_cons_succ]
        exact hget
      · intro j x hj hlt hx
        by_cases heq : j = next
        · subst heq
          rw [Nat.sub_self, getElem?_cons_zero] at hx
          cases hx
          simpa using hma
        · rw [show j - next = (j - (next + 1)) + 1 by omega, getElem?_cons_succ] at hx
          exact hsk j x (by omega) hlt hx

theorem nextMatch_none {rest} (h : nextMatch filters change next rest = none) : ∀ x ∈ rest, x.matchesChange filters change = false := by
  induction rest generalizing next with
  | nil => simp
  | cons head rest ih => grind [nextMatch]

def checkOf (filters : Filters) (w : Tenant) (change : RealtimeChange) (state : SubscriptionState) : Check :=
  { stateId := state.id, token := state.token, ids := matchingIds filters w.idMap change state.subscriptions, registered := w.isRegistered state.id }

theorem resume_cases (filters w k task work next checked) :
    ((∀ i x, (w.states work.array)[i]? = some x → next ≤ i → x.matchesChange filters work.change = false) ∧
      resume filters w k task work next checked = { w with
          tasks := w.tasks.set k { task with running := none }
          finished := w.finished ++ [{ task := k, offset := work.offset, change := work.change,
                                       kept := (w.states work.array).filter fun state => work.present.contains state.id }] }) ∨
    ∃ (i : Nat) (state : SubscriptionState), next ≤ i ∧ (w.states work.array)[i]? = some state ∧ state.matchesChange filters work.change = true ∧
      (∀ j x, next ≤ j → j < i → (w.states work.array)[j]? = some x → x.matchesChange filters work.change = false) ∧
      resume filters w k task work next checked =
        { w with tasks := w.tasks.set k { task with running := some ⟨work, i + 1, checkOf filters w work.change state, checked⟩ } } := by
  have hdr : ∀ j, next ≤ j → ((w.states work.array).drop next)[j - next]? = (w.states work.array)[j]? := by
    intro j hj
    rw [getElem?_drop, show next + (j - next) = j by omega]
  cases hnx : nextMatch filters work.change next ((w.states work.array).drop next) with
  | none => grind [resume, nextMatch_none]
  | some found =>
    obtain ⟨i, state⟩ := found
    obtain ⟨hle, hget, hma, hsk⟩ := nextMatch_some hnx
    right
    refine ⟨i, state, hle, (hdr i hle).symm.trans hget, hma, ?_, by simp [resume, hnx, checkOf]⟩
    intro j x hj hlt hx
    exact hsk j x hj hlt ((hdr j hj).trans hx)

/-! ## 不変条件 -/

structure Arrays (w : Tenant) : Prop where
  distinct : ∀ array, Distinct (w.states array)
  bounded : ∀ array, ∀ state ∈ w.states array, state.id ≤ w.subscriptionCounter
  current : ∀ array, w.states array ≠ [] → w.current = some array
  lt : ∀ array, w.current = some array → array < w.arrays.length

structure Logged (w : Tenant) : Prop where
  entries : ∀ e ∈ w.log, e.registered = true ∧ e.stateId ≤ w.subscriptionCounter ∧
    ∃ task, w.tasks[e.task]? = some task ∧ e.offset < task.position ∧ task.changes[e.offset]? = some e.event.data
  atMostOnce : ∀ k i id, w.emittedTo k i id ≤ 1

abbrev Tenant.Others (w : Tenant) (k : Nat) (P : Nat → Task → Scan → Prop) : Prop :=
  ∀ (j : Nat) (task' : Task) (scan' : Scan), j ≠ k → w.tasks[j]? = some task' → task'.running = some scan' → P j task' scan'

structure ScanOk (visible : Nat → Nat → Nat → Bool) (w : Tenant) (k : Nat) (task : Task) (scan : Scan) : Prop where
  array_lt : scan.work.array < w.arrays.length
  offset : scan.work.offset + 1 = task.position
  change : task.changes[scan.work.offset]? = some scan.work.change
  place : Place (w.states scan.work.array) w.subscriptionCounter scan.next scan.work.present (scan.checked ++ [scan.check.stateId])
  registered : scan.check.registered = true
  emitted : ∀ id, w.emittedTo k scan.work.offset id = if id ∈ scan.checked ∧ visible k scan.work.offset id = true then 1 else 0

structure Inv (visible : Nat → Nat → Nat → Bool) (w : Tenant) : Prop where
  arrays : Arrays w
  logged : Logged w
  scans : ∀ (k : Nat) (task : Task) (scan : Scan), w.tasks[k]? = some task → task.running = some scan → ScanOk visible w k task scan

theorem inv_empty (projectRef) : Inv visible (.empty projectRef) := by
  refine ⟨⟨?_, ?_, ?_, ?_⟩, ⟨?_, ?_⟩, ?_⟩
  · intro array i j x y hx
    simp [empty, states] at hx
  · intro array state hst
    simp [empty, states] at hst
  · intro array hne
    simp [empty, states] at hne
  · intro array h
    cases h
  · intro e he
    cases he
  · intro k i id
    simp [empty, emittedTo]
  · intro k task scan h
    cases h

theorem Tenant.currentStates_eq (h : w.current = some array) : w.currentStates = w.states array := by
  rw [currentStates, h]
  rfl

theorem isRegistered_iff : w.isRegistered id = true ↔ ∃ state ∈ w.currentStates, state.id = id := by
  simp [isRegistered]

theorem Arrays.registered (h : Arrays w) (hst : state ∈ w.states array) : w.isRegistered state.id = true := by
  have hcu := h.current array (ne_nil_of_mem hst)
  rw [isRegistered_iff, currentStates_eq hcu]
  exact ⟨state, hst, rfl⟩

/-! ## 登録の呼び出し -/

structure Edited (w w' : Tenant) : Prop where
  tasks : w'.tasks = w.tasks
  log : w'.log = w.log
  finished : w'.finished = w.finished
  counter : w.subscriptionCounter ≤ w'.subscriptionCounter
  length : w.arrays.length ≤ w'.arrays.length
  edit : ∀ array, Edit w.subscriptionCounter (w.states array) (w'.states array)

theorem Inv.edited (h : Inv visible w) (he : Edited w w') (hars : Arrays w') : Inv visible w' := by
  refine ⟨hars, ⟨?_, ?_⟩, ?_⟩
  · grind [he.log, h.logged.entries, he.tasks, he.counter]
  · intro k i id
    simp only [emittedTo, he.log]
    exact h.logged.atMostOnce k i id
  · intro k task scan hta hsc
    rw [he.tasks] at hta
    have hok := h.scans k task scan hta hsc
    refine ⟨hok.array_lt.trans_le he.length, hok.offset, hok.change, hok.place.edit (he.edit _) he.counter, hok.registered, ?_⟩
    intro id
    simp only [emittedTo, he.log]
    exact hok.emitted id

theorem states_set {array' states} (h : array < w.arrays.length) :
    ((w.arrays.set array states)[array']?).getD [] = if array = array' then states else w.states array' := by
  rw [getElem?_set]
  by_cases heq : array = array'
  · rw [if_pos heq, if_pos heq, if_pos h]
    rfl
  · rw [if_neg heq, if_neg heq]
    rfl

theorem states_append {array'} : ((w.arrays ++ [[state]])[array']?).getD [] = w.states array' ++ if array' = w.arrays.length then [state] else [] := by
  rcases Nat.lt_trichotomy array' w.arrays.length with hlt | heq | hgt
  · rw [getElem?_append_left hlt, if_neg (by omega), append_nil]
    rfl
  · simp [heq, states]
  · rw [if_neg (by omega), append_nil, states, getElem?_eq_none (by simp; omega), getElem?_eq_none (by omega)]

section

variable (h : Arrays w)

include h

theorem arrays_set (hcu : w.current = some array) (hdi : Distinct states)
    (hle : w.subscriptionCounter ≤ counter) (hbo : ∀ state ∈ states, state.id ≤ counter) (current)
    (hnx : states ≠ [] → current = some array) (hno : current = none ∨ current = some array) :
    Arrays { w with subscriptionCounter := counter, arrays := w.arrays.set array states, current } := by
  have hlt := h.lt array hcu
  have hsts : ∀ array', Tenant.states { w with subscriptionCounter := counter, arrays := w.arrays.set array states, current } array' =
      if array = array' then states else w.states array' := fun array' => states_set hlt
  refine ⟨?_, ?_, ?_, ?_⟩
  · intro array'
    rw [hsts]
    split
    · exact hdi
    · exact h.distinct array'
  · grind [→ h.bounded]
  · grind [h.current]
  · grind

theorem Arrays.empty_of_none (hcu : w.current = none) : w.states array = [] := by
  by_contra hne
  rw [h.current array hne] at hcu
  cases hcu

theorem arrays_append (hcu : w.current = none) (state) :
    Arrays { w with subscriptionCounter := state.id, arrays := w.arrays ++ [[state]], current := some w.arrays.length } := by
  have hsts : ∀ array, states
      { w with subscriptionCounter := state.id, arrays := w.arrays ++ [[state]], current := some w.arrays.length } array =
        if array = w.arrays.length then [state] else [] := by
    intro array
    have hap : ((w.arrays ++ [[state]])[array]?).getD [] = w.states array ++ if array = w.arrays.length then [state] else [] :=
      states_append
    rw [h.empty_of_none hcu, nil_append] at hap
    exact hap
  refine ⟨?_, ?_, ?_, ?_⟩
  · intro array i j x y hx hy _
    rw [hsts] at hx hy
    split at hx
    · grind
    · cases hx
  · intro array x hx
    rw [hsts] at hx
    split at hx
    · rw [mem_singleton.mp hx]
    · cases hx
  · intro array hne
    rw [hsts] at hne
    split at hne
    · rename_i heq
      rw [heq]
    · exact absurd rfl hne
  · intro array hcur
    cases hcur
    simp

theorem subscribeTenant_inv {skipped subscriptions token} :
    Arrays (subscribeTenant w skipped subscriptions token) ∧ Edited w (subscribeTenant w skipped subscriptions token) := by
  have hgr : w.subscriptionCounter < w.subscriptionCounter + skipped + 1 := by omega
  unfold subscribeTenant
  cases hcu : w.current with
  | none =>
    refine ⟨arrays_append h hcu _, rfl, rfl, rfl, hgr.le, by simp, ?_⟩
    intro array
    simp only [states, states_append]
    split
    · exact Edit.push hgr
    · rw [append_nil]
      exact Edit.refl
  | some array =>
    have hlt := h.lt array hcu
    have hnew : ∀ state ∈ w.states array, state.id < w.subscriptionCounter + skipped + 1 :=
      fun state hst => (h.bounded array state hst).trans_lt hgr
    refine ⟨arrays_set h hcu ((h.distinct array).push hnew) hgr.le ?_ (some array) (fun _ => rfl) (.inr rfl), ?_⟩
    · grind
    · refine ⟨rfl, rfl, rfl, hgr.le, by simp, ?_⟩
      intro array'
      simp only [states, states_set hlt]
      split
      · rename_i heq
        subst heq
        exact Edit.push hgr
      · exact Edit.refl

theorem unsubscribeSubscription_inv : Arrays (unsubscribeSubscription w id) ∧ Edited w (unsubscribeSubscription w id) := by
  unfold unsubscribeSubscription
  cases hcu : w.current with
  | none => exact ⟨h, rfl, rfl, rfl, le_refl _, le_refl _, fun _ => Edit.refl⟩
  | some array =>
    have hlt := h.lt array hcu
    refine ⟨arrays_set h hcu (h.distinct array).erase (le_refl _) ?_ _ ?_ ?_, ⟨rfl, rfl, rfl, le_refl _, by simp, ?_⟩⟩
    · exact fun state hst => h.bounded array state (mem_of_mem_eraseIdx hst)
    · intro hne
      rw [if_neg hne]
    · split
      · exact .inl rfl
      · exact .inr rfl
    · intro array'
      simp only [states, states_set hlt]
      split
      · rename_i heq
        subst heq
        exact Edit.erase
      · exact Edit.refl

theorem updateSubscriptionToken_inv {token} :
    Arrays (updateSubscriptionToken w id token) ∧ Edited w (updateSubscriptionToken w id token) := by
  unfold updateSubscriptionToken
  cases hcu : w.current with
  | none => exact ⟨h, rfl, rfl, rfl, le_refl _, le_refl _, fun _ => Edit.refl⟩
  | some array =>
    have hlt := h.lt array hcu
    refine ⟨?_, ⟨rfl, rfl, rfl, le_refl _, by simp, ?_⟩⟩
    · have hset := arrays_set h hcu ((h.distinct array).tokens id token) (le_refl _) ?_ (some array) (fun _ => rfl) (.inr rfl)
      · exact hset
      · intro state hst
        obtain ⟨x, hx, rfl⟩ := mem_map.mp hst
        rw [← (sameState_withToken id token x).1]
        exact h.bounded array x hx
    · intro array'
      simp only [states, states_set hlt]
      split
      · rename_i heq
        subst heq
        exact Edit.tokens id token
      · exact Edit.refl

end

/-! ## 処理の一歩 -/

theorem Logged.setTask {old finished} (h : Logged w) (hold : w.tasks[k]? = some old)
    (hchs : task.changes = old.changes) (hpo : old.position ≤ task.position) :
    Logged { w with tasks := w.tasks.set k task, finished } := by
  refine ⟨?_, h.atMostOnce⟩
  intro e he
  obtain ⟨hre, hid, found, hfo, hlt, hch⟩ := h.entries e he
  refine ⟨hre, hid, ?_⟩
  show ∃ found', (w.tasks.set k task)[e.task]? = some found' ∧ _
  rw [getElem?_set_of hold]
  by_cases hk : k = e.task
  · grind
  · rw [if_neg hk]
    exact ⟨found, hfo, hlt, hch⟩

theorem scans_setTask {old finished} (hold : w.tasks[k]? = some old)
    (hots : w.Others k (ScanOk visible w)) (hown : ∀ scan, task.running = some scan → ScanOk visible w k task scan) :
    ∀ (j) (task') (scan'), (w.tasks.set k task)[j]? = some task' → task'.running = some scan' →
      ScanOk visible { w with tasks := w.tasks.set k task, finished } j task' scan' := by
  intro j task' scan' hta hsc
  rw [getElem?_set_of hold] at hta
  have hok : ScanOk visible w j task' scan' := by grind
  exact { hok with }

structure Ready (visible : Nat → Nat → Nat → Bool) (w : Tenant) (k : Nat) (task : Task) (work : Work) (next : Nat) (checked : List Nat) :
    Prop where
  arrays : Arrays w
  logged : Logged w
  others : ∀ (j : Nat) (task' : Task) (scan' : Scan), j ≠ k → w.tasks[j]? = some task' → task'.running = some scan' →
    ScanOk visible w j task' scan'
  old : ∃ old, w.tasks[k]? = some old ∧ task.changes = old.changes ∧ old.position ≤ task.position
  array_lt : work.array < w.arrays.length
  offset : work.offset + 1 = task.position
  change : task.changes[work.offset]? = some work.change
  place : Place (w.states work.array) w.subscriptionCounter next work.present checked
  emitted : ∀ id, w.emittedTo k work.offset id = if id ∈ checked ∧ visible k work.offset id = true then 1 else 0

theorem Ready.resume (h : Ready visible w k task work next checked) : Inv visible (resume filters w k task work next checked) := by
  obtain ⟨old, hold, hchs, hpo⟩ := h.old
  rcases resume_cases filters w k task work next checked with ⟨_, heq⟩ | ⟨i, state, hle, hst, _, _, heq⟩
  · rw [heq]
    refine ⟨{ h.arrays with }, h.logged.setTask hold hchs hpo, ?_⟩
    exact scans_setTask hold h.others (fun scan hsc => nomatch hsc)
  · rw [heq]
    refine ⟨{ h.arrays with }, h.logged.setTask hold hchs hpo, ?_⟩
    refine scans_setTask hold h.others ?_
    intro scan hsc
    cases hsc
    have hmem := mem_of_getElem? hst
    refine ⟨h.array_lt, h.offset, h.change, ?_, h.arrays.registered hmem, h.emitted⟩
    exact h.place.advance (h.arrays.distinct _) hle hst (h.arrays.bounded _ state hmem)

theorem emittedTo_eq_zero {i} (h : Logged w) (hta : w.tasks[k]? = some task) (hi : task.position ≤ i) : w.emittedTo k i id = 0 := by
  rw [emittedTo, countP_eq_zero]
  intro e he heq
  simp only [Bool.and_eq_true, beq_iff_eq] at heq
  obtain ⟨_, _, found, hfo, hlt, _⟩ := h.entries e he
  rw [heq.1.1, hta] at hfo
  cases hfo
  omega

theorem filterAndEmit_cases (filters w k task change) : ((w.currentStates = []) ∧
      filterAndEmit filters w k task change = { w with tasks := w.tasks.set k { task with position := task.position + 1 } }) ∨
    ∃ array, w.current = some array ∧ w.states array ≠ [] ∧
      filterAndEmit filters w k task change = resume filters w k { task with position := task.position + 1 }
        { offset := task.position, change, array, present := (w.states array).map (·.id) } 0 [] := by
  unfold filterAndEmit
  split
  · rename_i hcu
    refine .inl ⟨?_, rfl⟩
    rw [currentStates, hcu]
    rfl
  · grind [currentStates_eq]

theorem Inv.startReady (h : Inv visible w) (hta : w.tasks[k]? = some task) (hcu : w.current = some array)
    (hch : task.changes[task.position]? = some change) : Ready visible w k { task with position := task.position + 1 }
      { offset := task.position, change, array, present := (w.states array).map (·.id) } 0 [] := by
  refine ⟨h.arrays, h.logged, fun j task' scan' _ => h.scans j task' scan', ⟨task, hta, rfl, Nat.le_succ _⟩, h.arrays.lt array hcu, rfl,
    hch, ?_, ?_⟩
  · refine ⟨fun _ _ _ _ hmem => (nomatch hmem), nodup_nil, fun _ hmem => (nomatch hmem), ?_⟩
    intro id hid
    obtain ⟨state, hst, rfl⟩ := mem_map.mp hid
    exact h.arrays.bounded array state hst
  · intro id
    rw [emittedTo_eq_zero h.logged hta (le_refl _), if_neg (fun hmem => nomatch hmem.1)]

theorem filterAndEmit_inv (h : Inv visible w) (hta : w.tasks[k]? = some task) (hidl : task.running = none)
    (hch : task.changes[task.position]? = some change) : Inv visible (filterAndEmit filters w k task change) := by
  have hots : w.Others k (ScanOk visible w) := fun j task' scan' _ => h.scans j task' scan'
  have hqu : Inv visible { w with tasks := w.tasks.set k { task with position := task.position + 1 } } := by
    refine ⟨{ h.arrays with }, h.logged.setTask hta rfl (Nat.le_succ _), ?_⟩
    refine scans_setTask hta hots fun scan hsc => ?_
    rw [show ({ task with position := task.position + 1 } : Task).running = task.running from rfl, hidl] at hsc
    cases hsc
  rcases filterAndEmit_cases filters w k task change with ⟨_, heq⟩ | ⟨array, hcu, _, heq⟩
  · rw [heq]
    exact hqu
  · rw [heq]
    exact (h.startReady hta hcu hch).resume

/-! ## 検査の終わり -/

theorem emittedTo_concat {e j i} :
    emittedTo { w with log := w.log ++ [e] } j i id = w.emittedTo j i id + if e.task = j ∧ e.offset = i ∧ e.stateId = id then 1 else 0 := by
  simp [emittedTo, countP_append, Bool.and_eq_true, beq_iff_eq, and_assoc]

section

variable (h : Inv visible w) (hta : w.tasks[k]? = some task) (hsc : task.running = some scan)

include h hta hsc

theorem Inv.ready :
    Ready visible (if visible k scan.work.offset scan.check.stateId then { w with log := w.log ++ [emission k scan] } else w) k task scan.work
      scan.next (scan.checked ++ [scan.check.stateId]) := by
  have hok := h.scans k task scan hta hsc
  have hots : w.Others k (ScanOk visible w) := fun j task' scan' _ => h.scans j task' scan'
  have hold : ∃ old, w.tasks[k]? = some old ∧ task.changes = old.changes ∧ old.position ≤ task.position := ⟨task, hta, rfl, le_refl _⟩
  by_cases hvi : visible k scan.work.offset scan.check.stateId = true
  · rw [if_pos hvi]
    have hnot : scan.check.stateId ∉ scan.checked := by
      have hnd := hok.place.nodup
      rw [nodup_append_comm, singleton_append, nodup_cons] at hnd
      exact hnd.1
    refine ⟨{ h.arrays with }, ⟨?_, ?_⟩, ?_, hold, hok.array_lt, hok.offset, hok.change,
      hok.place, ?_⟩
    · intro e he
      rcases mem_append.mp he with he | he
      · exact h.logged.entries e he
      · rw [mem_singleton.mp he]
        refine ⟨hok.registered, hok.place.seen_le _ (mem_append_right _ mem_cons_self), task, hta, ?_, hok.change⟩
        show scan.work.offset < task.position
        have := hok.offset
        omega
    · intro j i id
      rw [emittedTo_concat]
      split
      · grind [hok.emitted, emission]
      · exact h.logged.atMostOnce j i id
    · intro j task' scan' hne hta' hsc'
      have hot := hots j task' scan' hne hta' hsc'
      refine ⟨hot.array_lt, hot.offset, hot.change, hot.place, hot.registered, fun id => ?_⟩
      rw [emittedTo_concat, if_neg (fun heq => hne heq.1.symm), Nat.add_zero]
      exact hot.emitted id
    · grind [hok.emitted, emission, emittedTo_concat]
  · rw [if_neg hvi]
    refine ⟨h.arrays, h.logged, hots, hold, hok.array_lt, hok.offset, hok.change, hok.place, fun id => ?_⟩
    rw [hok.emitted id]
    by_cases hid : id = scan.check.stateId
    · rw [hid, if_neg (fun hmem => hvi hmem.2), if_neg (fun hmem => hvi hmem.2)]
    · simp [hid]

theorem finishCheck_inv : Inv visible (finishCheck filters visible w k task scan) :=
  (h.ready hta hsc).resume

end

theorem step_inv (h : Inv visible w) (e) : Inv visible (step filters visible w e) := by
  cases e with
  | deliver changes =>
    have htas : ∀ (j : Nat) (task), (w.tasks ++ [{ changes, position := 0, running := none }])[j]? = some task →
        w.tasks[j]? = some task ∨ task.running = none := by
      intro j task hta
      by_cases hj : j < w.tasks.length
      · rw [getElem?_append_left hj] at hta
        exact .inl hta
      · grind
    refine ⟨{ h.arrays with }, ⟨?_, h.logged.atMostOnce⟩, ?_⟩
    · intro e he
      obtain ⟨hre, hid, task, hta, hrs⟩ := h.logged.entries e he
      refine ⟨hre, hid, task, ?_, hrs⟩
      rw [← hta]
      exact List.getElem?_append_left (List.getElem?_eq_some_iff.mp hta).1
    · intro j task scan hta hsc
      rcases htas j task hta with hold | hidl
      · have hok := h.scans j task scan hold hsc
        exact { hok with }
      · rw [hidl] at hsc
        cases hsc
  | start k =>
    simp only [step]
    split
    next => exact h
    next task hta =>
      split
      next change hidl hch => exact filterAndEmit_inv h hta hidl hch
      next => exact h
  | resolve k =>
    simp only [step]
    split
    next => exact h
    next task hta =>
      split
      next => exact h
      next scan hsc => exact finishCheck_inv h hta hsc
  | subscribe skipped subscriptions token => exact h.edited (subscribeTenant_inv h.arrays).2 (subscribeTenant_inv h.arrays).1
  | unsubscribe id => exact h.edited (unsubscribeSubscription_inv h.arrays).2 (unsubscribeSubscription_inv h.arrays).1
  | updateToken id token => exact h.edited (updateSubscriptionToken_inv h.arrays).2 (updateSubscriptionToken_inv h.arrays).1
  | registerIds id ids =>
    refine ⟨{ h.arrays with }, ⟨h.logged.entries, h.logged.atMostOnce⟩, ?_⟩
    intro k task scan hta hsc
    have hok := h.scans k task scan hta hsc
    exact { hok with }

end Supacloud.RealtimeProxy
