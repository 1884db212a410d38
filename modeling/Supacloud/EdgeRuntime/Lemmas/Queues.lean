import Supacloud.EdgeRuntime.Pool

/-! # 待ち行列の写し -/

namespace Supacloud.EdgeRuntime

open Library Assoc MultiQueue

namespace Queues

def Shows (q : Queues) (m : MultiQueue ProjectRef Dispatch) : Prop :=
  q.queuedDispatches = m.queues ∧ q.queuedProjects = m.order ∧ q.queuedCount = m.count

variable {q : Queues} {m : MultiQueue ProjectRef Dispatch} {p : ProjectRef} {entry : Dispatch} {rest : List Dispatch}

theorem Shows.represented (h : q.Shows m) : q.Represented where
  count := by rw [h.1, h.2.2, m.count_eq, List.length_flatMap]
  projects := by
    rw [h.1, h.2.1]
    exact ⟨m.order_perm.nodup_iff.mpr m.keys_nodup, fun p => m.order_perm.mem_iff⟩
  nonempty := by
    rw [h.1]
    exact m.nonempty

theorem Shows.enqueueQueued (h : q.Shows m) : (q.enqueueQueued entry).Shows (m.push entry.projectRef entry) := by
  obtain ⟨hqu, hor, hco⟩ := h
  unfold push
  split <;> grind [Shows, Queues.enqueueQueued]

theorem shows_replace {order} {hk : p ∈ keys m.queues}
    {ho : order.Perm (if rest = [] then (keys m.queues).filter (fun x => x ≠ p) else keys m.queues)}
    (hqu : q.queuedDispatches = if rest = [] then erase p m.queues else put p rest m.queues)
    (hor : q.queuedProjects = order) (hco : q.queuedCount + (m.at p).length = m.count + rest.length) :
    q.Shows (m.replace p rest order hk ho) := by
  have hle : (m.at p).length ≤ m.count := by
    rw [m.count_eq, ← all, (all_perm p).length_eq, List.length_append]
    omega
  unfold replace Shows
  split <;> grind

theorem find_or_head {α : Type} {l : List α} {p : α → Bool} : l[(l.findIdx? p).getD 0]? = (l.find? p).or l.head? := by
  rw [List.find?_eq_bind_findIdx?_getElem?]
  cases hi : l.findIdx? p with
  | none => simp [List.head?_eq_getElem?]
  | some i =>
    obtain ⟨hlt, -⟩ := List.findIdx?_eq_some_iff_getElem.mp hi
    simp [hlt]

def Takes (q : Queues) (result : Except QueueError (Option Dispatch × Queues)) : Option (Dispatch × MultiQueue ProjectRef Dispatch) → Prop
  | none => result = .ok (none, q)
  | some (entry, m) => ∃ q', result = .ok (some entry, q') ∧ q'.Shows m

theorem Shows.shifted {order} (h : q.Shows m) (hat : m.at p = entry :: rest) {hk : p ∈ keys m.queues}
    {ho : order.Perm (if rest = [] then (keys m.queues).filter (fun x => x ≠ p) else keys m.queues)}
    (hor : order = if rest = [] then m.order.erase p else m.order.erase p ++ [p]) :
    (q.shifted p rest (m.order.erase p)).Shows (m.replace p rest order hk ho) := by
  obtain ⟨hqu, -, hco⟩ := h
  refine shows_replace (by rw [Queues.shifted, hqu]) hor.symm ?_
  simp only [Queues.shifted, hco, hat, List.length_cons]
  omega

theorem Shows.takes_popFor (h : q.Shows m) (hne : m.at p ≠ []) : ∃ entry rest, Assoc.get p q.queuedDispatches = some (entry :: rest) ∧
      q.Takes (.ok (some entry, q.shifted p rest (m.order.erase p))) (m.popFor p) := by
  obtain ⟨entry, rest, hat⟩ := List.exists_cons_of_ne_nil hne
  have hget := get_of_at hne
  rw [hat] at hget
  refine ⟨entry, rest, by rw [h.1, hget], ?_⟩
  unfold popFor
  split
  · rename_i entry' rest' hg
    rw [hget] at hg
    cases hg
    exact ⟨_, rfl, h.shifted hat rfl⟩
  · rename_i hno
    exact absurd hget (hno entry rest)

theorem Shows.dequeueQueued (h : q.Shows m) : q.Takes q.dequeueQueued (m.popNext q.lastDispatchedProjectRef) := by
  obtain ⟨hqu, hor, hco⟩ := h
  have hnext := find_or_head (l := m.order) (p := fun p => some p ≠ q.lastDispatchedProjectRef)
  unfold Queues.dequeueQueued MultiQueue.popNext
  rw [hor, hco, ← hnext]
  cases hi : m.order[(m.order.findIdx? fun p => some p ≠ q.lastDispatchedProjectRef).getD 0]? with
  | none =>
    have hemp : m.order = [] := List.head?_eq_none_iff.mp (Option.or_eq_none_iff.mp (hnext.symm.trans hi)).2
    have hz : m.count = 0 := count_eq_zero.mpr fun p => by
      simpa [hemp] using mem_order (q := m) (k := p)
    simp [hz, Takes]
  | some p =>
    have hne : m.at p ≠ [] := mem_order.mp (List.mem_of_getElem? hi)
    have hz : m.count ≠ 0 := fun hz => hne (count_eq_zero.mp hz p)
    obtain ⟨entry, rest, hget, hta⟩ := Shows.takes_popFor ⟨hqu, hor, hco⟩ hne
    have her : m.order.eraseIdx ((m.order.findIdx? fun p => some p ≠ q.lastDispatchedProjectRef).getD 0) = m.order.erase p := by
      obtain ⟨hlt, rfl⟩ := List.getElem?_eq_some_iff.mp hi
      exact ((m.order_perm.nodup_iff.mpr m.keys_nodup).erase_getElem ..).symm
    rw [if_neg (Int.natCast_ne_zero.mpr hz)]
    simpa only [hi, hget, her, Option.bind_eq_bind, Option.bind_some] using hta

theorem Shows.dequeueQueuedForWorker (h : q.Shows m) {o : Option ProjectRef} : q.Takes (q.dequeueQueuedForWorker o) (match o with
      | none => m.popNext q.lastDispatchedProjectRef
      | some p => m.popFor p) := by
  cases o with
  | none => exact h.dequeueQueued
  | some p =>
    by_cases hne : m.at p = []
    · have hget : Assoc.get p q.queuedDispatches = none := by
        rw [h.1, get_eq_none, MultiQueue.mem_keys_iff, not_not]
        exact hne
      simp [Queues.dequeueQueuedForWorker, hget, MultiQueue.popFor_eq_none.mpr hne, Takes]
    · obtain ⟨entry, rest, hget, hta⟩ := h.takes_popFor hne
      simpa [Queues.dequeueQueuedForWorker, hget, h.2.1] using hta

theorem Shows.invalidateQueuedProject (h : q.Shows m) : (q.invalidateQueuedProject p).Shows (m.drop p) := by
  obtain ⟨hqu, hor, hco⟩ := h
  unfold MultiQueue.drop
  split
  · rename_i hk
    have hget := MultiQueue.get_of_at (MultiQueue.mem_keys_iff.mp hk)
    refine shows_replace ?_ ?_ ?_ <;> simp [Queues.invalidateQueuedProject, *]
  · rename_i hk
    simpa [Queues.invalidateQueuedProject, hqu, get_eq_none.mpr hk] using ⟨hqu, hor, hco⟩

theorem Shows.cancelQueued (h : q.Shows m) {i : Nat} : (q.cancelQueued p i).Shows ((m.removeAt p i).elim m Prod.snd) := by
  obtain ⟨hqu, hor, hco⟩ := h
  unfold MultiQueue.removeAt
  split
  · rename_i hget
    simpa [Queues.cancelQueued, hqu, hget] using ⟨hqu, hor, hco⟩
  · rename_i l hget
    have hat : m.at p = l := by simp [MultiQueue.at, hget]
    split
    · rename_i hno
      have hle : l.length ≤ i := List.getElem?_eq_none_iff.mp hno
      simpa [Queues.cancelQueued, hqu, hget, hle] using ⟨hqu, hor, hco⟩
    · rename_i entry hsome
      have hlt : i < l.length := (List.getElem?_eq_some_iff.mp hsome).1
      simp only [Queues.cancelQueued, hqu, hget, Nat.not_le.mpr hlt, ↓reduceIte, Option.elim_some]
      refine shows_replace rfl (by rw [hor]) ?_
      rw [hat, List.length_eraseIdx_of_lt hlt]
      simp only
      omega

theorem Takes.shows {result : Except QueueError (Option Dispatch × Queues)} {taken : Option (Dispatch × MultiQueue ProjectRef Dispatch)}
    (h : q.Takes result taken) (hq : q.Shows m) : ∃ q' m', result.map Prod.snd = .ok q' ∧ q'.Shows m' := by
  cases taken with
  | none => exact ⟨q, m, by rw [h]; rfl, hq⟩
  | some taken =>
    obtain ⟨q', rfl, hq'⟩ := h
    exact ⟨q', taken.2, rfl, hq'⟩

theorem Shows.step {call} (h : q.Shows m) : ∃ q' m', q.step call = .ok q' ∧ q'.Shows m' := by
  cases call with
  | enqueueQueued entry => exact ⟨_, _, rfl, h.enqueueQueued⟩
  | dequeueQueued => exact h.dequeueQueued.shows h
  | dequeueQueuedForWorker o => exact h.dequeueQueuedForWorker.shows h
  | invalidateQueuedProject p => exact ⟨_, _, rfl, h.invalidateQueuedProject⟩
  | cancelQueued p i => exact ⟨_, _, rfl, h.cancelQueued⟩
  | clear => exact ⟨_, .empty, rfl, rfl, rfl, rfl⟩
  | dispatched p => exact ⟨_, m, rfl, h⟩

theorem Shows.run {calls : List Call} (h : q.Shows m) : ∃ q' m', calls.foldlM Queues.step q = .ok q' ∧ q'.Shows m' := by
  induction calls generalizing q m with
  | nil => exact ⟨q, m, rfl, h⟩
  | cons call calls ih =>
    obtain ⟨q', m', hst, hq'⟩ : ∃ q' m', q.step call = .ok q' ∧ q'.Shows m' := h.step
    rw [List.foldlM_cons, hst]
    exact ih hq'

end Queues

end Supacloud.EdgeRuntime
