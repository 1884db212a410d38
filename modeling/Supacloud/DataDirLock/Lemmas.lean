import Supacloud.DataDirLock.Lock

/-! # 錠のファイルと、それを作った呼び出し -/

namespace Supacloud.DataDirLock

open Library World

variable {w w' : World} {id id' : CallId} {call call' : Call} {pc : Pc} {file : FileId} {owner : DataDirLockOwner}

def Pc.owned : Pc → Option FileId
  | .writing file => some file
  | .abandoning file => some file
  | .held file => some file
  | .closing file => some file
  | .reading file => some file
  | .unlocking file => some file
  | _ => none

def World.Linked (w : World) : Prop :=
  ∀ id call file, w.running id = some call → call.pc.owned = some file →
    w.link = some file ∧ ∃ f, w.files[file]? = some f ∧ f.creator = some id

theorem running_iff : w.running id = some call ↔ w.calls[id]? = some call ∧ w.alive call.pid = true := by
  simp [running]

theorem running_eq (h : w.calls[id]? = some call) (hal : w.alive call.pid = true) : w.running id = some call := running_iff.mpr ⟨h, hal⟩

/-! ## 一歩で変わるもの -/

theorem running_goto (h : w.running id = some call) :
    (w.goto id call pc).running id' = if id = id' then some { call with pc } else w.running id' := by
  obtain ⟨hca, hal⟩ := running_iff.mp h
  simp only [running, goto]
  rw [getElem?_set_of hca]
  split
  · simp [hal]
  · rfl

theorem goto_cases (h : w.running id = some call) (hget : (w.goto id call pc).running id' = some call') :
    id = id' ∧ call'.pc = pc ∨ id ≠ id' ∧ w.running id' = some call' := by
  rw [running_goto h] at hget
  split at hget
  · rename_i hid
    cases hget
    exact Or.inl ⟨hid, rfl⟩
  · rename_i hid
    exact Or.inr ⟨hid, hget⟩

section

variable (hw : w.Linked) (h : w.running id = some call)

include hw h

theorem World.Linked.goto (hpc : pc.owned = none ∨ pc.owned = call.pc.owned) : (w.goto id call pc).Linked := by
  intro i c file hc hfi
  rcases goto_cases h hc with ⟨rfl, hpc'⟩ | ⟨-, hc⟩
  · rw [hpc'] at hfi
    rcases hpc with hno | hsa
    · rw [hno] at hfi
      cases hfi
    · exact hw id call file h (hsa ▸ hfi)
  · exact hw i c file hc hfi

theorem World.Linked.unique (h' : w.running id' = some call') {file'}
    (hfi : call.pc.owned = some file) (hfi' : call'.pc.owned = some file') : id = id' := by
  obtain ⟨hli, f, hf, hcr⟩ := hw id call file h hfi
  obtain ⟨hli', f', hf', hcr'⟩ := hw id' call' file' h' hfi'
  cases hli.symm.trans hli'
  cases hf.symm.trans hf'
  exact Option.some.inj (hcr.symm.trans hcr')

theorem World.Linked.unlink (hpc : pc.owned = none)
    (hown : call.pc.owned ≠ none ∨ w.linkedAlive = false) : ((w.unlink).goto id call pc).Linked := by
  intro i c file hc hfi
  have hru : w.unlink.running id = some call := h
  rcases goto_cases hru hc with ⟨rfl, hpc'⟩ | ⟨hne, hc⟩
  · rw [hpc', hpc] at hfi
    cases hfi
  · have hc' : w.running i = some c := hc
    rcases hown with hown | hde
    · obtain ⟨mine, hmi⟩ := Option.ne_none_iff_exists'.mp hown
      exact absurd (hw.unique h hc' hmi hfi) hne
    · obtain ⟨hli, f, hf, hcr⟩ := hw i c file hc' hfi
      have hal : w.linkedAlive = true := by simp [linkedAlive, current, hli, hf, hcr, hc']
      rw [hde] at hal
      cases hal

theorem World.Linked.create (attempt) : (w.create id call attempt).Linked := by
  unfold World.create
  split
  · exact hw.goto h (Or.inl rfl)
  · rename_i hli
    intro i c file hc hfi
    have hc' : (w.goto id call (.writing w.files.length)).running i = some c := hc
    rcases goto_cases h hc' with ⟨rfl, hpc⟩ | ⟨-, hc⟩
    · rw [hpc] at hfi
      cases hfi
      exact ⟨rfl, { creator := some id, contents := none }, List.getElem?_concat_length, rfl⟩
    · obtain ⟨hot, -⟩ := hw i c file hc hfi
      rw [hli] at hot
      cases hot

theorem World.Linked.write (hpc : call.pc = .writing file) : (w.write id call file).Linked := by
  intro i c file' hc hfi
  have hc' : (w.goto id call (.held file)).running i = some c := hc
  have hmi := hw id call file h (by rw [hpc]; rfl)
  obtain ⟨hli, f, hf, -⟩ := hmi
  rcases goto_cases h hc' with ⟨rfl, hpc'⟩ | ⟨hne, hc⟩
  · rw [hpc'] at hfi
    cases hfi
    refine ⟨hli, { creator := some id, contents := call.nonce.map fun nonce => { pid := call.pid, nonce } }, ?_, rfl⟩
    simp only [World.write]
    rw [getElem?_set_of hf, if_pos rfl]
  · exact absurd (hw.unique h hc (by rw [hpc]; rfl) hfi) hne

end

theorem owned_resume (caller : Caller) (state) : (caller.resume state).owned = none := by
  cases caller <;> cases state <;> simp only [Caller.resume] <;> (try split) <;> rfl

theorem World.Linked.proceed {ok} (hw : w.Linked) (h : w.running id = some call)
    (hres : ∀ caller owner, call.pc = .removing caller owner → ok = true → w.linkedAlive = false) : (w.proceed id call ok).Linked := by
  unfold World.proceed
  split
  · split
    · exact hw.create h _
    · exact hw.goto h (Or.inl rfl)
  · rename_i hpc
    split
    · exact hw.write h hpc
    · exact hw.goto h (Or.inr (by rw [hpc]; rfl))
  · grind [hw.unlink, hw.goto, Pc.owned]
  · split
    · split
      · exact hw.goto h (Or.inl rfl)
      · exact hw.goto h (Or.inl (owned_resume _ _))
    · exact hw.goto h (Or.inl (owned_resume _ _))
  · exact hw.goto h (Or.inl (owned_resume _ _))
  · rename_i caller owner hpc
    split
    · rename_i hok
      exact hw.unlink h (owned_resume _ _) (Or.inr (hres caller owner hpc hok))
    · exact hw.goto h (Or.inl rfl)
  · exact hw
  · rename_i hpc
    split
    · exact hw.goto h (Or.inr (by rw [hpc]; rfl))
    · exact hw.goto h (Or.inl rfl)
  · rename_i hpc
    split
    · unfold readOwn
      split
      · split
        · exact hw.goto h (Or.inr (by rw [hpc]; rfl))
        · exact hw.goto h (Or.inl rfl)
      · exact hw.goto h (Or.inl rfl)
    · exact hw.goto h (Or.inl rfl)
  · grind [hw.unlink, hw.goto, Pc.owned]
  · exact hw
  · exact hw

theorem World.Linked.begin_ (hw : w.Linked) {pid nonce} (hpc : pc.owned = none) : (w.begin_ pid nonce pc).Linked := by
  unfold World.begin_
  split
  · intro i c file hc hfi
    obtain ⟨hget, hal⟩ := running_iff.mp hc
    rw [List.getElem?_append] at hget
    split at hget
    · exact hw i c file (running_eq hget hal) hfi
    · obtain ⟨_, rfl⟩ := List.getElem?_eq_some_iff.mp hget
      simp [hpc] at hfi
  · exact hw

theorem World.Linked.step {e} (hw : w.Linked) (hres : w.RemovesDead e) : (step w e).Linked := by
  cases e with
  | acquireDataDirLock pid nonce | assertDataDirUnlocked pid => exact hw.begin_ rfl
  | release id =>
    simp only [DataDirLock.step]
    cases h : w.running id with
    | none => exact hw
    | some call =>
      simp only [Option.elim_some, release]
      split
      · rename_i hpc
        exact hw.goto h (Or.inr (by rw [hpc]; rfl))
      · exact hw
  | proceed id ok =>
    simp only [DataDirLock.step]
    cases h : w.running id with
    | none => exact hw
    | some call =>
      refine hw.proceed h fun caller owner hpc hok => hres ?_
      simp [removal, hok, h, hpc]
  | crash pid =>
    intro i c file hc hfi
    obtain ⟨hget, hal⟩ := running_iff.mp hc
    refine hw i c file (running_eq hget ?_) hfi
    simp only [DataDirLock.step, Function.update_apply] at hal
    split at hal
    · cases hal
    · exact hal

theorem linked_start {alive found} : (start alive found).Linked := by
  intro id call file h
  simp [running, start] at h

theorem World.Linked.exclusive (hw : w.Linked) : w.Exclusive := by
  rintro id id' ⟨call, file, h, hpc⟩ ⟨call', file', h', hpc'⟩
  exact hw.unique h h' (by rw [hpc]; rfl) (by rw [hpc']; rfl)

end Supacloud.DataDirLock
