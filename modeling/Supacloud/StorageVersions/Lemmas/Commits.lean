import Supacloud.StorageVersions.Lemmas.Rows

/-!
# 確定に失敗する取引

取引は、行を確定する前に保存先へ書く。
-/

namespace Supacloud.StorageVersions

open Library Function

variable {B : Bucket} {now : ℕ} {name : String} {r : Request} {w a b : World} {s : Commits} {ev : CommitEvent}
  {row : Option ObjectRow}

theorem Copies.files_place {current bytes} : (copiedWorld B name current bytes w).files (B.place name) = w.files (B.place name) :=
  update_of_ne place_ne_archivePlace _ _

theorem prepare_ok (h : prepare B now name r w = .ok b) :
    ∃ a row, Written B name r a row ∧ a.tables.objects = w.tables.objects ∧ a.files (B.place name) = w.files (B.place name) ∧
      b = putObject name row a := by
  obtain ⟨a, har, hwrt⟩ := bind_eq_ok h
  obtain ⟨row, hrow, rfl⟩ := writeObject_ok hwrt
  refine ⟨a, row, hrow, ?_, ?_, rfl⟩
  · rcases archiveCurrent_ok har with ⟨rfl, _⟩ | ⟨current, bytes, _, _, rfl⟩
    · rfl
    · rw [recordVersions_objects]; rfl
  · rcases archiveCurrent_ok har with ⟨rfl, _⟩ | ⟨current, bytes, _, _, rfl⟩
    · rfl
    · rw [recordVersions_files, Copies.files_place]

theorem prepare_error {e} (h : prepare B now name r w = .error (e, b)) : b.files (B.place name) = w.files (B.place name) := by
  rcases bind_eq_error h with har | ⟨a, har, hwrt⟩
  · grind [archiveCurrent_error, Copies.files_place]
  · cases writeObject_error hwrt
    rcases archiveCurrent_ok har with ⟨rfl, _⟩ | ⟨current, bytes, _, _, rfl⟩
    · rfl
    · rw [recordVersions_files, Copies.files_place]

def Commits.Idle (s : Commits) : Prop := s.holder = none ∧ s.compensations = []

/-- 行は、書いた依頼のメタデータを持ち、保存先はその依頼の中身を持つ。 -/
def Commits.Stored (B : Bucket) (name : String) (s : Commits) (row : ObjectRow) : Prop :=
  ∃ r, s.writer = some r ∧ row.metadata = r.metadata.stored ∧ s.world.files (B.place name) = some r.bytes

def Commits.Agrees (B : Bucket) (name : String) (s : Commits) : Prop :=
  ((s.world.files (B.place name)).isSome ↔ (s.world.tables.objects name).isSome) ∧
    ∀ row, s.world.tables.objects name = some row → s.Stored B name row

/-- 保存先へ書いた後に確定に失敗するのは、後始末のある取引だけである。書き込みの失敗は、元の中身を残す。後始末は成功し、そのとき確定した
行も、保存先に書き終えた取引もない。 -/
def Commits.Safe (B : Bucket) (name : String) (s : Commits) : CommitEvent → Prop
  | .acquire _ _ => True
  | .write left => ∀ h, s.holder = some h → h.written = false → h.request.outcomes.physical = false → left = s.world.files (B.place name)
  | .commit => True
  | .abort => ∀ h, s.holder = some h → h.written = true → h.request.compensated = true
  | .compensate i ok =>
    i < s.compensations.length → ok = true ∧ s.world.tables.objects name = none ∧ ∀ h, s.holder = some h → h.written = false

instance Commits.Safe.decidable (B : Bucket) (name : String) (s : Commits) : (ev : CommitEvent) → Decidable (s.Safe B name ev)
  | .acquire _ _ => isTrue trivial
  | .write left => inferInstanceAs (Decidable (∀ h ∈ s.holder, h.written = false → h.request.outcomes.physical = false →
      left = s.world.files (B.place name)))
  | .commit => isTrue trivial
  | .abort => inferInstanceAs (Decidable (∀ h ∈ s.holder, h.written = true → h.request.compensated = true))
  | .compensate i ok => inferInstanceAs (Decidable (i < s.compensations.length →
      ok = true ∧ s.world.tables.objects name = none ∧ ∀ h ∈ s.holder, h.written = false))

/-! ## 不変条件 -/

structure Holder.Pending (B : Bucket) (name : String) (h : Holder) (w : World) : Prop where
  absent : h.tables.objects name = none → h.request.action = .delete
  present : ∀ row, h.tables.objects name = some row → h.request.action ≠ .delete ∧ row.metadata = h.request.metadata.stored
  created : h.request.compensated = true → w.tables.objects name = none
  content : h.written = true → w.files (B.place name) = h.request.content

structure Commits.Inv (B : Bucket) (name : String) (s : Commits) : Prop where
  pending : ∀ h, s.holder = some h → h.Pending B name s.world
  present : (∀ h, s.holder = some h → h.written = false) → ∀ row, s.world.tables.objects name = some row → s.Stored B name row
  absent : (∀ h, s.holder = some h → h.written = false) → s.world.tables.objects name = none →
    s.world.files (B.place name) = none ∨ s.compensations ≠ []

theorem Commits.pending_of_free (h : s.holder = none) : ∀ h, s.holder = some h → h.Pending B name s.world := by
  intro holder hho
  rw [h] at hho
  cases hho

theorem Commits.Agrees.inv (h : s.Agrees B name) (hidl : s.Idle) : s.Inv B name where
  pending := Commits.pending_of_free hidl.1
  present := fun _ => h.2
  absent := fun _ hrow => by
    refine .inl (Option.not_isSome_iff_eq_none.mp fun hfi => ?_)
    have hso := h.1.mp hfi
    rw [hrow] at hso
    cases hso

theorem Commits.Inv.agrees (h : s.Inv B name) (hidl : s.Idle) : s.Agrees B name := by
  have hfr : ∀ h, s.holder = some h → h.written = false := fun h hho => by rw [hidl.1] at hho; cases hho
  refine ⟨⟨fun hfi => ?_, fun hrow => ?_⟩, h.present hfr⟩
  · cases hrow : s.world.tables.objects name with
    | some row => rfl
    | none =>
      rcases h.absent hfr hrow with hnn | hcos
      · rw [hnn] at hfi
        cases hfi
      · exact absurd hidl.2 hcos
  · obtain ⟨row, hrow⟩ := Option.isSome_iff_exists.mp hrow
    obtain ⟨r, _, _, hfi⟩ := h.present hfr row hrow
    rw [hfi]
    rfl

/-! ## 一歩 -/

namespace Commits

section

variable (h : s.Inv B name)

include h

theorem inv_acquire (now r) : (commitStep B name s (.acquire now r)).Inv B name := by
  unfold commitStep
  dsimp only
  split
  · exact h
  · rename_i hho
    have hfr : ∀ h, s.holder = some h → h.written = false := fun h hh => by rw [hho] at hh; cases hh
    split
    · rename_i b hpr
      obtain ⟨a, row, hrow, hobs, hfis, rfl⟩ := prepare_ok hpr
      have hfi : (putObject name row a).files (B.place name) = s.world.files (B.place name) := hfis
      refine ⟨?_, ?_, ?_⟩
      · rintro _ ⟨⟩
        refine ⟨fun hnn => ?_, fun stored hst => ?_, fun hco => ?_, nofun⟩
        · cases hrow with
          | deleted hac _ => exact hac
          | stored => simp [putObject] at hnn
        · cases hrow with
          | deleted => simp [putObject] at hst
          | stored hac hme _ _ =>
            simp only [putObject, update_self, Option.some.injEq] at hst
            subst hst
            exact ⟨hac, hme⟩
        · have hcr : r.action = .upload false := by simpa [Request.compensated] using hco
          cases hrow with
          | deleted hac _ => rw [hac] at hcr; cases hcr
          | stored _ _ _ hnn => exact (congrFun hobs name).symm.trans (hnn hcr)
      · intro _ stored hst
        obtain ⟨r', hwr, hme, hbys⟩ := h.present hfr stored hst
        exact ⟨r', hwr, hme, hfi.trans hbys⟩
      · intro _ hnn
        exact (h.absent hfr hnn).imp_left hfi.trans
    · rename_i e b hpr
      have hfi := prepare_error hpr
      refine ⟨pending_of_free hho, ?_, ?_⟩
      · intro _ stored hst
        obtain ⟨r', hwr, hme, hbys⟩ := h.present hfr stored hst
        exact ⟨r', hwr, hme, hfi.trans hbys⟩
      · intro _ hnn
        exact (h.absent hfr hnn).imp_left hfi.trans

theorem inv_write {left} (hsa : s.Safe B name (.write left)) : (commitStep B name s (.write left)).Inv B name := by
  unfold commitStep
  dsimp only
  split
  · exact h
  · rename_i holder hho
    have hpe := h.pending holder hho
    split
    · exact h
    · rename_i hunw
      have hunw : holder.written = false := by simpa using hunw
      have hfr : ∀ h, s.holder = some h → h.written = false := fun h' hh => by
        cases hho.symm.trans hh
        exact hunw
      split
      · rename_i b hph
        obtain ⟨_, rfl⟩ := physicalAction_ok hph
        refine ⟨?_, fun hno => absurd (hno _ rfl) nofun, fun hno => absurd (hno _ rfl) nofun⟩
        rintro _ ⟨⟩
        exact ⟨hpe.absent, hpe.present, hpe.created, fun _ => update_self ..⟩
      · rename_i e b hph
        obtain ⟨rfl, hfa⟩ := physicalAction_error hph
        -- 失敗した書き込みは、元の中身を残す
        cases hsa holder hho hunw hfa
        have hfi : update s.world.files (B.place name) (s.world.files (B.place name)) = s.world.files := update_eq_self ..
        refine ⟨pending_of_free rfl, fun _ stored hst => ?_, fun _ hnn => ?_⟩
        · obtain ⟨r', hwr, hme, hbys⟩ := h.present hfr stored hst
          exact ⟨r', hwr, hme, (congrFun hfi _).trans hbys⟩
        · exact (h.absent hfr hnn).imp_left (congrFun hfi _).trans

theorem inv_commit : (commitStep B name s .commit).Inv B name := by
  unfold commitStep
  dsimp only
  split
  · exact h
  · rename_i holder hho
    have hpe := h.pending holder hho
    split
    · rename_i hwri
      have hcn := hpe.content hwri
      refine ⟨pending_of_free rfl, fun _ stored hst => ?_, fun _ hnn => ?_⟩
      · obtain ⟨hac, hme⟩ := hpe.present stored hst
        have hwr : holder.request.writer = some holder.request := by
          unfold Request.writer
          split
          · exact absurd ‹_› hac
          · rfl
        have hbys : holder.request.content = some holder.request.bytes := by
          unfold Request.content
          split
          · exact absurd ‹_› hac
          · rfl
        exact ⟨holder.request, hwr, hme, hcn.trans hbys⟩
      · have hac := hpe.absent hnn
        exact .inl (hcn.trans (by simp [Request.content, hac]))
    · exact h

theorem inv_abort (hsa : s.Safe B name .abort) : (commitStep B name s .abort).Inv B name := by
  unfold commitStep
  dsimp only
  split
  · exact h
  · rename_i holder hho
    have hpe := h.pending holder hho
    cases hwri : holder.written with
    | false =>
      have hfr : ∀ h, s.holder = some h → h.written = false := fun h' hh => by
        cases hho.symm.trans hh
        exact hwri
      exact ⟨pending_of_free rfl, fun _ => h.present hfr, fun _ hnn => by simpa using h.absent hfr hnn⟩
    | true =>
      have hco := hsa holder hho hwri
      have hnn := hpe.created hco
      refine ⟨pending_of_free rfl, fun _ stored hst => ?_, fun _ _ => .inr (by simp [hco])⟩
      cases hnn.symm.trans hst

theorem inv_compensate {i ok} (hsa : s.Safe B name (.compensate i ok)) : (commitStep B name s (.compensate i ok)).Inv B name := by
  unfold commitStep
  dsimp only
  split
  · exact h
  · rename_i r hr
    obtain ⟨rfl, hnn, hfr⟩ := hsa (List.getElem?_eq_some_iff.mp hr).1
    have hfi : ((deleteFile true (B.place name) s.world.files).getD s.world.files) (B.place name) = none := by simp [deleteFile]
    refine ⟨fun holder hho => ?_, fun _ stored hst => ?_, fun _ _ => .inl hfi⟩
    · have hpe := h.pending holder hho
      exact ⟨hpe.absent, hpe.present, hpe.created, fun hw => by cases hw.symm.trans (hfr holder hho)⟩
    · cases hnn.symm.trans hst

theorem inv_step (hsa : s.Safe B name ev) : (commitStep B name s ev).Inv B name := by
  cases ev with
  | acquire now r => exact inv_acquire h now r
  | write left => exact inv_write h hsa
  | commit => exact inv_commit h
  | abort => exact inv_abort h hsa
  | compensate i ok => exact inv_compensate h hsa

theorem inv_run {es} (hsa : Along (commitStep B name) (Commits.Safe B name) s es) : (run (commitStep B name) s es).Inv B name :=
  hsa.invariant (fun _ _ hinv hsa => inv_step hinv hsa) h

end

end Commits

end Supacloud.StorageVersions
