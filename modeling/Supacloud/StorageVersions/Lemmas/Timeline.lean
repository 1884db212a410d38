import Supacloud.StorageVersions.Lemmas.Rows

/-! # 版の時刻と置き換わった順 -/

namespace Supacloud.StorageVersions

open Library Function List

variable {B : Bucket} {now : ℕ} {name : String} {r : Request} {w w' : World} {u v m : VersionRow} {s : Timeline}
  {e : TimelineEvent} {es : List TimelineEvent} {current : ObjectRow} {bytes : Bytes} {versions : List VersionRow}

/-! ## 一つの処理が足す行 -/

theorem versions_settled (hso : Sound B w) (hse : Settled B now name r w w') (hv : v ∈ w'.tables.versions) : v ∈ w.tables.versions ∨
      ∃ current bytes, Copies B name r w current bytes ∧ r.passes = true ∧ v ∈ recorded B now name r.action current w.issued := by
  cases hse with
  | rejected htas _ _ _ | leftover htas _ _ _ _ _ _ => exact .inl (htas ▸ hv)
  | plain row _ _ => exact .inl hv
  | archived current bytes row a ha hcos hpas _ =>
    have hfr : CurrentFresh B (copiedWorld B name current bytes w) name := hso.fresh name
    have hv' : v ∈ a.tables.versions := hv
    rw [ha, recordVersions_versions hfr hcos.current, mem_append] at hv'
    exact hv'.imp_right fun hnew => ⟨current, bytes, hcos, hpas, hnew⟩

theorem archived_settled (hso : Sound B w) (hse : Settled B now name r w w') (hcos : Copies B name r w current bytes) (hpas : r.passes = true) :
    w'.tables.versions = w.tables.versions ++ recorded B now name r.action current w.issued ∧
      w'.files (B.archivePlace name current.version) = some bytes := by
  cases hse with
  | rejected _ _ _ hno => exact absurd hcos (hno current bytes)
  | leftover _ _ _ _ _ hfa _ => exact absurd (hfa.symm.trans hpas) nofun
  | plain _ hhi _ => exact absurd hcos (not_copies_of hhi bytes)
  | archived current' bytes' row a ha hco' _ _ =>
    cases hco'.current.symm.trans hcos.current
    cases hco'.bytes.symm.trans hcos.bytes
    have hfr : CurrentFresh B (copiedWorld B name current bytes w) name := hso.fresh name
    have hves := @recordVersions_versions B now name current _ hfr hcos.current r.action
    refine ⟨by rw [← ha] at hves; exact hves, (update_of_ne (fun heq => place_ne_archivePlace heq.symm) ..).trans ?_⟩
    rw [ha, recordVersions_files]
    exact update_self ..

theorem issued_settled (hse : Settled B now name r w w') : w.issued ≤ w'.issued := by
  cases hse with
  | rejected _ his _ _ | leftover _ his _ _ _ _ _ => exact his
  | plain row _ _ => exact Nat.le_succ _
  | archived current bytes row a ha _ _ _ =>
    refine Nat.le_succ_of_le ?_
    rw [ha]
    exact Nat.le_of_lt (recordVersions_issued (w := copiedWorld B name current bytes w))

theorem not_issued_of_mem_recorded {action} (h : v ∈ recorded B now name action current w.issued) : ¬ Issued B w.issued v.id := by
  intro his
  rcases mem_recorded h with rfl | ⟨_, rfl⟩
  · exact his.ne (Nat.le_refl _) rfl
  · exact his.ne (Nat.le_succ _) rfl

/-! ## 名前が空いている間 -/

structure Untouched (B : Bucket) (name : String) (w w' : World) : Prop where
  rows : ∀ u ∈ w'.tables.versions, u.name = name → u ∈ w.tables.versions
  files : ∀ u ∈ w'.tables.versions, u.name = name → w'.files (B.archivePlace u.name u.versionId) = w.files (B.archivePlace u.name u.versionId)

theorem Untouched.refl : Untouched B name w w := ⟨fun _ hu _ => hu, fun _ _ _ => rfl⟩

theorem Untouched.trans {w''} (h : Untouched B name w w') (h' : Untouched B name w' w'') : Untouched B name w w'' where
  rows := fun u hu hna => h.rows u (h'.rows u hu hna) hna
  files := fun u hu hna => (h'.files u hu hna).trans (h.files u (h'.rows u hu hna) hna)

theorem copiedWorld_files_of_ne (hso : Sound B w) {other} (hcu : w.tables.objects other = some current) (hu : u ∈ w.tables.versions)
    (hne : u.name ≠ other) : (copiedWorld B other current bytes w).files (B.archivePlace u.name u.versionId) = w.files (B.archivePlace u.name u.versionId) := by
  refine update_of_ne (fun hpl => ?_) ..
  exact hne (archivePlace_inj (hso.issued u hu).2.plain (hso.fresh other current hcu).1.plain hpl).1

theorem untouched_settled (hso : Sound B w) {other} (hse : Settled B now other r w w') (hab : w.tables.objects name = none) : Untouched B name w w' := by
  cases hse with
  | rejected htas _ hfis _ => exact ⟨fun u hu _ => htas ▸ hu, fun u _ _ => by rw [hfis]⟩
  | leftover htas _ current bytes hcos _ hfis =>
    refine ⟨fun u hu _ => htas ▸ hu, fun u hu hna => ?_⟩
    rw [htas] at hu
    rw [hfis]
    refine copiedWorld_files_of_ne hso hcos.current hu fun hot => ?_
    rw [← hna, hot, hcos.current] at hab
    cases hab
  | plain row _ hrow =>
    exact ⟨fun u hu _ => hu, fun u _ _ => update_of_ne (fun heq => place_ne_archivePlace heq.symm) ..⟩
  | archived current bytes row a ha hcos _ _ =>
    have hot : name ≠ other := fun hna => by
      rw [hna, hcos.current] at hab
      cases hab
    have hfr : CurrentFresh B (copiedWorld B other current bytes w) other := hso.fresh other
    have hro : ∀ u ∈ a.tables.versions, u.name = name → u ∈ w.tables.versions := fun u hu hna => by
      rw [ha, recordVersions_versions hfr hcos.current, mem_append] at hu
      rcases hu with hu | hu
      · exact hu
      · exact absurd (hna.symm.trans (name_of_mem_recorded hu)) hot
    refine ⟨hro, fun u hu hna => (update_of_ne (fun heq => place_ne_archivePlace heq.symm) ..).trans ?_⟩
    rw [ha, recordVersions_files]
    exact copiedWorld_files_of_ne hso hcos.current (hro u hu hna) (hna ▸ hot)

theorem Trims.untouched (hso : Sound B w) (h : Trims B w w') : Untouched B name w w' := by
  refine ⟨fun u hu _ => h.sublist.subset hu, fun u hu _ => ?_⟩
  induction h with
  | refl => rfl
  | marker htrs v hv _ ih => exact ih (mem_dropVersion.mp hu).1
  | @version a htrs v hv _ ih =>
    have hro := (hso.trims htrs).toRows
    obtain ⟨hmem, hid⟩ := mem_dropVersion.mp hu
    have hpl : B.archivePlace u.name u.versionId ≠ B.archivePlace v.name v.versionId := fun hpl =>
      hid (congrArg VersionRow.id (hro.archivePlace_inj hmem hv hpl))
    exact (update_of_ne hpl ..).trans (ih hmem)

theorem untouched_restored {marker} : Untouched B name w (restoredWorld B now marker v bytes w) :=
  ⟨fun _ hu _ => (mem_restoredWorld.mp hu).1.1, fun _ _ _ => update_of_ne (fun heq => place_ne_archivePlace heq.symm) ..⟩

theorem perform_untouched (hso : Sound B w) (hab : w.tables.objects name = none) (op) : Untouched B name w (perform B w op) := by
  cases op with
  | write now other r => exact untouched_settled hso (authorizeAction_settled B now other r w) hab
  | deleteVersion now other versionId o =>
    rcases deleteExactVersion_cases B now other versionId o w with ⟨htrs, _⟩ | ⟨marker, v, bytes, _, heq⟩
    · exact htrs.untouched hso
    · simp only [perform, heq]
      exact untouched_restored
  | cleanup now rules o => exact (cleanupRules_trims hso.toRows).untouched hso
  | purge deleted => exact (purgeRows_trims deleted hso.toRows hso.ids (fun _ hv => hv) 0).untouched hso

/-- 版を残すとき、取引の時刻は前に残した版より新しい。削除では、前の印も、読むときの新しい印の時刻を超えない。 -/
def Timely (now : ℕ) (action : Action) (v : VersionRow) : Prop :=
  if v.isDeleteMarker then action = .delete → v.archivedAt ≤ toIsoTimestamp (now + 1000) else v.archivedAt < now

instance Timely.decidable (now : ℕ) (action : Action) (v : VersionRow) : Decidable (Timely now action v) :=
  inferInstanceAs (Decidable (if v.isDeleteMarker then action = .delete → v.archivedAt ≤ toIsoTimestamp (now + 1000) else v.archivedAt < now))

def InOrder (B : Bucket) (name : String) (s : Timeline) : TimelineEvent → Prop
  | .acquire i => ∀ now r current bytes, s.waiting[i]? = some (now, .write name r) → Copies B name r s.world current bytes → r.passes = true →
      ∀ v ∈ s.world.tables.versions, v.name = name → Timely now r.action v
  | _ => True

/-! ## 一歩 -/

theorem timelineStep_world (B s e) : (timelineStep B s e).world = s.world ∨
      ∃ i now c, e = .acquire i ∧ s.waiting[i]? = some (now, c) ∧ (timelineStep B s e).world = perform B s.world (c.operation now) := by
  cases e with
  | tick d | start c => exact .inl rfl
  | acquire i => grind [timelineStep]

theorem Sound.timelineStep (h : Sound B s.world) (e) : Sound B (timelineStep B s e).world := by
  rcases timelineStep_world B s e with heq | ⟨_, _, c, _, _, heq⟩
  · rw [heq]
    exact h
  · rw [heq]
    exact h.perform _

theorem Sound.timeline (h : Sound B s.world) (es) : Sound B (run (StorageVersions.timelineStep B) s es).world :=
  run_invariant (I := fun s : Timeline => Sound B s.world) (fun _ e hso => hso.timelineStep e) h

section

variable (hso : Sound B s.world)

include hso

theorem timelineStep_untouched (hab : s.world.tables.objects name = none) (e) : Untouched B name s.world (timelineStep B s e).world := by
  rcases timelineStep_world B s e with heq | ⟨_, _, c, _, _, heq⟩
  · rw [heq]
    exact .refl
  · rw [heq]
    exact perform_untouched hso hab _

theorem exists_recorded (hv : v ∈ (timelineStep B s e).world.tables.versions) (hnew : v ∉ s.world.tables.versions) :
    ∃ i now other r current bytes, e = .acquire i ∧ s.waiting[i]? = some (now, .write other r) ∧ Copies B other r s.world current bytes ∧
      r.passes = true ∧ v ∈ recorded B now other r.action current s.world.issued := by
  rcases timelineStep_world B s e with heq | ⟨i, now, c, rfl, hwa, heq⟩
  · rw [heq] at hv
    exact absurd hv hnew
  · rw [heq] at hv
    cases c with
    | deleteVersion other versionId o =>
      rcases deleteExactVersion_cases B now other versionId o s.world with ⟨htrs, _⟩ | ⟨marker, v', bytes, _, hre⟩
      · exact absurd (htrs.sublist.subset hv) hnew
      · simp only [Call.operation, perform, hre] at hv
        exact absurd (mem_restoredWorld.mp hv).1.1 hnew
    | write other r =>
      rcases versions_settled hso (authorizeAction_settled B now other r s.world) hv with hold | ⟨current, bytes, hcos, hpas, hmem⟩
      · exact absurd hold hnew
      · exact ⟨i, now, other, r, current, bytes, rfl, hwa, hcos, hpas, hmem⟩

theorem lt_of_new (hor : InOrder B name s e) (hu : u ∈ s.world.tables.versions) (huna : u.name = name)
    (huv : u.isDeleteMarker = false) (hv : v ∈ (timelineStep B s e).world.tables.versions) (hnew : v ∉ s.world.tables.versions)
    (hvn : v.name = name) (hvv : v.isDeleteMarker = false) : u.archivedAt < v.archivedAt := by
  obtain ⟨i, now, other, r, current, bytes, rfl, hwa, hcos, hpas, hmem⟩ := exists_recorded hso hv hnew
  have hot : other = name := (name_of_mem_recorded hmem).symm.trans hvn
  subst hot
  have hti := hor now r current bytes hwa hcos hpas u hu huna
  rw [Timely, if_neg (by simp [huv])] at hti
  rcases mem_recorded hmem with rfl | ⟨_, rfl⟩
  · exact hti
  · cases hvv

theorem not_issued_of_new (hv : v ∈ (timelineStep B s e).world.tables.versions) (hnew : v ∉ s.world.tables.versions) :
    ¬ Issued B s.world.issued v.id := by
  obtain ⟨_, _, _, _, _, _, _, _, _, _, hmem⟩ := exists_recorded hso hv hnew
  exact not_issued_of_mem_recorded hmem

end

/-! ## 時刻の順 -/

def HistoryOrdered (B : Bucket) (name : String) (s : Timeline) (es : List TimelineEvent) : Prop :=
  ∀ before after, es = before ++ after →
    ∀ u ∈ (run (timelineStep B) s before).world.tables.versions, ∀ v, v ∉ (run (timelineStep B) s before).world.tables.versions →
      u ∈ (run (timelineStep B) s es).world.tables.versions → v ∈ (run (timelineStep B) s es).world.tables.versions →
        u.name = name → v.name = name → u.isDeleteMarker = false → v.isDeleteMarker = false → u.archivedAt < v.archivedAt

def After (B : Bucket) (name : String) (old : List VersionRow) (u : VersionRow) (s : Timeline) : Prop :=
  Sound B s.world ∧ Issued B s.world.issued u.id ∧ (u ∈ s.world.tables.versions →
      ∀ v ∈ s.world.tables.versions, v ∉ old → v.name = name → v.isDeleteMarker = false → u.archivedAt < v.archivedAt)

theorem timelineStep_issued (B s e) : s.world.issued ≤ (timelineStep B s e).world.issued := by
  rcases timelineStep_world B s e with heq | ⟨i, now, c, _, _, heq⟩
  · rw [heq]
  · rw [heq]
    cases c with
    | deleteVersion other versionId o =>
      rcases deleteExactVersion_cases B now other versionId o s.world with ⟨htrs, _⟩ | ⟨marker, v', bytes, _, hre⟩
      · exact Nat.le_of_eq htrs.issued.symm
      · simp only [Call.operation, perform, hre]
        exact Nat.le_refl _
    | write other r => exact issued_settled (authorizeAction_settled B now other r s.world)

theorem After.step {old} (huna : u.name = name) (huv : u.isDeleteMarker = false)
    (h : After B name old u s) (hor : InOrder B name s e) : After B name old u (timelineStep B s e) := by
  obtain ⟨hso, his, hlat⟩ := h
  refine ⟨hso.timelineStep e, his.mono (timelineStep_issued B s e), fun hu v hv hold hvn hvv => ?_⟩
  have hmem : u ∈ s.world.tables.versions := by
    by_contra hgo
    exact not_issued_of_new hso hu hgo his
  by_cases hnew : v ∈ s.world.tables.versions
  · exact hlat hmem v hnew hold hvn hvv
  · exact lt_of_new hso hor hmem huna huv hv hnew hvn hvv

theorem historyOrdered_of (hso : Sound B s.world) (hor : Along (timelineStep B) (InOrder B name) s es) : HistoryOrdered B name s es := by
  rintro before after rfl u hu v hold hue hve huna hvn huv hvv
  rw [Along.append] at hor
  rw [run_append] at hue hve
  have hso' := hso.timeline before
  have hst : After B name (run (timelineStep B) s before).world.tables.versions u (run (timelineStep B) s before) :=
    ⟨hso', (hso'.issued u hu).1, fun _ v hv hold => absurd hv hold⟩
  have hend := hor.2.invariant (fun _ _ hinv hor => After.step huna huv hinv hor) hst
  exact hend.2.2 hue v hve hold hvn hvv

def Vacates (B : Bucket) (name : String) (s : Timeline) (e : TimelineEvent) : Prop :=
  (s.world.tables.objects name).isSome ∧ (timelineStep B s e).world.tables.objects name = none

/-- `before` の後に錠を得た取引が、版を残して名前を消し、その後には消されていない。 -/
structure LastDelete (B : Bucket) (name : String) (s : Timeline) (before : List TimelineEvent) (i : ℕ) (after : List TimelineEvent) (now : ℕ)
    (r : Request) (current : ObjectRow) (bytes : Bytes) : Prop where
  waiting : (run (timelineStep B) s before).waiting[i]? = some (now, .write name r)
  action : r.action = .delete
  copies : Copies B name r (run (timelineStep B) s before).world current bytes
  passes : r.passes = true
  last : Along (timelineStep B) (fun s e => ¬ Vacates B name s e) (run (timelineStep B) s (before ++ [.acquire i])) after

theorem absent_of_last (hla : Along (timelineStep B) (fun s e => ¬ Vacates B name s e) s es)
    (hab : (run (timelineStep B) s es).world.tables.objects name = none) : s.world.tables.objects name = none := by
  induction es generalizing s with
  | nil => exact hab
  | cons e es ih =>
    have hnx := ih hla.2 hab
    by_contra hpr
    exact hla.1 ⟨Option.isSome_iff_ne_none.mpr hpr, hnx⟩

theorem run_untouched (hso : Sound B s.world) (hla : Along (timelineStep B) (fun s e => ¬ Vacates B name s e) s es)
    (hab : (run (timelineStep B) s es).world.tables.objects name = none) : Untouched B name s.world (run (timelineStep B) s es).world := by
  induction es generalizing s with
  | nil => exact .refl
  | cons e es ih =>
    have hste := timelineStep_untouched hso (absent_of_last hla hab) e
    exact hste.trans (ih (hso.timelineStep e) hla.2 hab)

/-! ## 印の取り除き -/

theorem findVersion_self (hro : Rows B w) (hm : m ∈ w.tables.versions) : findVersion m.name m.versionId w.tables.versions = some m := by
  cases hfo : findVersion m.name m.versionId w.tables.versions with
  | none =>
    have hall := find?_eq_none.mp hfo m hm
    simp at hall
  | some u => grind [→ hro.eq_of_version, → findVersion_eq_some]

theorem hasNewer_eq_false
    (hold : ∀ u ∈ versions, u.name = m.name → u.id ≠ m.id → u.archivedAt ≤ toIsoTimestamp m.archivedAt) : hasNewer m versions = false := by
  rw [hasNewer, any_eq_false]
  intro u hu hnw
  simp only [Bool.and_eq_true, beq_iff_eq, bne_iff_ne, decide_eq_true_eq] at hnw
  exact absurd (hold u hu hnw.1.1 hnw.1.2) (Nat.not_le.mpr hnw.2)

theorem previousVersion_eq (hv : v ∈ versions) (hna : v.name = m.name) (hvr : v.isDeleteMarker = false)
    (hbe : v.archivedAt < toIsoTimestamp m.archivedAt)
    (hold : ∀ u ∈ versions, u.name = m.name → u.isDeleteMarker = false → u ≠ v → u.archivedAt < v.archivedAt) :
    previousVersion m versions = some v := by
  have hot : ∀ u ∈ restorable m versions, u ≠ v → u.archivedAt < v.archivedAt := by grind [restorable]
  have hmem : v ∈ restorable m versions := by simp [restorable, hv, hna, hvr, hbe]
  refine argmax_eq_some_iff.mpr ⟨hmem, fun u hu => ?_, fun u hu hle => ?_⟩
  · by_cases hne : u = v
    · rw [hne]
    · exact Nat.le_of_lt (hot u hu hne)
  · by_cases hne : u = v
    · rw [hne]
    · exact absurd hle (Nat.not_le.mpr (hot u hu hne))

theorem lt_toIsoTimestamp (now) : now < toIsoTimestamp (now + 1000) := by
  unfold toIsoTimestamp
  omega

theorem restores_of {o : Removal} {n} (hso : Sound B w) (hab : w.tables.objects name = none)
    (hro : ∀ u ∈ w.tables.versions, u.name = name → u ∈ versions ++ recorded B now name .delete current n)
    (hti : ∀ u ∈ versions, u.name = name → Timely now .delete u)
    (hm : deleteMarker (B.uuid (n + 1)) (B.uuid (n + 2)) name now current ∈ w.tables.versions)
    (hv : archivedRow (B.uuid n) name now current ∈ w.tables.versions)
    (hbys : w.files (B.archivePlace name current.version) = some bytes) (hen : o.ensured = true) (hco : o.copied = true) :
    Restores B name (B.uuid (n + 2)) o w (deleteMarker (B.uuid (n + 1)) (B.uuid (n + 2)) name now current)
      (archivedRow (B.uuid n) name now current) bytes where
  found := findVersion_self hso.toRows hm
  deleted := rfl
  absent := hab
  newest := by
    refine hasNewer_eq_false fun u hu hna hid => ?_
    show u.archivedAt ≤ toIsoTimestamp (now + 1000)
    have hlt := lt_toIsoTimestamp now
    rcases mem_append.mp (hro u hu hna) with hold | hnew
    · have ht := hti u hold hna
      unfold Timely at ht
      split at ht
      · exact ht rfl
      · omega
    · rcases mem_recorded hnew with rfl | ⟨_, rfl⟩
      · exact Nat.le_of_lt hlt
      · exact absurd rfl hid
  ensured := hen
  copied := hco
  previous := by
    refine previousVersion_eq hv rfl rfl (lt_toIsoTimestamp now) fun u hu hna hvr hne => ?_
    rcases mem_append.mp (hro u hu hna) with hold | hnew
    · have ht := hti u hold hna
      rwa [Timely, if_neg (by simp [hvr])] at ht
    · rcases mem_recorded hnew with rfl | ⟨_, rfl⟩
      · exact absurd rfl hne
      · cases hvr
  bytes := hbys

/-- 最後の削除の印を、名前が空いている間に除くと、直前の版が、その版とメタデータと中身のまま戻る。 -/
def RestoresLatest (B : Bucket) (name : String) (s : Timeline) (es : List TimelineEvent) : Prop :=
  ∀ before i after now r current bytes, es = before ++ .acquire i :: after → LastDelete B name s before i after now r current bytes →
    (run (timelineStep B) s es).world.tables.objects name = none →
    ∀ m v, m.isDeleteMarker = true → m ∈ (run (timelineStep B) s (before ++ [.acquire i])).world.tables.versions →
      m ∉ (run (timelineStep B) s before).world.tables.versions → m ∈ (run (timelineStep B) s es).world.tables.versions →
      v ∈ (run (timelineStep B) s es).world.tables.versions → v.name = name → v.versionId = current.version →
      ∀ now' o, o.ensured = true → o.copied = true →
        ∃ w row, deleteExactVersion B now' name m.versionId o (run (timelineStep B) s es).world = (true, w) ∧
          w.tables.objects name = some row ∧ row.version = current.version ∧ row.metadata = current.metadata ∧ row.owner = current.owner ∧
          w.files (B.place name) = some bytes

theorem LastDelete.world {before after i} (h : LastDelete B name s before i after now r current bytes) :
    (run (timelineStep B) s (before ++ [.acquire i])).world = (authorizeAction B now name r (run (timelineStep B) s before).world).2 := by
  rw [run_append, run_cons, run_nil]
  simp [timelineStep, h.waiting, Call.operation, perform]

theorem restoresLatest_of (hso : Sound B s.world) (hor : Along (timelineStep B) (InOrder B name) s es) : RestoresLatest B name s es := by
  rintro before i after now r current bytes rfl hla hab m v hma hm₂ hm₁ hm₃ hv₃ hvn hvv now' o hen hco
  have hso₁ := hso.timeline before
  have hso₂ := hso.timeline (before ++ [.acquire i])
  have hsp : before ++ TimelineEvent.acquire i :: after = (before ++ [.acquire i]) ++ after := by simp
  rw [hsp, run_append] at hab hm₃ hv₃ ⊢
  have hso₃ := hso₂.timeline after
  have hunt := run_untouched hso₂ hla.last hab
  -- 削除が足した二行
  obtain ⟨hves, hbys⟩ :=
    archived_settled hso₁ (authorizeAction_settled B now name r (run (timelineStep B) s before).world) hla.copies hla.passes
  rw [← hla.world] at hves hbys
  rw [hla.action] at hves
  have hti : ∀ u ∈ (run (timelineStep B) s before).world.tables.versions, u.name = name → Timely now .delete u := by
    intro u hu hna
    rw [Along.append] at hor
    rw [← hla.action]
    exact hor.2.1 now r current bytes hla.waiting hla.copies hla.passes u hu hna
  -- 印と版は、その二行である
  have hm : m = deleteMarker (B.uuid ((run (timelineStep B) s before).world.issued + 1)) (B.uuid ((run (timelineStep B) s before).world.issued + 2))
      name now current := by
    rw [hves, mem_append] at hm₂
    rcases mem_recorded (hm₂.resolve_left hm₁) with rfl | ⟨_, rfl⟩
    · cases hma
    · rfl
  have hv₂ := hunt.rows v hv₃ hvn
  have hv : v = archivedRow (B.uuid (run (timelineStep B) s before).world.issued) name now current := by
    have hmem : archivedRow (B.uuid (run (timelineStep B) s before).world.issued) name now current ∈
        (run (timelineStep B) s (before ++ [.acquire i])).world.tables.versions := by
      rw [hves]
      exact mem_append_right _ mem_cons_self
    exact hso₂.eq_of_version hv₂ hmem hvn hvv
  have hke := hunt.files v hv₃ hvn
  subst hm hv
  have hr := @restores_of B now name _ _ bytes _ o (run (timelineStep B) s before).world.issued hso₃ hab
    (fun u hu hna => hves ▸ hunt.rows u hu hna) hti hm₃ hv₃ (hke.trans hbys) hen hco
  rcases deleteExactVersion_cases B now' name (B.uuid ((run (timelineStep B) s before).world.issued + 2)) o
      (run (timelineStep B) (run (timelineStep B) s (before ++ [.acquire i])) after).world with ⟨_, hno⟩ | ⟨marker, v, bytes', hr', heq⟩
  · exact absurd hr (hno _ _ _)
  · cases hr.found.symm.trans hr'.found
    cases hr.previous.symm.trans hr'.previous
    cases hr.bytes.symm.trans hr'.bytes
    exact ⟨_, _, heq, update_self .., rfl, rfl, rfl, update_self ..⟩

end Supacloud.StorageVersions
