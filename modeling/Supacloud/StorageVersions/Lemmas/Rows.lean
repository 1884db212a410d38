import Supacloud.StorageVersions.Versions

/-! # 一つの処理が変えるもの -/

namespace Supacloud.StorageVersions

open Function Request StorageVersions List

variable {B : Bucket} {now : ℕ} {name : String} {r : Request} {current : ObjectRow} {w a : World} {e : Rejection} {files files' : Files}
  {src dest place : String × String} {bytes : Bytes} {ok : Bool} {marker : VersionRow} {o : Removal} {versionId : String}

theorem uploadFile_eq_some (h : uploadFile ok place bytes files = some files') :
    ok = true ∧ files' = update files place (some bytes) := by
  unfold uploadFile at h
  split at h
  · rename_i hok
    cases h
    exact ⟨hok, rfl⟩
  · cases h

theorem copyFile_eq_some (h : copyFile ok src dest files = some files') :
    ok = true ∧ ∃ bytes, files src = some bytes ∧ files' = update files dest (some bytes) := by
  unfold copyFile at h
  split at h
  · rename_i hok
    obtain ⟨bytes, hsrc, rfl⟩ := Option.map_eq_some_iff.mp h
    exact ⟨hok, bytes, hsrc, rfl⟩
  · cases h

theorem deleteFile_eq_some (h : deleteFile ok place files = some files') : ok = true ∧ files' = update files place none := by
  unfold deleteFile at h
  split at h
  · rename_i hok
    cases h
    exact ⟨hok, rfl⟩
  · cases h

/-! ## 置き換わる版の保存 -/

structure Copies (B : Bucket) (name : String) (r : Request) (w : World) (current : ObjectRow) (bytes : Bytes) : Prop where
  enabled : B.versioning = .enabled
  current : w.tables.objects name = some current
  locks : r.locks = true
  ensured : r.outcomes.ensured = true
  copied : r.outcomes.copied = true
  bytes : w.files (B.place name) = some bytes

def copiedWorld (B : Bucket) (name : String) (current : ObjectRow) (bytes : Bytes) (w : World) : World :=
  { w with files := Function.update w.files (B.archivePlace name current.version) (some bytes) }

theorem archiveCurrent_ok (h : archiveCurrent B now name r w = .ok a) :
    (a = w ∧ (B.versioning = .enabled → r.locks = true → w.tables.objects name = none)) ∨
      ∃ current bytes, Copies B name r w current bytes ∧ r.policies.archive = true ∧
        a = recordVersions B now name r.action current (copiedWorld B name current bytes w) := by
  unfold archiveCurrent at h
  split at h
  · rename_i hena
    split at h
    · rename_i hno
      cases h
      exact .inl ⟨rfl, fun _ _ => hno⟩
    · rename_i current hcu
      split at h
      · rename_i hlos
        split at h
        · rename_i hen
          split at h
          · cases h
          · rename_i files hcp
            obtain ⟨hco, bytes, hbys, rfl⟩ := copyFile_eq_some hcp
            split at h
            · rename_i har
              cases h
              exact .inr ⟨current, bytes, ⟨hena, hcu, hlos, hen, hco, hbys⟩, har, rfl⟩
            · cases h
        · cases h
      · rename_i hlos
        cases h
        exact .inl ⟨rfl, fun _ hl => absurd hl hlos⟩
  · rename_i hdi
    cases h
    exact .inl ⟨rfl, fun he => absurd he hdi⟩

theorem archiveCurrent_error (h : archiveCurrent B now name r w = .error (e, a)) :
    (a = w ∧ ∀ current bytes, ¬ Copies B name r w current bytes) ∨
      ∃ current bytes, Copies B name r w current bytes ∧ r.policies.archive = false ∧ a = copiedWorld B name current bytes w := by
  unfold archiveCurrent at h
  split at h
  · rename_i hena
    split at h
    · cases h
    · rename_i current hcu
      split at h
      · rename_i hlos
        split at h
        · rename_i hen
          split at h
          · rename_i hcp
            cases h
            refine .inl ⟨rfl, fun current' bytes hc => ?_⟩
            cases hcu.symm.trans hc.current
            rw [copyFile, if_pos hc.copied, hc.bytes] at hcp
            cases hcp
          · rename_i files hcp
            obtain ⟨hco, bytes, hbys, rfl⟩ := copyFile_eq_some hcp
            split at h
            · cases h
            · rename_i har
              cases h
              exact .inr ⟨current, bytes, ⟨hena, hcu, hlos, hen, hco, hbys⟩, by simpa using har, rfl⟩
        · rename_i hen
          cases h
          exact .inl ⟨rfl, fun _ _ hc => hen hc.ensured⟩
      · cases h
  · cases h

/-! ## 行の書き込み -/

inductive Written (B : Bucket) (name : String) (r : Request) (w : World) : Option ObjectRow → Prop where
  | deleted (haction : r.action = .delete) (hpresent : w.tables.objects name ≠ none) : Written B name r w none
  | stored {row} (haction : r.action ≠ .delete) (hmeta : row.metadata = r.metadata.stored) (hversion : row.version = B.uuid w.issued)
      (hcreate : r.action = .upload false → w.tables.objects name = none) : Written B name r w (some row)

theorem writeObject_ok (h : writeObject B now name r w = .ok a) : ∃ row, Written B name r w row ∧ a = putObject name row w := by
  unfold writeObject at h
  split at h
  · rename_i upsert haction hno
    split at h
    · cases h
      exact ⟨_, .stored (by simp [haction]) rfl rfl fun _ => hno, rfl⟩
    · cases h
  · rename_i upsert row haction hrow
    split at h
    · split at h
      · rename_i hup
        split at h
        · cases h
          exact ⟨_, .stored (by simp [haction]) rfl rfl fun hcreate => by simp [haction, hup] at hcreate, rfl⟩
        · cases h
      · cases h
    · cases h
  · cases h
  · rename_i row haction hrow
    split at h
    · split at h
      · cases h
        exact ⟨_, .stored (by simp [haction]) rfl rfl fun hcreate => by simp [haction] at hcreate, rfl⟩
      · cases h
    · cases h
  · cases h
  · rename_i row haction hrow
    split at h
    · cases h
      exact ⟨_, .deleted haction (by simp [hrow]), rfl⟩
    · cases h

theorem writeObject_error (h : writeObject B now name r w = .error (e, a)) : a = w := by
  unfold writeObject at h
  split at h <;> (repeat' split at h) <;> cases h <;> rfl

theorem bind_eq_ok {α β : Type} {x} {f : α → Attempt β} {b} (h : x >>= f = .ok b) : ∃ a, x = .ok a ∧ f a = .ok b := by
  cases x with
  | error e => cases h
  | ok a => exact ⟨a, rfl, h⟩

theorem bind_eq_error {α β : Type} {x} {f : α → Attempt β} {p} (h : x >>= f = .error p) :
    x = .error p ∨ ∃ a, x = .ok a ∧ f a = .error p := by
  cases x with
  | error e =>
    cases h
    exact .inl rfl
  | ok a => exact .inr ⟨a, rfl, h⟩

def Request.content (r : Request) : Option Bytes :=
  match r.action with
  | .delete => none
  | _ => some r.bytes

theorem physicalAction_ok (h : physicalAction B name r w = .ok a) :
    r.outcomes.physical = true ∧ a = { w with files := update w.files (B.place name) r.content } := by
  unfold physicalAction at h
  cases haction : r.action with
  | delete => grind [content, deleteFile_eq_some]
  | upload upsert | update => grind [content, uploadFile_eq_some]

theorem physicalAction_error (h : physicalAction B name r w = .error (e, a)) : a = w ∧ r.outcomes.physical = false := by
  unfold physicalAction at h
  cases hok : r.outcomes.physical with
  | false =>
    cases haction : r.action <;> simp [haction, hok, deleteFile, uploadFile] at h <;> exact ⟨h.2.symm, rfl⟩
  | true => cases haction : r.action <;> simp [haction, hok, deleteFile, uploadFile] at h

/-! ## 取引の結果 -/

def Request.rowPasses (r : Request) : Bool :=
  match r.action with
  | .upload upsert => upsert && r.policies.insert
  | .update => true
  | .delete => r.policies.delete

def Request.passes (r : Request) : Bool :=
  r.policies.archive && r.outcomes.physical && r.rowPasses

theorem writeObject_locked (hrow : w.tables.objects name = some current) (hlos : r.locks = true) :
    (r.rowPasses = true ∧ ∃ a, writeObject B now name r w = .ok a) ∨ (r.rowPasses = false ∧ ∃ e, writeObject B now name r w = .error (e, w)) := by
  obtain ⟨hse, hupd⟩ := Bool.and_eq_true_iff.mp hlos
  cases haction : r.action with
  | upload upsert =>
    cases upsert <;> cases hins : r.policies.insert <;>
      simp [writeObject, rowPasses, haction, hrow, hins, hlos]
  | update => simp [writeObject, rowPasses, haction, hrow, hse, hupd]
  | delete => cases hde : r.policies.delete <;> simp [writeObject, rowPasses, haction, hrow, hse, hde]

section Record

variable {action : Action}

theorem recordVersions_objects : (recordVersions B now name action current w).tables.objects = w.tables.objects := by
  cases action <;> rfl

theorem recordVersions_files : (recordVersions B now name action current w).files = w.files := by
  cases action <;> rfl

theorem recordVersions_issued : w.issued < (recordVersions B now name action current w).issued := by
  cases action <;> simp [recordVersions]

end Record

inductive Settled (B : Bucket) (now : ℕ) (name : String) (r : Request) (w : World) : World → Prop where
  | rejected {w'} (htables : w'.tables = w.tables) (hissued : w.issued ≤ w'.issued) (hfiles : w'.files = w.files)
      (hcopies : ∀ current bytes, ¬ Copies B name r w current bytes) : Settled B now name r w w'
  | leftover {w'} (htables : w'.tables = w.tables) (hissued : w.issued ≤ w'.issued) (current : ObjectRow) (bytes : Bytes)
      (hcopies : Copies B name r w current bytes) (hpasses : r.passes = false)
      (hfiles : w'.files = (copiedWorld B name current bytes w).files) : Settled B now name r w w'
  | plain (row : Option ObjectRow) (hhidden : B.versioning = .enabled → r.locks = true → w.tables.objects name = none)
      (hrow : Written B name r w row) :
      Settled B now name r w { putObject name row w with files := Function.update w.files (B.place name) r.content }
  | archived (current : ObjectRow) (bytes : Bytes) (row : Option ObjectRow) (a : World)
      (ha : a = recordVersions B now name r.action current (copiedWorld B name current bytes w))
      (hcopies : Copies B name r w current bytes) (hpasses : r.passes = true) (hrow : Written B name r a row) :
      Settled B now name r w { putObject name row a with files := Function.update a.files (B.place name) r.content }

section

variable (hhidden : B.versioning = .enabled → r.locks = true → w.tables.objects name = none)

include hhidden

theorem not_copies_of (bytes) : ¬ Copies B name r w current bytes := by
  intro hc
  have hno := hhidden hc.enabled hc.locks
  rw [hc.current] at hno
  cases hno

theorem settle_plain : Settled B now name r w (settle w (writeObject B now name r w >>= physicalAction B name r)).2 := by
  cases hre : writeObject B now name r w >>= physicalAction B name r with
  | error p =>
    obtain ⟨e, b⟩ := p
    rcases bind_eq_error hre with hwr | ⟨a, hwr, hph⟩
    · cases writeObject_error hwr
      exact .rejected rfl (Nat.le_refl _) rfl fun _ => not_copies_of hhidden
    · obtain ⟨row, _, rfl⟩ := writeObject_ok hwr
      obtain ⟨rfl, _⟩ := physicalAction_error hph
      exact .rejected rfl (Nat.le_succ _) rfl fun _ => not_copies_of hhidden
  | ok b =>
    obtain ⟨a, hwr, hph⟩ := bind_eq_ok hre
    obtain ⟨row, hrow, rfl⟩ := writeObject_ok hwr
    obtain ⟨_, rfl⟩ := physicalAction_ok hph
    exact .plain row hhidden hrow

end

theorem settle_archived {bytes} (hcopies : Copies B name r w current bytes) (har : r.policies.archive = true)
    (ha : a = recordVersions B now name r.action current (copiedWorld B name current bytes w)) :
    Settled B now name r w (settle w (writeObject B now name r a >>= physicalAction B name r)).2 := by
  have hobs : a.tables.objects name = some current := by rw [ha, recordVersions_objects]; exact hcopies.current
  have hfiles : a.files = (copiedWorld B name current bytes w).files := by rw [ha, recordVersions_files]
  have hissued : w.issued ≤ a.issued := by
    rw [ha]
    exact Nat.le_of_lt (recordVersions_issued (w := copiedWorld B name current bytes w))
  have hlo := @writeObject_locked B now name r current a hobs hcopies.locks
  rcases hlo with ⟨hroP, b, hwr⟩ | ⟨hroP, e, hwr⟩
  · obtain ⟨row, hrow, rfl⟩ := writeObject_ok hwr
    cases hph : physicalAction B name r (putObject name row a) with
    | error p =>
      obtain ⟨e, b⟩ := p
      obtain ⟨rfl, hfa⟩ := physicalAction_error hph
      have hre : writeObject B now name r a >>= physicalAction B name r = .error (e, putObject name row a) := by
        rw [hwr]
        exact hph
      rw [hre]
      exact .leftover rfl (Nat.le_succ_of_le hissued) current bytes hcopies (by simp [passes, hfa]) hfiles
    | ok b =>
      obtain ⟨hwri, rfl⟩ := physicalAction_ok hph
      have hre : writeObject B now name r a >>= physicalAction B name r =
          .ok { putObject name row a with files := update a.files (B.place name) r.content } := by
        rw [hwr]
        exact hph
      rw [hre]
      exact .archived current bytes row a ha hcopies (by simp [passes, har, hwri, hroP]) hrow
  · have hre : writeObject B now name r a >>= physicalAction B name r = .error (e, a) := by
      rw [hwr]
      rfl
    rw [hre]
    exact .leftover rfl hissued current bytes hcopies (by simp [passes, hroP]) hfiles

theorem authorizeAction_settled (B now name r w) : Settled B now name r w (authorizeAction B now name r w).2 := by
  have hass : authorizeAction B now name r w =
      settle w (archiveCurrent B now name r w >>= fun a => writeObject B now name r a >>= physicalAction B name r) := by
    unfold authorizeAction prepare
    cases archiveCurrent B now name r w <;> rfl
  rw [hass]
  cases har : archiveCurrent B now name r w with
  | error p =>
    obtain ⟨e, a⟩ := p
    rcases archiveCurrent_error har with ⟨rfl, hcopies⟩ | ⟨current, bytes, hcopies, hpo, rfl⟩
    · exact .rejected rfl (Nat.le_refl _) rfl hcopies
    · exact .leftover rfl (Nat.le_refl _) current bytes hcopies (by simp [passes, hpo]) rfl
  | ok a =>
    rcases archiveCurrent_ok har with ⟨rfl, hhidden⟩ | ⟨current, bytes, hcopies, hpo, ha⟩
    · exact settle_plain hhidden
    · exact settle_archived hcopies hpo ha

/-! ## 版の行と識別子 -/

variable {name' : String} {w' : World} {row : Option ObjectRow} {u v : VersionRow} {id : String} {rows versions : List VersionRow}

def Issued (B : Bucket) (n : ℕ) (id : String) : Prop := ∃ k < n, id = B.uuid k

theorem Issued.mono {n n'} (h : Issued B n id) (hn : n ≤ n') : Issued B n' id := by
  obtain ⟨k, hk, rfl⟩ := h
  exact ⟨k, by omega, rfl⟩

theorem Issued.ne {n k} (h : Issued B n id) (hk : n ≤ k) : id ≠ B.uuid k := by
  obtain ⟨j, hj, rfl⟩ := h
  intro heq
  have := B.unique heq
  omega

theorem Issued.plain {n} (h : Issued B n id) : '/' ∉ id.toList := by
  obtain ⟨k, _, rfl⟩ := h
  exact B.plain k

theorem append_slash_inj {a b c d} (hb : '/' ∉ b) (hd : '/' ∉ d) (h : a ++ '/' :: b = c ++ '/' :: d) : a = c ∧ b = d := by
  rcases append_eq_append_iff.mp h with ⟨m, hc, hrs⟩ | ⟨m, ha, hrs⟩
  · cases m with
    | nil =>
      rw [append_nil] at hc
      exact ⟨hc.symm, (cons.inj hrs).2⟩
    | cons x m =>
      obtain ⟨_, rfl⟩ := cons.inj hrs
      exact absurd (by simp) hb
  · cases m with
    | nil =>
      rw [append_nil] at ha
      exact ⟨ha, ((cons.inj hrs).2).symm⟩
    | cons x m =>
      obtain ⟨_, rfl⟩ := cons.inj hrs
      exact absurd (by simp) hd

theorem objectVersionStorageKey_inj {b n n' i i'} (hi : '/' ∉ i.toList) (hi' : '/' ∉ i'.toList)
    (h : objectVersionStorageKey b n i = objectVersionStorageKey b n' i') : n = n' ∧ i = i' := by
  have hli := congrArg String.toList h
  simp only [objectVersionStorageKey, String.toList_append] at hli
  have hsla : "/".toList = ['/'] := rfl
  simp only [hsla, append_assoc, singleton_append] at hli
  rw [append_cancel_left_eq] at hli
  obtain ⟨hn, hv⟩ := append_slash_inj hi hi' (cons.inj hli).2
  exact ⟨String.toList_inj.mp hn, String.toList_inj.mp hv⟩

theorem place_ne_archivePlace : B.place name ≠ B.archivePlace name' id :=
  fun h => B.visible (congrArg Prod.fst h)

theorem place_inj : B.place name = B.place name' ↔ name = name' :=
  ⟨fun h => congrArg Prod.snd h, fun h => by rw [h]⟩

theorem archivePlace_inj {i i'} (hi : '/' ∉ i.toList) (hi' : '/' ∉ i'.toList)
    (h : B.archivePlace name i = B.archivePlace name' i') : name = name' ∧ i = i' :=
  objectVersionStorageKey_inj hi hi' (congrArg Prod.snd h)

/-! ## 不変条件 -/

structure Rows (B : Bucket) (w : World) : Prop where
  ids : (w.tables.versions.map fun v => v.id).Nodup
  issued : ∀ v ∈ w.tables.versions, Issued B w.issued v.id ∧ Issued B w.issued v.versionId
  distinct : (w.tables.versions.map fun v => (v.name, v.versionId)).Nodup

def CurrentFresh (B : Bucket) (w : World) (name : String) : Prop :=
  ∀ row, w.tables.objects name = some row →
    Issued B w.issued row.version ∧ ∀ v ∈ w.tables.versions, v.name = name → v.versionId ≠ row.version

structure Sound (B : Bucket) (w : World) : Prop extends Rows B w where
  fresh : ∀ name, CurrentFresh B w name

section

variable (h : Rows B w) (hu : u ∈ w.tables.versions) (hv : v ∈ w.tables.versions)

include h hu hv

theorem Rows.eq_of_id (hid : u.id = v.id) : u = v :=
  inj_on_of_nodup_map h.ids hu hv hid

theorem Rows.eq_of_version (hna : u.name = v.name) (hversion : u.versionId = v.versionId) : u = v :=
  inj_on_of_nodup_map h.distinct hu hv (Prod.ext hna hversion)

theorem Rows.archivePlace_inj (hpl : B.archivePlace u.name u.versionId = B.archivePlace v.name v.versionId) : u = v := by
  obtain ⟨hna, hversion⟩ := StorageVersions.archivePlace_inj (h.issued u hu).2.plain (h.issued v hv).2.plain hpl
  exact h.eq_of_version hu hv hna hversion

end

theorem Rows.of_sublist (h : Rows B w) (hsub : w'.tables.versions.Sublist w.tables.versions) (hissued : w.issued ≤ w'.issued) : Rows B w' where
  ids := h.ids.sublist (hsub.map _)
  issued := fun v hv => ⟨((h.issued v (hsub.subset hv)).1).mono hissued, ((h.issued v (hsub.subset hv)).2).mono hissued⟩
  distinct := h.distinct.sublist (hsub.map _)

theorem CurrentFresh.of_subset (h : CurrentFresh B w name) (hob : w'.tables.objects name = w.tables.objects name)
    (hsub : ∀ v ∈ w'.tables.versions, v.name = name → v ∈ w.tables.versions) (hissued : w.issued ≤ w'.issued) : CurrentFresh B w' name := by
  intro row hrow
  rw [hob] at hrow
  obtain ⟨hversion, hfr⟩ := h row hrow
  exact ⟨hversion.mono hissued, fun v hv hna => hfr v (hsub v hv hna) hna⟩

theorem Sound.of_sublist (h : Sound B w) (hobs : w'.tables.objects = w.tables.objects)
    (hsub : w'.tables.versions.Sublist w.tables.versions) (hissued : w.issued ≤ w'.issued) : Sound B w' where
  toRows := h.toRows.of_sublist hsub hissued
  fresh := fun name => (h.fresh name).of_subset (congrFun hobs name) (fun _ hv _ => hsub.subset hv) hissued

theorem dropVersion_sublist : (dropVersion id w).tables.versions.Sublist w.tables.versions := filter_sublist

theorem mem_dropVersion : u ∈ (dropVersion id w).tables.versions ↔ u ∈ w.tables.versions ∧ u.id ≠ id := by
  simp [dropVersion]

theorem Rows.mem_dropVersion (h : Rows B w) (hv : v ∈ w.tables.versions) :
    u ∈ (dropVersion v.id w).tables.versions ↔ u ∈ w.tables.versions ∧ u ≠ v := by
  rw [StorageVersions.mem_dropVersion]
  refine and_congr_right fun hu => not_congr ⟨h.eq_of_id hu hv, fun heq => by rw [heq]⟩

/-! ## 版を残す -/

theorem insertVersion_eq (hfr : ∀ v ∈ versions, v.name = u.name → v.versionId ≠ u.versionId) : insertVersion u versions = versions ++ [u] := by
  refine if_neg ?_
  rw [any_eq_true]
  rintro ⟨v, hv, hkey⟩
  simp only [Bool.and_eq_true, beq_iff_eq] at hkey
  exact hfr v hv hkey.1 hkey.2

def recorded (B : Bucket) (now : ℕ) (name : String) (action : Action) (current : ObjectRow) (issued : ℕ) : List VersionRow :=
  archivedRow (B.uuid issued) name now current ::
    if action = .delete then [deleteMarker (B.uuid (issued + 1)) (B.uuid (issued + 2)) name now current] else []

theorem recordVersions_versions (h : CurrentFresh B w name) (hcu : w.tables.objects name = some current) (action) :
    (recordVersions B now name action current w).tables.versions = w.tables.versions ++ recorded B now name action current w.issued := by
  have hins : insertVersion (archivedRow (B.uuid w.issued) name now current) w.tables.versions
      = w.tables.versions ++ [archivedRow (B.uuid w.issued) name now current] :=
    insertVersion_eq (h current hcu).2
  cases action <;> simp [recordVersions, recorded, hins]

theorem mem_recorded {action n} (h : u ∈ recorded B now name action current n) : u = archivedRow (B.uuid n) name now current ∨
      action = .delete ∧ u = deleteMarker (B.uuid (n + 1)) (B.uuid (n + 2)) name now current := by
  unfold recorded at h
  rcases mem_cons.mp h with rfl | h
  · exact .inl rfl
  · split at h
    · rename_i haction
      exact .inr ⟨haction, mem_singleton.mp h⟩
    · cases h

theorem name_of_mem_recorded {action n} (h : u ∈ recorded B now name action current n) : u.name = name := by
  rcases mem_recorded h with rfl | ⟨_, rfl⟩ <;> rfl

theorem Rows.recordVersions (h : Rows B w) (hfr : CurrentFresh B w name) (hcu : w.tables.objects name = some current)
    (action) : Rows B (recordVersions B now name action current w) := by
  have hves := @recordVersions_versions B now name current w hfr hcu action
  obtain ⟨hissued, hnew⟩ := hfr current hcu
  have hid : ∀ v ∈ w.tables.versions, ∀ k, w.issued ≤ k → v.id ≠ B.uuid k := fun v hv k hk => (h.issued v hv).1.ne hk
  have hversion : ∀ v ∈ w.tables.versions, ∀ k, w.issued ≤ k → v.versionId ≠ B.uuid k := fun v hv k hk => (h.issued v hv).2.ne hk
  have hu : ∀ i j, i ≠ j → B.uuid i ≠ B.uuid j := fun i j hij heq => hij (B.unique heq)
  refine ⟨?_, ?_, ?_⟩
  · grind [h.ids, archivedRow, deleteMarker, recorded, mem_recorded]
  · intro v hv
    rw [hves, mem_append] at hv
    rcases hv with hv | hv
    · have hgr : w.issued ≤ (StorageVersions.recordVersions B now name action current w).issued := Nat.le_of_lt recordVersions_issued
      exact ⟨(h.issued v hv).1.mono hgr, (h.issued v hv).2.mono hgr⟩
    · rcases mem_recorded hv with rfl | ⟨rfl, rfl⟩
      · have hgr : w.issued < (StorageVersions.recordVersions B now name action current w).issued := recordVersions_issued
        exact ⟨⟨w.issued, hgr, rfl⟩, hissued.mono (Nat.le_of_lt hgr)⟩
      · exact ⟨⟨w.issued + 1, by simp [StorageVersions.recordVersions], rfl⟩, ⟨w.issued + 2, by simp [StorageVersions.recordVersions], rfl⟩⟩
  · rw [hves, map_append, nodup_append]
    refine ⟨h.distinct, ?_, ?_⟩
    · have hmarker : current.version ≠ B.uuid (w.issued + 2) := hissued.ne (by omega)
      cases action <;> simp [recorded, archivedRow, deleteMarker, hmarker]
    · simp only [mem_map]
      rintro _ ⟨v, hv, rfl⟩ _ ⟨u, hu, rfl⟩ heq
      obtain ⟨hna, hver⟩ := Prod.mk.inj heq
      rcases mem_recorded hu with rfl | ⟨_, rfl⟩
      · exact hnew v hv hna hver
      · exact hversion v hv _ (by omega) hver

/-! ## 行を書く -/

theorem Rows.putObject (h : Rows B w) (name row) : Rows B (putObject name row w) :=
  h.of_sublist (List.Sublist.refl _ : (StorageVersions.putObject name row w).tables.versions.Sublist w.tables.versions) (Nat.le_succ _)

theorem CurrentFresh.putObject_of_ne (h : CurrentFresh B w name') (hne : name' ≠ name) (row) :
    CurrentFresh B (putObject name row w) name' :=
  h.of_subset (update_of_ne hne .. : (putObject name row w).tables.objects name' = w.tables.objects name') (fun _ hv _ => hv) (Nat.le_succ _)

theorem Written.fresh (h : Rows B w) (hrow : Written B name r w row) : CurrentFresh B (putObject name row w) name := by
  intro stored hst
  have hsl : (putObject name row w).tables.objects name = row := update_self ..
  rw [hsl] at hst
  subst hst
  cases hrow with
  | stored haction hmeta hversion hcreate =>
    rw [hversion]
    exact ⟨⟨w.issued, Nat.lt_succ_self _, rfl⟩, fun v hv _ => (h.issued v hv).2.ne (Nat.le_refl _)⟩

theorem Sound.putObject (hro : Rows B w) (hfr : ∀ name', name' ≠ name → CurrentFresh B w name') (hrow : Written B name r w row) :
    Sound B (putObject name row w) where
  toRows := hro.putObject name row
  fresh := fun name' => by
    by_cases hna : name' = name
    · rw [hna]
      exact hrow.fresh hro
    · exact (hfr name' hna).putObject_of_ne hna row

theorem Sound.settled (h : Sound B w) (hset : Settled B now name r w w') : Sound B w' := by
  cases hset with
  | rejected htables hissued _ _ | leftover htables hissued _ _ _ _ _ =>
    exact h.of_sublist (by rw [htables]) (by rw [htables]) hissued
  | plain row _ hrow =>
    have hso := Sound.putObject h.toRows (fun name' _ => h.fresh name') hrow
    exact hso.of_sublist rfl (List.Sublist.refl _) (Nat.le_refl _)
  | archived current bytes row a ha hcopies _ hrow =>
    have hco : Sound B (copiedWorld B name current bytes w) := h.of_sublist rfl (List.Sublist.refl _) (Nat.le_refl _)
    have hves := @recordVersions_versions B now name current _ (hco.fresh name) hcopies.current r.action
    have hro : Rows B a := ha ▸ hco.toRows.recordVersions (hco.fresh name) hcopies.current r.action
    have hfr : ∀ name', name' ≠ name → CurrentFresh B a name' := by
      intro name' hne
      refine (hco.fresh name').of_subset ?_ ?_ ?_
      · rw [ha, recordVersions_objects]
      · grind [name_of_mem_recorded]
      · rw [ha]
        exact Nat.le_of_lt recordVersions_issued
    exact (Sound.putObject hro hfr hrow).of_sublist rfl (List.Sublist.refl _) (Nat.le_refl _)

/-! ## 版を除く -/

inductive Trims (B : Bucket) (w : World) : World → Prop where
  | refl : Trims B w w
  | marker {a : World} (h : Trims B w a) (v : VersionRow) (hv : v ∈ a.tables.versions) (hmarker : v.isDeleteMarker = true) :
      Trims B w (dropVersion v.id a)
  | version {a : World} (h : Trims B w a) (v : VersionRow) (hv : v ∈ a.tables.versions) (hversion : v.isDeleteMarker = false) :
      Trims B w (dropVersion v.id { a with files := Function.update a.files (B.archivePlace v.name v.versionId) none })

theorem Trims.trans (h : Trims B w a) (h' : Trims B a w') : Trims B w w' := by
  induction h' with
  | refl => exact h
  | marker _ v hv hmarker ih => exact .marker ih v hv hmarker
  | version _ v hv hversion ih => exact .version ih v hv hversion

theorem Trims.sublist (h : Trims B w w') : w'.tables.versions.Sublist w.tables.versions := by
  induction h with
  | refl => exact List.Sublist.refl _
  | marker _ v _ _ ih | version _ v _ _ ih => exact filter_sublist.trans ih

theorem Trims.objects (h : Trims B w w') : w'.tables.objects = w.tables.objects := by
  induction h with
  | refl => rfl
  | marker _ _ _ _ ih | version _ _ _ _ ih => exact ih

theorem Trims.issued (h : Trims B w w') : w'.issued = w.issued := by
  induction h with
  | refl => rfl
  | marker _ _ _ _ ih | version _ _ _ _ ih => exact ih

theorem Trims.files_place (h : Trims B w w') (name) : w'.files (B.place name) = w.files (B.place name) := by
  induction h with
  | refl => rfl
  | marker _ _ _ _ ih => exact ih
  | version _ v _ _ ih => exact (update_of_ne place_ne_archivePlace ..).trans ih

theorem Sound.trims (h : Sound B w) (htrs : Trims B w w') : Sound B w' :=
  h.of_sublist htrs.objects htrs.sublist (Nat.le_of_eq htrs.issued.symm)

/-! ## 復元 -/

structure Restores (B : Bucket) (name versionId : String) (o : Removal) (w : World) (marker v : VersionRow) (bytes : Bytes) : Prop where
  found : findVersion name versionId w.tables.versions = some marker
  deleted : marker.isDeleteMarker = true
  absent : w.tables.objects name = none
  newest : hasNewer marker w.tables.versions = false
  ensured : o.ensured = true
  copied : o.copied = true
  previous : previousVersion marker w.tables.versions = some v
  bytes : w.files (B.archivePlace v.name v.versionId) = some bytes

def restoredWorld (B : Bucket) (now : ℕ) (marker v : VersionRow) (bytes : Bytes) (w : World) : World :=
  dropVersion marker.id (dropVersion v.id
    { w with
      tables := { w.tables with objects := Function.update w.tables.objects v.name (some (restoredRow now v)) }
      files := Function.update w.files (B.place v.name) (some bytes) })

theorem findVersion_eq_some (h : findVersion name versionId versions = some v) :
    v ∈ versions ∧ v.name = name ∧ v.versionId = versionId := by
  have hkey := find?_some h
  rw [Bool.and_eq_true, beq_iff_eq, beq_iff_eq] at hkey
  exact ⟨mem_of_find?_eq_some h, hkey.1, hkey.2⟩

theorem previousVersion_eq_some (h : previousVersion marker versions = some v) :
    v ∈ versions ∧ v.name = marker.name ∧ v.isDeleteMarker = false := by
  have hmem := argmax_mem h
  simp only [restorable, mem_filter, Bool.and_eq_true, beq_iff_eq, Bool.not_eq_true', decide_eq_true_eq] at hmem
  exact ⟨hmem.1, hmem.2.1.1, hmem.2.2⟩

theorem restorePreviousVersion_cases (hfo : findVersion name versionId w.tables.versions = some marker)
    (hmarker : marker.isDeleteMarker = true) (hab : w.tables.objects name = none) (hnw : hasNewer marker w.tables.versions = false) :
    (Trims B w (restorePreviousVersion B now o marker w).2 ∧ ∀ marker v bytes, ¬ Restores B name versionId o w marker v bytes) ∨
      ∃ v bytes, Restores B name versionId o w marker v bytes ∧ restorePreviousVersion B now o marker w = (true, restoredWorld B now marker v bytes w) := by
  have hmem := (findVersion_eq_some hfo).1
  unfold restorePreviousVersion
  split
  · rename_i hen
    split
    · rename_i hprs
      refine .inl ⟨.marker .refl marker hmem hmarker, fun marker' v bytes hr => ?_⟩
      cases hfo.symm.trans hr.found
      cases hprs.symm.trans hr.previous
    · rename_i v hprs
      split
      · rename_i hcp
        refine .inl ⟨.refl, fun marker' v' bytes hr => ?_⟩
        cases hfo.symm.trans hr.found
        cases hprs.symm.trans hr.previous
        rw [copyFile, if_pos hr.copied, hr.bytes] at hcp
        cases hcp
      · rename_i files hcp
        obtain ⟨hco, bytes, hbys, rfl⟩ := copyFile_eq_some hcp
        exact .inr ⟨v, bytes, ⟨hfo, hmarker, hab, hnw, hen, hco, hprs, hbys⟩, rfl⟩
  · rename_i hen
    exact .inl ⟨.refl, fun _ _ _ hr => hen hr.ensured⟩

theorem deleteExactVersion_cases (B now name versionId o w) :
    (Trims B w (deleteExactVersion B now name versionId o w).2 ∧ ∀ marker v bytes, ¬ Restores B name versionId o w marker v bytes) ∨
      ∃ marker v bytes, Restores B name versionId o w marker v bytes ∧
        deleteExactVersion B now name versionId o w = (true, restoredWorld B now marker v bytes w) := by
  unfold deleteExactVersion
  split
  · rename_i hfo
    exact .inl ⟨.refl, fun _ _ _ hr => absurd (hfo.symm.trans hr.found) nofun⟩
  · rename_i version hfo
    obtain ⟨hmem, rfl, rfl⟩ := findVersion_eq_some hfo
    split
    · rename_i hmarker
      split
      · rename_i hke
        refine .inl ⟨.marker .refl version hmem hmarker, fun marker v bytes hr => ?_⟩
        cases hfo.symm.trans hr.found
        simp [hr.absent, hr.newest] at hke
      · rename_i hke
        simp only [Bool.or_eq_true, not_or, Bool.not_eq_true, Option.isSome_eq_false_iff, Option.isNone_iff_eq_none] at hke
        rcases restorePreviousVersion_cases hfo hmarker hke.1 hke.2 with hkp | ⟨v, bytes, hr, heq⟩
        · exact .inl hkp
        · exact .inr ⟨version, v, bytes, hr, heq⟩
    · rename_i hversion
      have hversion : version.isDeleteMarker = false := by simpa using hversion
      have hno : ∀ marker v bytes, ¬ Restores B version.name version.versionId o w marker v bytes := fun marker v bytes hr => by
        cases hfo.symm.trans hr.found
        cases hversion.symm.trans hr.deleted
      split
      · exact .inl ⟨.refl, hno⟩
      · rename_i files hfl
        obtain ⟨_, rfl⟩ := deleteFile_eq_some hfl
        exact .inl ⟨.version .refl version hmem hversion, hno⟩

theorem mem_restoredWorld {bytes} :
    u ∈ (restoredWorld B now marker v bytes w).tables.versions ↔ (u ∈ w.tables.versions ∧ u.id ≠ v.id) ∧ u.id ≠ marker.id := by
  rw [restoredWorld, mem_dropVersion, mem_dropVersion]

theorem Sound.restored {bytes} (h : Sound B w) (hr : Restores B name versionId o w marker v bytes) :
    Sound B (restoredWorld B now marker v bytes w) := by
  obtain ⟨hv, _, _⟩ := previousVersion_eq_some hr.previous
  have hsub : (restoredWorld B now marker v bytes w).tables.versions.Sublist w.tables.versions := filter_sublist.trans filter_sublist
  refine ⟨h.toRows.of_sublist hsub (Nat.le_refl _), fun name' => ?_⟩
  by_cases hna : name' = v.name
  · subst hna
    intro row hrow
    have hsl : (restoredWorld B now marker v bytes w).tables.objects v.name = some (restoredRow now v) := update_self ..
    cases hsl.symm.trans hrow
    refine ⟨(h.issued v hv).2, fun u hu huna huv => ?_⟩
    obtain ⟨⟨hmem, hid⟩, _⟩ := mem_restoredWorld.mp hu
    exact hid (congrArg VersionRow.id (h.eq_of_version hmem hv huna huv))
  · exact (h.fresh name').of_subset (update_of_ne hna ..) (fun u hu _ => hsub.subset hu) (Nat.le_refl _)

/-! ## 一括の取り除き -/

theorem purgeRows_trims (deleted) (hro : Rows B w) (hids : (rows.map fun v => v.id).Nodup)
    (hmem : ∀ v ∈ rows, v ∈ w.tables.versions) (count) : Trims B w (purgeRows B deleted count rows w).2 := by
  induction rows generalizing w count with
  | nil => exact .refl
  | cons v rows ih =>
    rw [map_cons, nodup_cons] at hids
    have hv := hmem v mem_cons_self
    have hrs : ∀ files, ∀ u ∈ rows, u ∈ (dropVersion v.id { w with files := files }).tables.versions := by
      intro files u hu
      refine mem_dropVersion.mpr ⟨hmem u (mem_cons_of_mem _ hu), fun hid => ?_⟩
      exact hids.1 (hid ▸ mem_map_of_mem hu)
    have hke : ∀ files, Rows B (dropVersion v.id { w with files := files }) :=
      fun files => hro.of_sublist dropVersion_sublist (Nat.le_refl _)
    unfold purgeRows
    split
    · rename_i hmarker
      exact Trims.trans (.marker .refl v hv hmarker) (ih (hke w.files) hids.2 (hrs w.files) _)
    · rename_i hversion
      split
      · exact .refl
      · rename_i files hfl
        obtain ⟨_, rfl⟩ := deleteFile_eq_some hfl
        exact Trims.trans (.version .refl v hv (by simpa using hversion)) (ih (hke _) hids.2 (hrs _) _)

theorem deleteExactVersion_trims (hro : Rows B w) (hv : v ∈ w.tables.versions) (hversion : v.isDeleteMarker = false)
    (htrs : Trims B w a) : Trims B w (deleteExactVersion B now v.name v.versionId o a).2 := by
  rcases deleteExactVersion_cases B now v.name v.versionId o a with ⟨hnx, _⟩ | ⟨marker, _, _, hr, _⟩
  · exact htrs.trans hnx
  · obtain ⟨hmem, hna, hveI⟩ := findVersion_eq_some hr.found
    cases hro.eq_of_version (htrs.sublist.subset hmem) hv hna hveI
    cases hversion.symm.trans hr.deleted

theorem cleanupRows_trims {stats} (hro : Rows B w)
    (hmem : ∀ v ∈ rows, v ∈ w.tables.versions ∧ v.isDeleteMarker = false) (htrs : Trims B w a) :
    Trims B w (cleanupRows B now o rows stats a).2 := by
  induction rows generalizing a stats with
  | nil => exact htrs
  | cons v rows ih => grind [cleanupRows, deleteExactVersion_trims]

theorem mem_expired {rule} (h : v ∈ expired now rule versions) : v ∈ versions ∧ v.isDeleteMarker = false := by
  simp only [expired, mem_filter, Bool.and_eq_true, Bool.not_eq_true'] at h
  exact ⟨h.1, h.2.1.1⟩

theorem cleanupRules_trims {rules stats} (hro : Rows B w) : Trims B w (cleanupRules B now o rules stats w).2 := by
  induction rules generalizing w stats with
  | nil => exact .refl
  | cons rule rules ih =>
    unfold cleanupRules
    split
    · have hfi : Trims B w (cleanupRows B now o ((expired now rule w.tables.versions).insertionSort fun a b => cleanupOrder a b) stats w).2 := by
        refine cleanupRows_trims hro (fun v hv => @mem_expired now v _ rule ?_) .refl
        exact (mem_insertionSort _).mp hv
      exact hfi.trans (ih (hro.of_sublist hfi.sublist (Nat.le_of_eq hfi.issued.symm)))
    · exact ih hro

theorem Sound.perform (h : Sound B w) (op) : Sound B (perform B w op) := by
  cases op with
  | write now name r => exact h.settled (authorizeAction_settled B now name r w)
  | deleteVersion now name versionId o =>
    rcases deleteExactVersion_cases B now name versionId o w with ⟨htrs, _⟩ | ⟨marker, v, bytes, hr, heq⟩
    · exact h.trims htrs
    · simp only [StorageVersions.perform, heq]
      exact h.restored hr
  | cleanup now rules o => exact h.trims (cleanupRules_trims h.toRows)
  | purge deleted => exact h.trims (purgeRows_trims deleted h.toRows h.ids (fun _ hv => hv) 0)

end Supacloud.StorageVersions
