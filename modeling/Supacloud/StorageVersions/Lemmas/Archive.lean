import Supacloud.StorageVersions.Lemmas.Rows

/-!
# 版の鍵と版の行

内部のバケットの鍵は、残した版の行の鍵とちょうど同じである。
-/

namespace Supacloud.StorageVersions

open Library Function List Option

variable {B : Bucket} {now : ℕ} {name id : String} {r : Request} {w w' : World} {v : VersionRow} {bytes bytes' : Bytes}

/-! ## 鍵の集まり -/

def KeysMatch (B : Bucket) (w : World) : Prop :=
  ∀ key, (w.files (storageVersionBucket, key)).isSome ↔
    ∃ v ∈ w.tables.versions, v.isDeleteMarker = false ∧ key = objectVersionStorageKey B.id v.name v.versionId

theorem archivePlace_eq_iff {key} : B.archivePlace name id = (storageVersionBucket, key) ↔ key = objectVersionStorageKey B.id name id :=
  ⟨fun h => (congrArg Prod.snd h).symm, fun h => by rw [h]; rfl⟩

theorem KeysMatch.of_eq (h : KeysMatch B w) (hves : w'.tables.versions = w.tables.versions)
    (hfis : ∀ key, w'.files (storageVersionBucket, key) = w.files (storageVersionBucket, key)) : KeysMatch B w' := by
  intro key
  rw [hfis, hves]
  exact h key

theorem update_place_archive {content} {files : Files} (B : Bucket) (name key) :
    update files (B.place name) content (storageVersionBucket, key) = files (storageVersionBucket, key) :=
  update_of_ne (fun h => B.visible (congrArg Prod.fst h).symm) ..

theorem KeysMatch.recordVersions {current} (h : KeysMatch B w) (hso : Sound B w) (hcu : w.tables.objects name = some current)
    (action) : KeysMatch B (recordVersions B now name action current (copiedWorld B name current bytes w)) := by
  have hfr : CurrentFresh B (copiedWorld B name current bytes w) name := hso.fresh name
  intro key
  rw [recordVersions_files, recordVersions_versions hfr hcu]
  by_cases hkey : key = objectVersionStorageKey B.id name current.version
  · have hpl := archivePlace_eq_iff.mpr hkey
    have hset : (copiedWorld B name current bytes w).files (storageVersionBucket, key) = some bytes := by
      rw [← hpl]
      exact update_self ..
    rw [hset]
    refine iff_of_true rfl ⟨_, mem_append_right _ mem_cons_self, rfl, hkey⟩
  · have hpl : (storageVersionBucket, key) ≠ B.archivePlace name current.version := fun heq => hkey (archivePlace_eq_iff.mp heq.symm)
    have hset : (copiedWorld B name current bytes w).files (storageVersionBucket, key) = w.files (storageVersionBucket, key) :=
      update_of_ne hpl ..
    rw [hset, h key]
    constructor
    · rintro ⟨v, hv, hve, rfl⟩
      exact ⟨v, mem_append_left _ hv, hve, rfl⟩
    · rintro ⟨v, hv, hve, rfl⟩
      rcases mem_append.mp hv with hv | hv
      · exact ⟨v, hv, hve, rfl⟩
      · rcases mem_recorded hv with rfl | ⟨_, rfl⟩
        · exact absurd rfl hkey
        · cases hve

theorem KeysMatch.trims (h : KeysMatch B w) (hso : Sound B w) (htrs : Trims B w w') : KeysMatch B w' := by
  induction htrs with
  | refl => exact h
  | marker htrs v hv hmr ih =>
    have hro := (hso.trims htrs).toRows
    intro key
    refine (ih key).trans (exists_congr fun u => ?_)
    rw [hro.mem_dropVersion hv]
    refine ⟨fun ⟨hu, hve, hkey⟩ => ⟨⟨hu, fun heq => ?_⟩, hve, hkey⟩, fun ⟨hu, hve, hkey⟩ => ⟨hu.1, hve, hkey⟩⟩
    rw [heq, hmr] at hve
    cases hve
  | @version a htrs v hv hve ih =>
    have hro := (hso.trims htrs).toRows
    have hdr : Rows B { a with files := update a.files (B.archivePlace v.name v.versionId) none } :=
      hro.of_sublist (List.Sublist.refl _) (Nat.le_refl _)
    intro key
    by_cases hkey : B.archivePlace v.name v.versionId = (storageVersionBucket, key)
    · have hgo : (dropVersion v.id { a with files := update a.files (B.archivePlace v.name v.versionId) none }).files
          (storageVersionBucket, key) = none := by
        rw [← hkey]
        exact update_self ..
      rw [hgo]
      refine iff_of_false nofun ?_
      rintro ⟨u, hu, _, huk⟩
      obtain ⟨hu, hne⟩ := (hdr.mem_dropVersion hv).mp hu
      exact hne (hro.archivePlace_inj hu hv ((archivePlace_eq_iff.mpr huk).trans hkey.symm))
    · have hkp : (dropVersion v.id { a with files := update a.files (B.archivePlace v.name v.versionId) none }).files
          (storageVersionBucket, key) = a.files (storageVersionBucket, key) :=
        update_of_ne (fun heq => hkey heq.symm) ..
      rw [hkp]
      refine (ih key).trans (exists_congr fun u => ?_)
      rw [hdr.mem_dropVersion hv]
      refine ⟨fun ⟨hu, huv, huk⟩ => ⟨⟨hu, fun heq => ?_⟩, huv, huk⟩, fun ⟨hu, huv, huk⟩ => ⟨hu.1, huv, huk⟩⟩
      subst heq
      exact hkey (archivePlace_eq_iff.mpr huk)

/-! ## 条件 -/

def Clean (B : Bucket) (w : World) : Operation → Prop
  | .write _ name r => ∀ current bytes, Copies B name r w current bytes → r.passes = true
  | .deleteVersion _ name versionId o => ∀ marker v bytes, ¬ Restores B name versionId o w marker v bytes
  | .cleanup _ _ _ => True
  | .purge _ => True

theorem keysMatch_settled (hso : Sound B w) (h : KeysMatch B w) (hst : Settled B now name r w w') :
    (∀ current bytes, Copies B name r w current bytes → r.passes = true) ↔ KeysMatch B w' := by
  cases hst with
  | rejected htas _ hfis hcos =>
    refine iff_of_true (fun current bytes hc => absurd hc (hcos current bytes)) (h.of_eq (by rw [htas]) fun key => by rw [hfis])
  | leftover htas _ current bytes hcos hpas hfis =>
    refine iff_of_false (fun hall => absurd (hpas.symm.trans (hall current bytes hcos)) nofun) fun hma => ?_
    have hkey : w'.files (B.archivePlace name current.version) = some bytes := by
      rw [hfis]
      exact update_self ..
    obtain ⟨v, hv, _, hv'⟩ := (hma (objectVersionStorageKey B.id name current.version)).mp (isSome_iff_exists.mpr ⟨bytes, hkey⟩)
    rw [htas] at hv
    obtain ⟨his, hfr⟩ := hso.fresh name current hcos.current
    obtain ⟨hna, hve⟩ := objectVersionStorageKey_inj his.plain (hso.issued v hv).2.plain hv'
    exact hfr v hv hna.symm hve.symm
  | plain row hhd hrow =>
    exact iff_of_true (fun current bytes hc => absurd hc (not_copies_of hhd bytes)) (h.of_eq rfl fun key => update_place_archive B name key)
  | archived current bytes row a ha hcos hpas hrow =>
    have hre := @KeysMatch.recordVersions B now name w bytes current h hso hcos.current r.action
    rw [← ha] at hre
    exact iff_of_true (fun _ _ _ => hpas) (hre.of_eq rfl fun key => update_place_archive B name key)

theorem not_keysMatch_restored {versionId o marker} (hso : Sound B w)
    (hr : Restores B name versionId o w marker v bytes) : ¬ KeysMatch B (restoredWorld B now marker v bytes w) := by
  intro hma
  obtain ⟨hv, _, _⟩ := previousVersion_eq_some hr.previous
  have hkey : (restoredWorld B now marker v bytes w).files (B.archivePlace v.name v.versionId) = some bytes :=
    (update_of_ne (fun h => place_ne_archivePlace h.symm) ..).trans hr.bytes
  obtain ⟨u, hu, _, hu'⟩ := (hma (objectVersionStorageKey B.id v.name v.versionId)).mp (isSome_iff_exists.mpr ⟨bytes, hkey⟩)
  obtain ⟨⟨hmem, hid⟩, _⟩ := mem_restoredWorld.mp hu
  have hpl : B.archivePlace u.name u.versionId = B.archivePlace v.name v.versionId := congrArg (Prod.mk _) hu'.symm
  exact hid (congrArg VersionRow.id (hso.archivePlace_inj hmem hv hpl))

theorem clean_iff_keysMatch (hso : Sound B w) (h : KeysMatch B w) (op) : Clean B w op ↔ KeysMatch B (perform B w op) := by
  cases op with
  | write now name r => exact keysMatch_settled hso h (authorizeAction_settled B now name r w)
  | deleteVersion now name versionId o =>
    rcases deleteExactVersion_cases B now name versionId o w with ⟨htrs, hno⟩ | ⟨marker, v, bytes, hr, heq⟩
    · exact iff_of_true hno (h.trims hso htrs)
    · simp only [perform, heq]
      exact iff_of_false (fun hall => hall marker v bytes hr) (not_keysMatch_restored hso hr)
  | cleanup now rules o => exact iff_of_true trivial (h.trims hso (cleanupRules_trims hso.toRows))
  | purge deleted => exact iff_of_true trivial (h.trims hso (purgeRows_trims deleted hso.toRows hso.ids (fun _ hv => hv) 0))

/-! ## 鍵の中身 -/

def CurrentAt (B : Bucket) (w : World) (name id : String) (bytes : Bytes) : Prop :=
  ∃ row, w.tables.objects name = some row ∧ row.version = id ∧ w.files (B.place name) = some bytes

structure History (B : Bucket) (seen : String → String → Bytes → Prop) (w : World) : Prop where
  current : ∀ name id bytes, CurrentAt B w name id bytes → seen name id bytes
  archived : ∀ v ∈ w.tables.versions, v.isDeleteMarker = false →
    ∀ bytes, w.files (B.archivePlace v.name v.versionId) = some bytes → seen v.name v.versionId bytes
  issued : ∀ name id bytes, seen name id bytes → Issued B w.issued id
  unique : ∀ name id bytes bytes', seen name id bytes → seen name id bytes' → bytes = bytes'

variable {seen : String → String → Bytes → Prop}

theorem History.extend (h : History B seen w) (his : w.issued ≤ w'.issued)
    (hcu : ∀ name id bytes, CurrentAt B w' name id bytes → seen name id bytes ∨ ¬ Issued B w.issued id ∧ Issued B w'.issued id)
    (har : ∀ v ∈ w'.tables.versions, v.isDeleteMarker = false →
      ∀ bytes, w'.files (B.archivePlace v.name v.versionId) = some bytes → seen v.name v.versionId bytes) :
    History B (fun name id bytes => seen name id bytes ∨ CurrentAt B w' name id bytes) w' where
  current := fun _ _ _ hc => .inr hc
  archived := fun v hv hve bytes hb => .inl (har v hv hve bytes hb)
  issued := fun name id bytes hse => by
    rcases hse with hse | hc
    · exact (h.issued name id bytes hse).mono his
    · rcases hcu name id bytes hc with hse | ⟨_, hnew⟩
      · exact (h.issued name id bytes hse).mono his
      · exact hnew
  unique := fun name id bytes bytes' hse hse' => by
    have hold : ∀ b b', seen name id b → CurrentAt B w' name id b' → b = b' := fun b b' hb hc => by
      rcases hcu name id b' hc with hb' | ⟨hnew, _⟩
      · exact h.unique name id b b' hb hb'
      · exact absurd (h.issued name id b hb) hnew
    rcases hse with hse | ⟨row, hrow, _, hfi⟩ <;> rcases hse' with hse' | ⟨row', hro', hid', hfi'⟩
    · exact h.unique name id bytes bytes' hse hse'
    · exact hold bytes bytes' hse ⟨row', hro', hid', hfi'⟩
    · exact (hold bytes' bytes hse' ⟨row, hrow, ‹_›, hfi⟩).symm
    · exact some.inj (hfi.symm.trans hfi')

theorem currentAt_putObject {content} {row : Option ObjectRow} {a : World} {files : Files} {name' : String} (his : w.issued ≤ a.issued)
    (hobs : a.tables.objects = w.tables.objects) (hfis : files (B.place name') = w.files (B.place name')) (hrow : Written B name r a row)
    (hc : CurrentAt B { putObject name row a with files := update files (B.place name) content } name' id bytes) :
    CurrentAt B w name' id bytes ∨ ¬ Issued B w.issued id ∧ Issued B (a.issued + 1) id := by
  obtain ⟨stored, hsto, rfl, hfi⟩ := hc
  by_cases hna : name' = name
  · subst hna
    have hsl : update a.tables.objects name' row name' = row := update_self ..
    cases hsl.symm.trans hsto
    cases hrow with
    | stored _ _ hve _ =>
      rw [hve]
      exact .inr ⟨fun hold => hold.ne his rfl, ⟨a.issued, Nat.lt_succ_self _, rfl⟩⟩
  · have hro' : w.tables.objects name' = some stored := by
      rw [← hobs]
      exact (update_of_ne hna ..).symm.trans hsto
    have hpl : B.place name' ≠ B.place name := fun h => hna (place_inj.mp h)
    exact .inl ⟨stored, hro', rfl, hfis.symm.trans ((update_of_ne hpl ..).symm.trans hfi)⟩

theorem History.copied {current} (h : History B seen w) (hso : Sound B w) (hcos : Copies B name r w current bytes) {v}
    (hv : v ∈ w.tables.versions) (hve : v.isDeleteMarker = false)
    (hfi : (copiedWorld B name current bytes w).files (B.archivePlace v.name v.versionId) = some bytes') : seen v.name v.versionId bytes' := by
  by_cases hpl : B.archivePlace v.name v.versionId = B.archivePlace name current.version
  · obtain ⟨hna, hid⟩ := archivePlace_inj (hso.issued v hv).2.plain (hso.fresh name current hcos.current).1.plain hpl
    have hset : (copiedWorld B name current bytes w).files (B.archivePlace name current.version) = some bytes := update_self ..
    rw [hpl, hset] at hfi
    cases hfi
    rw [hna, hid]
    exact h.current _ _ _ ⟨current, hcos.current, rfl, hcos.bytes⟩
  · exact h.archived v hv hve bytes' ((update_of_ne hpl ..).symm.trans hfi)

theorem History.settled (h : History B seen w) (hso : Sound B w) (hst : Settled B now name r w w') :
    History B (fun name id bytes => seen name id bytes ∨ CurrentAt B w' name id bytes) w' := by
  have hsa : w'.tables = w.tables → w'.files (B.place name) = w.files (B.place name) →
      (∀ n, n ≠ name → w'.files (B.place n) = w.files (B.place n)) → ∀ n i b, CurrentAt B w' n i b → seen n i b := by
    rintro htas hsl hot n i b ⟨row, hrow, hid, hfi⟩
    rw [htas] at hrow
    by_cases hn : n = name
    · rw [hn, hsl] at hfi
      rw [hn] at hrow ⊢
      exact h.current name i b ⟨row, hrow, hid, hfi⟩
    · rw [hot n hn] at hfi
      exact h.current n i b ⟨row, hrow, hid, hfi⟩
  cases hst with
  | rejected htas his hfis _ => grind [h.extend, h.archived]
  | leftover htas his current bytes hcos _ hfis =>
    have hpl : ∀ n, w'.files (B.place n) = w.files (B.place n) := fun n => by
      rw [hfis]
      exact update_of_ne place_ne_archivePlace ..
    refine h.extend his (fun n i b hc => .inl (hsa htas (hpl name) (fun n _ => hpl n) n i b hc)) ?_
    intro v hv hve b hb
    rw [htas] at hv
    rw [hfis] at hb
    exact h.copied hso hcos hv hve hb
  | plain row _ hrow =>
    refine h.extend (Nat.le_succ _) (fun n i b hc => ?_) fun v hv hve b hb => ?_
    · exact (currentAt_putObject (Nat.le_refl _) rfl rfl hrow hc).imp_left (h.current n i b)
    · exact h.archived v hv hve b ((update_of_ne (fun heq => place_ne_archivePlace heq.symm) ..).symm.trans hb)
  | archived current bytes row a ha hcos _ hrow =>
    have hobs : a.tables.objects = w.tables.objects := by rw [ha, recordVersions_objects]; rfl
    have hfis : a.files = (copiedWorld B name current bytes w).files := by rw [ha, recordVersions_files]
    have his : w.issued ≤ a.issued := by
      rw [ha]
      exact Nat.le_of_lt (recordVersions_issued (w := copiedWorld B name current bytes w))
    have hfr : CurrentFresh B (copiedWorld B name current bytes w) name := hso.fresh name
    refine h.extend (Nat.le_succ_of_le his) (fun n i b hc => ?_) fun v hv hve b hb => ?_
    · have hpl : a.files (B.place n) = w.files (B.place n) := by
        rw [hfis]
        exact update_of_ne place_ne_archivePlace ..
      exact (currentAt_putObject his hobs hpl hrow hc).imp_left (h.current n i b)
    · have hco : (copiedWorld B name current bytes w).files (B.archivePlace v.name v.versionId) = some b := by
        rw [← hfis]
        exact (update_of_ne (fun heq => place_ne_archivePlace heq.symm) ..).symm.trans hb
      have hv' : v ∈ a.tables.versions := hv
      rw [ha, recordVersions_versions hfr hcos.current, mem_append] at hv'
      rcases hv' with hv' | hv'
      · exact h.copied hso hcos hv' hve hco
      · rcases mem_recorded hv' with rfl | ⟨_, rfl⟩
        · have hset : (copiedWorld B name current bytes w).files (B.archivePlace name current.version) = some bytes := update_self ..
          cases hset.symm.trans hco
          exact h.current _ _ _ ⟨current, hcos.current, rfl, hcos.bytes⟩
        · cases hve

theorem Trims.files_archive (h : Trims B w w') {place} (hfi : w'.files place = some bytes) : w.files place = some bytes := by
  induction h with
  | refl => exact hfi
  | marker _ _ _ _ ih => exact ih hfi
  | @version a _ v _ _ ih =>
    by_cases hpl : place = B.archivePlace v.name v.versionId
    · subst hpl
      have hgo : update a.files (B.archivePlace v.name v.versionId) none (B.archivePlace v.name v.versionId) = none :=
        update_self ..
      cases hgo.symm.trans hfi
    · exact ih ((update_of_ne hpl ..).symm.trans hfi)

theorem History.trims (h : History B seen w) (htrs : Trims B w w') :
    History B (fun name id bytes => seen name id bytes ∨ CurrentAt B w' name id bytes) w' := by
  refine h.extend (Nat.le_of_eq htrs.issued.symm) (fun n i b hc => .inl ?_) fun v hv hve b hb => ?_
  · obtain ⟨row, hrow, hid, hfi⟩ := hc
    rw [htrs.objects] at hrow
    rw [htrs.files_place] at hfi
    exact h.current n i b ⟨row, hrow, hid, hfi⟩
  · exact h.archived v (htrs.sublist.subset hv) hve b (htrs.files_archive hb)

theorem History.restored {versionId o marker} (h : History B seen w) (hr : Restores B name versionId o w marker v bytes) :
    History B (fun name id bytes' => seen name id bytes' ∨ CurrentAt B (restoredWorld B now marker v bytes w) name id bytes')
      (restoredWorld B now marker v bytes w) := by
  obtain ⟨hv, _, hve⟩ := previousVersion_eq_some hr.previous
  refine h.extend (Nat.le_refl _) (fun n i b hc => .inl ?_) fun u hu huv b hb => ?_
  · obtain ⟨row, hrow, hid, hfi⟩ := hc
    by_cases hn : n = v.name
    · subst hn
      have hsl : (restoredWorld B now marker v bytes w).tables.objects v.name = some (restoredRow now v) := update_self ..
      have hset : (restoredWorld B now marker v bytes w).files (B.place v.name) = some bytes := update_self ..
      cases hsl.symm.trans hrow
      cases hset.symm.trans hfi
      rw [← hid]
      exact h.archived v hv hve bytes hr.bytes
    · have hpl : B.place n ≠ B.place v.name := fun heq => hn (place_inj.mp heq)
      exact h.current n i b ⟨row, (update_of_ne hn ..).symm.trans hrow, hid, (update_of_ne hpl ..).symm.trans hfi⟩
  · have hmem := (mem_restoredWorld.mp hu).1.1
    exact h.archived u hmem huv b ((update_of_ne (fun heq => place_ne_archivePlace heq.symm) ..).symm.trans hb)

theorem History.perform (h : History B seen w) (hso : Sound B w) (op) :
    History B (fun name id bytes => seen name id bytes ∨ CurrentAt B (perform B w op) name id bytes) (perform B w op) := by
  cases op with
  | write now name r => exact h.settled hso (authorizeAction_settled B now name r w)
  | deleteVersion now name versionId o =>
    rcases deleteExactVersion_cases B now name versionId o w with ⟨htrs, _⟩ | ⟨marker, v, bytes, hr, heq⟩
    · exact h.trims htrs
    · simp only [StorageVersions.perform, heq]
      exact h.restored hr
  | cleanup now rules o => exact h.trims (cleanupRules_trims hso.toRows)
  | purge deleted => exact h.trims (purgeRows_trims deleted hso.toRows hso.ids (fun _ hv => hv) 0)

/-! ## 走行 -/

def Held (B : Bucket) (w : World) (ops : List Operation) (name id : String) (bytes : Bytes) : Prop :=
  ∃ before after, ops = before ++ after ∧ CurrentAt B (run (perform B) w before) name id bytes

/-- 鍵は印でない行とちょうど対応し、中身は、その版が今の版だったときのただ一つの中身である。 -/
def ArchiveMatches (B : Bucket) (w : World) (ops : List Operation) : Prop :=
  KeysMatch B (run (perform B) w ops) ∧ ∀ v ∈ (run (perform B) w ops).tables.versions, v.isDeleteMarker = false →
      ∃ bytes, (run (perform B) w ops).files (B.archivePlace v.name v.versionId) = some bytes ∧
        ∀ bytes', Held B w ops v.name v.versionId bytes' ↔ bytes' = bytes

theorem Held.cons {op ops} :
    Held B w (op :: ops) name id bytes ↔ CurrentAt B w name id bytes ∨ Held B (perform B w op) ops name id bytes := by
  constructor
  · rintro ⟨before, after, hsp, hc⟩
    cases before with
    | nil => exact .inl hc
    | cons e before =>
      obtain ⟨rfl, hta⟩ := cons.inj hsp
      exact .inr ⟨before, after, hta, hc⟩
  · rintro (hc | ⟨before, after, rfl, hc⟩)
    · exact ⟨[], _, rfl, hc⟩
    · exact ⟨op :: before, after, rfl, hc⟩

theorem History.after (h : History B seen w) (hso : Sound B w) (ops) :
    History B (fun name id bytes => seen name id bytes ∨ Held B w ops name id bytes) (run (StorageVersions.perform B) w ops) := by
  induction ops generalizing w seen with
  | nil =>
    refine ⟨fun n i b hc => .inr ⟨[], [], rfl, hc⟩, fun v hv hve b hb => .inl (h.archived v hv hve b hb), ?_, ?_⟩
    · rintro n i b (hse | ⟨before, after, hsp, hc⟩)
      · exact h.issued n i b hse
      · obtain ⟨rfl, rfl⟩ := append_eq_nil_iff.mp hsp.symm
        exact h.issued n i b (h.current n i b hc)
    · have hold : ∀ n i b, seen n i b ∨ Held B w [] n i b → seen n i b := by
        rintro n i b (hse | ⟨before, after, hsp, hc⟩)
        · exact hse
        · obtain ⟨rfl, rfl⟩ := append_eq_nil_iff.mp hsp.symm
          exact h.current n i b hc
      exact fun n i b b' hb hb' => h.unique n i b b' (hold n i b hb) (hold n i b' hb')
  | cons op ops ih =>
    have hnx := ih (h.perform hso op) (hso.perform op)
    have hse : (fun n i b => seen n i b ∨ Held B w (op :: ops) n i b) =
        fun n i b => (seen n i b ∨ CurrentAt B (StorageVersions.perform B w op) n i b) ∨ Held B (StorageVersions.perform B w op) ops n i b := by
      funext n i b
      rw [Held.cons, eq_iff_iff]
      have hc := h.current n i b
      have hnow : CurrentAt B (StorageVersions.perform B w op) n i b → Held B (StorageVersions.perform B w op) ops n i b :=
        fun hc => ⟨[], ops, rfl, hc⟩
      tauto
    rw [hse]
    exact hnx

structure Unversioned (B : Bucket) (w : World) : Prop where
  versions : w.tables.versions = []
  archive : ∀ key, w.files (storageVersionBucket, key) = none
  issued : ∀ name row, w.tables.objects name = some row → Issued B w.issued row.version

section

variable (h : Unversioned B w)

include h

theorem Unversioned.sound : Sound B w := by
  refine ⟨⟨?_, ?_, ?_⟩, fun name row hrow => ⟨h.issued name row hrow, ?_⟩⟩ <;> simp [h.versions]

theorem Unversioned.keysMatch : KeysMatch B w := by
  intro key
  simp [h.archive, h.versions]

theorem Unversioned.history : History B (CurrentAt B w) w where
  current := fun _ _ _ hc => hc
  archived := by simp [h.versions]
  issued := by
    rintro name _ _ ⟨row, hrow, rfl, _⟩
    exact h.issued name row hrow
  unique := by
    rintro _ _ _ _ ⟨_, _, _, hfi⟩ ⟨_, _, _, hfi'⟩
    exact some.inj (hfi.symm.trans hfi')

theorem Unversioned.archiveMatches {ops : List Operation} (hke : KeysMatch B (run (perform B) w ops)) : ArchiveMatches B w ops := by
  refine ⟨hke, fun v hv hve => ?_⟩
  have hhi := h.history.after h.sound ops
  have hhe : ∀ b, CurrentAt B w v.name v.versionId b ∨ Held B w ops v.name v.versionId b → Held B w ops v.name v.versionId b := by
    rintro b (hc | hhe)
    · exact ⟨[], ops, rfl, hc⟩
    · exact hhe
  obtain ⟨bytes, hbys⟩ := isSome_iff_exists.mp ((hke _).mpr ⟨v, hv, hve, rfl⟩)
  have hbys : (run (perform B) w ops).files (B.archivePlace v.name v.versionId) = some bytes := hbys
  have hse := hhi.archived v hv hve bytes hbys
  refine ⟨bytes, hbys, fun bytes' => ⟨fun hhe' => ?_, fun heq => ?_⟩⟩
  · exact hhi.unique _ _ _ _ (.inr hhe') hse
  · rw [heq]
    exact hhe bytes hse

end

end Supacloud.StorageVersions
