import Supacloud.StorageVersions.Lemmas.Archive
import Supacloud.StorageVersions.Lemmas.Commits
import Supacloud.StorageVersions.Lemmas.Timeline

/-!
# 版を残すバケットの定理
-/

namespace Supacloud.StorageVersions

open Library

def sampleUuid (n : ℕ) : String :=
  String.ofList ("00000000-0000-4000-8000-".toList ++ (List.replicate n 'f' ++ List.replicate (12 - n) '0'))

theorem sampleUuid_toList (n) :
    (sampleUuid n).toList = "00000000-0000-4000-8000-".toList ++ (List.replicate n 'f' ++ List.replicate (12 - n) '0') :=
  String.toList_ofList

theorem sampleUuid_injective : Function.Injective sampleUuid := by
  intro m n h
  have hco := congrArg (fun s : String => s.toList.count 'f') h
  simpa [sampleUuid_toList, List.count_replicate] using hco

theorem sampleUuid_plain (n) : '/' ∉ (sampleUuid n).toList := by
  simp [sampleUuid_toList]

def photos : Bucket where
  id := "photos"
  versioning := .enabled
  visible := by decide
  uuid := sampleUuid
  unique := sampleUuid_injective
  plain := sampleUuid_plain

def emptyWorld : World := { tables := { objects := fun _ => none, versions := [] }, files := fun _ => none, issued := 0 }

def note (text : String) : Metadata := { fields := [("mimetype", text)], userMetadata := none }

def allowed : Policies := { select := true, insert := true, update := true, delete := true, archive := true }

def working : Outcomes := { ensured := true, copied := true, physical := true }

def upload (upsert : Bool) (text : String) (bytes : Bytes) : Request :=
  { action := .upload upsert, owner := none, metadata := note text, bytes := bytes, policies := allowed, outcomes := working }

theorem object_agrees (B : Bucket) (name : String) {s : Commits} (hidle : s.Idle) (hagrees : s.Agrees B name) (es : List CommitEvent)
    (h : Along (commitStep B name) (Commits.Safe B name) s es) :
    ∀ before after, es = before ++ after → (run (commitStep B name) s before).Idle → (run (commitStep B name) s before).Agrees B name := by
  intro before after hsp hid'
  rw [hsp, Along.append] at h
  exact (Commits.inv_run (hagrees.inv hidle) h.1).agrees hid'

def emptyCommits : Commits := { world := emptyWorld, holder := none, compensations := [], writer := none }

def retried : List CommitEvent :=
  [.acquire 1 (upload false "image/png" [1]), .write none, .abort, .compensate 0 true,
    .acquire 2 (upload true "image/gif" [2]), .write none, .commit]

theorem object_agrees_retried : (run (commitStep photos "a.png") emptyCommits retried).Agrees photos "a.png" := by
  have hagrees : emptyCommits.Agrees photos "a.png" := ⟨by simp [emptyCommits, emptyWorld], nofun⟩
  have hsa : Along (commitStep photos "a.png") (Commits.Safe photos "a.png") emptyCommits retried := by decide
  exact object_agrees photos "a.png" ⟨rfl, rfl⟩ hagrees retried hsa retried [] (by simp) ⟨rfl, rfl⟩

def aborted : List CommitEvent := [.acquire 1 (upload true "image/png" [1]), .write none, .abort]

def overtaken : List CommitEvent :=
  [.acquire 1 (upload false "image/png" [1]), .write none, .abort,
    .acquire 2 (upload false "image/gif" [2]), .write none, .commit, .compensate 0 true]

theorem object_disagrees_aborted :
    ¬ (∀ before after, aborted = before ++ after → (run (commitStep photos "a.png") emptyCommits before).Idle →
        (run (commitStep photos "a.png") emptyCommits before).Agrees photos "a.png") ∧
      ¬ (∀ before after, overtaken = before ++ after → (run (commitStep photos "a.png") emptyCommits before).Idle →
        (run (commitStep photos "a.png") emptyCommits before).Agrees photos "a.png") := by
  constructor
  · intro h
    have hfi := (h aborted [] (by simp) ⟨rfl, rfl⟩).1.mp (by decide)
    exact absurd hfi (by decide)
  · intro h
    have hfi := (h overtaken [] (by simp) ⟨rfl, rfl⟩).1.mpr (by decide)
    exact absurd hfi (by decide)

/-! ## 版の履歴 -/

def Timeline.begin_ (w : World) (clock : ℕ) : Timeline := { world := w, clock := clock, waiting := [] }

/-- 時刻の順が置き換わった順である走行では、最後の削除の印を除くと、直前の版が戻る。 -/
theorem history_restored (B : Bucket) (name : String) {w : World} (h : Unversioned B w) (clock : ℕ) (es : List TimelineEvent)
    (horder : Along (timelineStep B) (InOrder B name) (.begin_ w clock) es) : ∀ before after, es = before ++ after →
      RestoresLatest B name (.begin_ w clock) before ∧ HistoryOrdered B name (.begin_ w clock) before := by
  intro before after hsp
  rw [hsp, Along.append] at horder
  exact ⟨restoresLatest_of h.sound horder.1, historyOrdered_of h.sound horder.1⟩

theorem emptyWorld_unversioned : Unversioned photos emptyWorld := ⟨rfl, fun _ => rfl, nofun⟩

def removal : Request :=
  { action := .delete, owner := none, metadata := note "image/gif", bytes := [], policies := allowed, outcomes := working }

def inTurn : List TimelineEvent :=
  [.start (.write "a.png" (upload true "image/png" [1])), .acquire 0, .tick 1000,
    .start (.write "a.png" (upload true "image/gif" [2])), .acquire 0, .tick 1000, .start (.write "a.png" removal), .acquire 0]

theorem history_restored_in_turn : RestoresLatest photos "a.png" (.begin_ emptyWorld 0) inTurn ∧
    HistoryOrdered photos "a.png" (.begin_ emptyWorld 0) inTurn := by
  have hem : ∀ v ∈ (run (timelineStep photos) (.begin_ emptyWorld 0) (inTurn.take 4)).world.tables.versions, Timely 1000 (.upload true) v := by decide
  have hre : ∀ v ∈ (run (timelineStep photos) (.begin_ emptyWorld 0) (inTurn.take 7)).world.tables.versions, Timely 2000 .delete v := by decide
  have horder : Along (timelineStep photos) (InOrder photos "a.png") (.begin_ emptyWorld 0) inTurn := by
    refine ⟨trivial, ?_, trivial, trivial, ?_, trivial, trivial, ?_, trivial⟩
    · intro now r current bytes _ hcos
      cases hcos.current
    · rintro now r current bytes hwa _ _ v hv _
      cases hwa
      exact hem v hv
    · rintro now r current bytes hwa _ _ v hv _
      cases hwa
      exact hre v hv
  exact history_restored photos "a.png" emptyWorld_unversioned 0 inTurn horder inTurn [] (by simp)

def outOfTurn : List TimelineEvent :=
  [.start (.write "a.png" (upload true "image/png" [1])), .acquire 0, .tick 1, .start (.write "a.png" (upload true "image/gif" [2])),
    .tick 1, .start (.write "a.png" (upload true "image/jpeg" [3])), .acquire 1, .acquire 0]

theorem history_disordered : ¬ HistoryOrdered photos "a.png" (.begin_ emptyWorld 0) outOfTurn := by
  intro h
  have hlt := h (outOfTurn.take 7) (outOfTurn.drop 7) rfl
    (archivedRow (sampleUuid 1) "a.png" 2 { owner := none, ownerId := none, metadata := (note "image/png").stored, version := sampleUuid 0, createdAt := 0 })
    (by decide)
    (archivedRow (sampleUuid 3) "a.png" 1 { owner := none, ownerId := none, metadata := (note "image/jpeg").stored, version := sampleUuid 2, createdAt := 0 })
    (by decide) (by decide) (by decide) rfl rfl rfl rfl
  exact absurd hlt (by decide)

/-- 版の鍵が版の行と対応するのは、版を写した書き込みが拒まれず、印の取り除きが版を戻さないとき、そのときに限る。 -/
theorem archive_matches (B : Bucket) {w : World} (h : Unversioned B w) (ops : List Operation) :
    Along (perform B) (Clean B) w ops ↔ ∀ before after, ops = before ++ after → ArchiveMatches B w before := by
  have hke := along_iff_forall (C := Clean B) (I := KeysMatch B) (J := Sound B) (perform B) ops (fun _ op hso => hso.perform op)
    (fun _ op hso hke => clean_iff_keysMatch hso hke op) h.sound h.keysMatch
  rw [hke]
  constructor
  · intro hall before after hsp
    exact h.archiveMatches (hall before after hsp)
  · intro hall before after hsp
    exact (hall before after hsp).1

def replaced : List Operation :=
  [.write 1 "a.png" (upload true "image/png" [1]), .write 2 "a.png" (upload true "image/gif" [2]), .write 3 "a.png" removal]

theorem archive_matches_replaced : Along (perform photos) (Clean photos) emptyWorld replaced ∧
    ∀ before after, replaced = before ++ after → ArchiveMatches photos emptyWorld before := by
  have hcl : Along (perform photos) (Clean photos) emptyWorld replaced := ⟨fun _ _ _ => rfl, fun _ _ _ => rfl, fun _ _ _ => rfl, trivial⟩
  exact ⟨hcl, (archive_matches photos emptyWorld_unversioned replaced).mp hcl⟩

def refused : List Operation := [.write 1 "a.png" (upload true "image/png" [1]), .write 2 "a.png" (upload false "image/gif" [2])]

theorem archive_left_behind : ¬ ArchiveMatches photos emptyWorld refused := by
  rintro ⟨hke, _⟩
  obtain ⟨v, hv, _⟩ := (hke (objectVersionStorageKey "photos" "a.png" (sampleUuid 0))).mp (by decide)
  cases hv

/-- 書き込み、版の削除、後始末、空にする処理がどう続いても、残した版の保存先は重ならず、今の版は残した版の中にない。 -/
theorem archive_places_distinct (B : Bucket) {w : World} (h : Unversioned B w) (ops : List Operation) :
    let w' := run (perform B) w ops
    (w'.tables.versions.map fun v => B.archivePlace v.name v.versionId).Nodup ∧ ∀ name, CurrentFresh B w' name := by
  intro w'
  have hso : Sound B w' := run_invariant (fun _ op hso => hso.perform op) h.sound
  exact ⟨(List.Nodup.of_map _ hso.ids).map_on fun u hu v hv hpl => hso.toRows.archivePlace_inj hu hv hpl, hso.fresh⟩

theorem archive_places_distinct_replaced : ((run (perform photos) emptyWorld replaced).tables.versions.map fun v =>
    photos.archivePlace v.name v.versionId).Nodup :=
  (archive_places_distinct photos emptyWorld_unversioned replaced).1

end Supacloud.StorageVersions
