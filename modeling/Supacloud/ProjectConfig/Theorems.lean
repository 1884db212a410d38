import Supacloud.ProjectConfig.Lemmas.Scaling

/-!
# プロジェクトの設定の主な結果
-/

namespace Supacloud.ProjectConfig

open Library

/-! ## プレビューの受領書 -/

/-- どの走行でも、プレビューは重ならず、なくならず、同じ `expected` で同じプレビューを書けるのは一度だけである。 -/
theorem previews_never_lost (projectRef : Text) (row : Option Column) (hrow : Sound row) (events : List Event) :
    (∀ before after, events = before ++ after → (previewIds (run (step projectRef) row before)).Nodup) ∧
    (∀ before event after, events = before ++ event :: after →
      Effect projectRef (run (step projectRef) row before) (run (step projectRef) row (before ++ [event])) event) ∧
    (∀ before middle after, events = before ++ (middle ++ after) →
      Kept (run (step projectRef) row before) (run (step projectRef) row (before ++ middle))) ∧
    ∀ before first middle second after input input' expected, events = before ++ first :: (middle ++ second :: after) →
      Assoc.get "preview_id" input = Assoc.get "preview_id" input' →
      first.Writes projectRef (run (step projectRef) row before) input expected →
      ¬ second.Writes projectRef (run (step projectRef) row (before ++ first :: middle)) input' expected := by
  refine ⟨fun before after _ => (sound_run hrow).ids, ?_, ?_, ?_⟩
  · intro before event after _
    rw [run_append]
    exact effect_step projectRef event (sound_run hrow)
  · intro before middle after _
    rw [run_append]
    exact kept_run projectRef middle (sound_run hrow)
  · intro before first middle second after input input' expected _ hsa hfi hse
    have hso : Sound (run (step projectRef) row before) := sound_run hrow
    rw [run_append, run_cons] at hse
    exact not_writes_again hso hsa hfi hse

def demo : Text := .other "demo"

def ofMs (ms : ℕ) (h : ms ≤ 8640000000000000) : Date := ⟨ms, h⟩

def created (status : String) : Object :=
  [("schema", .text schema), ("preview_id", .text (.other "0123abcd")), ("project_ref", .text demo), ("status", .text (.other status)),
    ("created_at", .text (.date (ofMs 7 (by decide)))), ("updated_at", .text (.date (ofMs 7 (by decide))))]

def createdThenCleaned : List Event :=
  [.persistApplicationPreview (created "ready") none (ofMs 7 (by decide)) true,
    .replaceProjectConfig [("owner_setting", .text (.other "after")), ("application_previews", .array [])] true,
    .persistApplicationPreview (created "cleaned") (some (.date (ofMs 7 (by decide)))) (ofMs 5 (by decide)) true]

theorem previews_never_lost_created_then_cleaned : ∃ new, previewOf (.other "0123abcd") (run (step demo) (some .null) createdThenCleaned) = some new ∧
    Assoc.get "status" new = some (.text (.other "cleaned")) ∧ Follows (created "ready") new := by
  have hrow : Sound (some .null) := ⟨by simp [previewIds, previews, storedConfig, previewsIn, Assoc.get], nofun⟩
  obtain ⟨-, -, hke, -⟩ := previews_never_lost demo (some .null) hrow createdThenCleaned
  have hfi : previewOf (.other "0123abcd") (run (step demo) (some .null) (createdThenCleaned.take 1)) = some (created "ready") := by rfl
  have hla : (previewOf (.other "0123abcd") (run (step demo) (some .null) createdThenCleaned)).bind (Assoc.get "status") =
      some (.text (.other "cleaned")) := by rfl
  obtain ⟨new, hnew, hlat⟩ := hke (createdThenCleaned.take 1) (createdThenCleaned.drop 1) [] rfl _ _ hfi
  have hne' : previewOf (.other "0123abcd") (run (step demo) (some .null) createdThenCleaned) = some new := hnew
  rw [hne', Option.bind_some] at hla
  obtain rfl | hfos := hlat
  · simp [created, Assoc.get] at hla
  · exact ⟨new, hne', hla, hfos⟩

/-! ## 拡縮 -/

namespace Scaling

/-- 読んだ文書が書くときまで変わらない走行では、ほかの書き手のキーと、加わったレプリカが残り、取り除いたレプリカは残らない。 -/
theorem scaling_keeps_config (ref : String) (column : Column) (events : List Event)
    (h : Along World.step World.WritesCurrent (World.start ref column) events) :
    ∀ before after, events = before ++ after → (run World.step (World.start ref column) before).Reflected := by
  intro before after hsp
  rw [hsp, Along.append] at h
  exact (h.1.invariant (I := fun w => w.Reflected ∧ w.Listed) (fun _ _ hw hcu => step_reflected hw hcu) ⟨reflected_start, listed_start⟩).1

def accepted : Answer := ⟨true, none, ofMs 7 (by decide), fun _ => .other "r-1"⟩

def writtenThenScaled : List Event :=
  [.write "owner" (some (text "after")), .call (.horizontalScale "10.0.0.7" (.other "local")), .proceed 0 accepted, .proceed 0 accepted,
    .proceed 0 accepted, .proceed 0 accepted, .proceed 0 accepted, .proceed 0 accepted]

theorem scaling_keeps_config_in_turn : (run World.step (World.start "demo" (.object [])) writtenThenScaled).Reflected := by
  refine scaling_keeps_config "demo" (.object []) writtenThenScaled ?_ writtenThenScaled [] (by simp)
  have hcu : ∀ config, Current (some (.object config)) config ∧ SameReplicas (some (.object config)) (liveIds config) fun _ => True := by
    intro config
    constructor
    · intro column hco
      cases hco
      exact ⟨fun _ _ => rfl, .inl ⟨config, rfl⟩⟩
    · intro column hco
      cases hco
      exact fun _ _ => Iff.rfl
  refine ⟨trivial, trivial, trivial, trivial, fun _ => hcu [("owner", text "after")], trivial, trivial, ⟨?_, ?_⟩, trivial⟩
  · intro column hco
    cases hco
    refine ⟨?_, .inl ⟨_, rfl⟩⟩
    intro key hkey
    show Assoc.get key [("owner", text "after")] = Assoc.get key [("owner", text "after"), ("read_replicas", _)]
    simp only [Assoc.get]
    simp_all [eq_comm]
  · intro column hco
    cases hco
    exact fun _ _ => Iff.rfl

def readThenWritten : List Event :=
  [.call (.horizontalScale "10.0.0.7" (.other "local")), .proceed 0 accepted, .proceed 0 accepted, .write "owner" (some (text "after")),
    .proceed 0 accepted, .proceed 0 accepted, .proceed 0 accepted, .proceed 0 accepted]

theorem scaling_loses_owner : (run World.step (World.start "demo" (.object [])) readThenWritten).AllFinished ∧
    ¬ (run World.step (World.start "demo" (.object [])) readThenWritten).Reflected := by
  have hcas : (run World.step (World.start "demo" (.object [])) readThenWritten).calls =
      [⟨.horizontalScale "10.0.0.7" (.other "local"), .finished none⟩] := by rfl
  have hrow : ((run World.step (World.start "demo" (.object [])) readThenWritten).row.map fun column =>
      (Assoc.get "owner" (normalizeProjectConfig column)).isSome) = some false := by rfl
  have hots : (run World.step (World.start "demo" (.object [])) readThenWritten).others = [("owner", text "after")] := by rfl
  constructor
  · intro call hca
    rw [hcas, List.mem_singleton] at hca
    exact ⟨none, by rw [hca]⟩
  · intro h
    obtain ⟨column, hco, how⟩ := Option.map_eq_some_iff.mp hrow
    rw [(h column hco).1 "owner" (by decide) (by decide), hots] at how
    cases how

end Scaling

end Supacloud.ProjectConfig
