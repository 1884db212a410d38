import Supacloud.Library.Runs
import Supacloud.ProjectConfig.Lemmas.Previews

/-! # 受領書の一歩と走行 -/

namespace Supacloud.ProjectConfig

open Library Assoc Option

variable {projectRef k : Text} {input receipt updated config old new : Object} {expected : Option Text} {now : Date} {row : Option Column}
  {event : Event} {events : List Event} {column : Column} {key : String}

structure Follows (old new : Object) : Prop where
  applicationId : Assoc.get "application_id" new = Assoc.get "application_id" old
  environmentId : Assoc.get "environment_id" new = Assoc.get "environment_id" old
  releaseId : Assoc.get "release_id" new = Assoc.get "release_id" old
  createdAt : Assoc.get "created_at" new = Assoc.get "created_at" old
  expiresAt : (Assoc.get "expires_at" new).getD .null = (Assoc.get "expires_at" old).getD .null
  cleaned : Assoc.get "status" old = some (.text (.other "cleaned")) → Assoc.get "status" new = some (.text (.other "cleaned"))
  updatedAt : ∃ t t' : Date, timestamp (Assoc.get "updated_at" old) = some t ∧ timestamp (Assoc.get "updated_at" new) = some t' ∧ t.ms < t'.ms

theorem Follows.trans {newer} (h : Follows old new) (h' : Follows new newer) : Follows old newer where
  applicationId := h'.applicationId.trans h.applicationId
  environmentId := h'.environmentId.trans h.environmentId
  releaseId := h'.releaseId.trans h.releaseId
  createdAt := h'.createdAt.trans h.createdAt
  expiresAt := h'.expiresAt.trans h.expiresAt
  cleaned := fun hold => h'.cleaned (h.cleaned hold)
  updatedAt := by
    obtain ⟨t₁, t₂, h₁, h₂, hlt⟩ := h.updatedAt
    obtain ⟨t₃, t₄, h₃, h₄, hlt'⟩ := h'.updatedAt
    rw [h₂] at h₃
    cases h₃
    exact ⟨t₁, t₄, h₁, h₄, Int.lt_trans hlt hlt'⟩

structure Persisted (row row' : Option Column) (input : Object) (expected : Option Text) : Prop where
  written : ∃ k receipt, Assoc.get "preview_id" input = some (.text k) ∧ (match expected with
      | none => previewOf k row = none
      | some token => (previewOf k row).bind (Assoc.get "updated_at") = some (.text token)) ∧
    previewOf k row' = some receipt ∧ (∀ key, key ≠ "updated_at" → Assoc.get key receipt = Assoc.get key input) ∧
    (timestamp (Assoc.get "updated_at" receipt)).isSome ∧ (∀ old, previewOf k row = some old → Follows old receipt) ∧
    ∀ k', k' ≠ k → previewOf k' row' = previewOf k' row
  ids : (previewIds row').Nodup
  keys : ∀ key, key ≠ "application_previews" → valueOf key row' = valueOf key row

structure Sound (row : Option Column) : Prop where
  ids : (previewIds row).Nodup
  encoded : ∀ parsed parsedTrimmed, row = some (.encoded parsed parsedTrimmed) → previews row = []

/-! ## 一回の書き込み -/

theorem persist_ok (h : persistApplicationPreview projectRef input expected now row = .ok (receipt, updated)) :
    ∃ column config found time, row = some column ∧ receiptValid projectRef input expected = true ∧ storedConfig column = .ok config ∧
      readPreviews projectRef config = .ok found ∧ tokenChanged (found.find? (samePreview input)) expected = false ∧
      (found.find? (samePreview input)).any (identityChanged input) = false ∧ nextUpdatedAt input now expected = some time ∧
      receipt = Object.set "updated_at" (.text (.date time)) input ∧
      updated = Object.set "application_previews" (.array ((nextPreviews (found.findIdx? (samePreview input)) receipt found).map .object)) config := by
  unfold persistApplicationPreview at h
  split at h
  · rename_i hva
    cases row with
    | none => cases h
    | some column =>
      dsimp only at h
      cases hco : storedConfig column with
      | error e =>
        rw [hco] at h
        cases h
      | ok config =>
        rw [hco] at h
        dsimp only at h
        cases hfo : readPreviews projectRef config with
        | error e =>
          rw [hfo] at h
          cases h
        | ok found =>
          rw [hfo] at h
          dsimp only at h
          rw [current_eq] at h
          split at h
          · cases h
          · grind
  · cases h

theorem previews_some (h : storedConfig column = .ok config) : previews (some column) = previewsIn config := by
  simp [previews, h]

theorem previews_object : previews (some (.object config)) = previewsIn config := rfl

theorem valueOf_some (h : storedConfig column = .ok config) : valueOf key (some column) = get key config := by
  simp [valueOf, h]

theorem previewsIn_set {items} : previewsIn (Object.set "application_previews" (.array (items.map .object)) config) = items := by
  unfold previewsIn
  rw [get_set, if_pos rfl]
  simp only [List.filterMap_map]
  exact List.filterMap_some

theorem lt_nextUpdatedAt {time token} (h : nextUpdatedAt input now (some token) = some time) : ∃ t, token = .date t ∧ t.ms < time.ms := by
  unfold nextUpdatedAt at h
  obtain ⟨t, ht, hms⟩ := bind_eq_some_iff.mp h
  have hda := timestamp_eq_some.mp ht
  cases hda
  have := ofMs_ms hms
  exact ⟨t, rfl, by omega⟩

theorem follows_of_same {time token} (h : identityChanged input old = false)
    (hti : nextUpdatedAt input now (some token) = some time) (hto : get "updated_at" old = some (.text token)) :
    Follows old (Object.set "updated_at" (.text (.date time)) input) := by
  unfold identityChanged at h
  simp only [Bool.or_eq_false_iff, Bool.not_eq_false', Bool.and_eq_false_iff] at h
  obtain ⟨⟨⟨⟨⟨hap, hen⟩, hrl⟩, hcr⟩, hexs⟩, hcl⟩ := h
  obtain ⟨t, rfl, hlt⟩ := lt_nextUpdatedAt hti
  constructor
  · simp [eq_of_strictEq hap]
  · simp [eq_of_strictEq hen]
  · simp [eq_of_strictEq hrl]
  · simp [eq_of_strictEq hcr]
  · have hex' := some.inj (eq_of_strictEq hexs)
    simp [hex']
  · grind [get_set, strictEq_text]
  · exact ⟨t, time, by rw [hto]; rfl, by rw [get_set, if_pos rfl]; rfl, hlt⟩

theorem persisted_of_ok (h : persistApplicationPreview projectRef input expected now row = .ok (receipt, updated)) :
    Persisted row (some (.object updated)) input expected := by
  obtain ⟨column, config, found, time, rfl, hva, hco, hfo, hto, hide, hti, rfl, rfl⟩ := persist_ok h
  obtain ⟨hpr, hnd, hall⟩ := readPreviews_ok hfo
  obtain ⟨k, hk⟩ : ∃ k, get "preview_id" input = some (.text k) := by
    unfold receiptValid at hva
    simp only [Bool.and_eq_true] at hva
    exact text_of_isPreviewId hva.1.1.1.1.2
  have hre : get "preview_id" (Object.set "updated_at" (.text (.date time)) input) = some (.text k) := by simp [hk]
  have hbe : previews (some column) = found := (previews_some hco).trans hpr
  rw [samePreview_eq hk] at hto hide
  constructor
  · refine ⟨k, Object.set "updated_at" (.text (.date time)) input, hk, ?_, ?_, ?_, ?_, ?_, ?_⟩
    · unfold previewOf
      rw [hbe]
      cases expected with
      | none | some token =>
        unfold tokenChanged at hto
        simpa using hto
    · unfold previewOf
      rw [previews_object, previewsIn_set, find?_nextPreviews hk hre]
    · intro key hkey
      rw [get_set, if_neg hkey]
    · rw [get_set, if_pos rfl]
      rfl
    · intro old hold
      unfold previewOf at hold
      rw [hbe] at hold
      rw [hold] at hide hto
      cases expected with
      | none =>
        unfold tokenChanged at hto
        cases hto
      | some token =>
        unfold tokenChanged at hto
        exact follows_of_same hide hti (by simpa using hto)
    · intro k' hne
      unfold previewOf
      rw [previews_object, previewsIn_set, hbe, find?_nextPreviews_other hk hre hne]
  · unfold previewIds
    rw [previews_object, previewsIn_set]
    exact nodup_nextPreviews hk hre hnd
  · intro key hkey
    rw [valueOf_some hco, valueOf_some (show storedConfig (.object (Object.set _ _ config)) = .ok _ from rfl), get_set, if_neg hkey]

/-! ## 置き換え -/

theorem get_keepFromRow {key' next} (hne : key' ≠ key) : get key' (keepFromRow key column next) = get key' next := by
  unfold keepFromRow
  cases column with
  | object fields =>
    dsimp only
    split
    · rw [get_set, if_neg hne]
    · rfl
  | _ => rfl

theorem get_keepFromRow_self {fields next} :
    get key (keepFromRow key (.object fields) next) = (get key fields).or (get key next) := by
  unfold keepFromRow
  cases h : get key fields with
  | none | some value => simp [h]

theorem previews_replaceProjectConfig (h : Sound row) : previews (replaceProjectConfig config row) = previews row := by
  cases row with
  | none => rfl
  | some column =>
    unfold replaceProjectConfig
    rw [previews_object]
    cases column with
    | object fields =>
      rw [previews_object]
      unfold previewsIn
      rw [get_keepFromRow_self, get_keepFromRow (by decide), get_erase, if_pos rfl, or_none]
    | encoded parsed parsedTrimmed =>
      rw [h.encoded parsed parsedTrimmed rfl]
      simp [previewsIn, keepFromRow, get_erase]
    | null => simp [previewsIn, keepFromRow, Assoc.get_erase, previews, storedConfig, Assoc.get]
    | other => simp [previewsIn, keepFromRow, get_erase, previews, storedConfig]

/-! ## 一歩と走行 -/

def Event.Writes (projectRef : Text) (row : Option Column) (input : Object) (expected : Option Text) (event : Event) : Prop :=
  ∃ now receipt updated, event = .persistApplicationPreview input expected now true ∧
    ProjectConfig.persistApplicationPreview projectRef input expected now row = .ok (receipt, updated)

inductive Effect (projectRef : Text) (row row' : Option Column) : Event → Prop where
  | persisted (input : Object) (expected : Option Text) (now : Date)
      (hok : Event.Writes projectRef row input expected (.persistApplicationPreview input expected now true))
      (h : Persisted row row' input expected) : Effect projectRef row row' (.persistApplicationPreview input expected now true)
  | failed (input : Object) (expected : Option Text) (now : Date) (committed : Bool)
      (herror : ¬ Event.Writes projectRef row input expected (.persistApplicationPreview input expected now committed)) (h : row' = row) :
      Effect projectRef row row' (.persistApplicationPreview input expected now committed)
  | replaced (config : Object) (committed : Bool) (h : previews row' = previews row) :
      Effect projectRef row row' (.replaceProjectConfig config committed)

theorem effect_step (projectRef event) (h : Sound row) : Effect projectRef row (step projectRef row event) event := by
  cases event with
  | persistApplicationPreview input expected now committed =>
    cases committed with
    | false =>
      refine .failed _ _ _ _ ?_ rfl
      rintro ⟨_, _, _, heq, -⟩
      cases heq
    | true =>
      cases hok : persistApplicationPreview projectRef input expected now row with
      | error e =>
        refine .failed _ _ _ _ ?_ (by simp [step, hok])
        rintro ⟨_, _, _, heq, hwr⟩
        cases heq
        rw [hok] at hwr
        cases hwr
      | ok result =>
        obtain ⟨receipt, updated⟩ := result
        have hst : step projectRef row (.persistApplicationPreview input expected now true) = some (.object updated) := by
          simp [step, hok]
        exact .persisted _ _ _ ⟨now, receipt, updated, rfl, hok⟩ (hst ▸ persisted_of_ok hok)
  | replaceProjectConfig config committed =>
    cases committed with
    | false => exact .replaced _ _ rfl
    | true => exact .replaced _ _ (previews_replaceProjectConfig h)

theorem Sound.step (h : Sound row) : Sound (step projectRef row event) := by
  have hef := effect_step projectRef event h
  have hob : ∀ row', ProjectConfig.step projectRef row event = row' →
      row' = row ∨ row' = none ∨ ∃ fields, row' = some (.object fields) := by
    rintro row' rfl
    unfold ProjectConfig.step
    split
    · split
      · exact .inr (.inr ⟨_, rfl⟩)
      · exact .inl rfl
    · unfold replaceProjectConfig
      split
      · exact .inr (.inl rfl)
      · exact .inr (.inr ⟨_, rfl⟩)
    · exact .inl rfl
  constructor
  · cases hef with
    | persisted _ _ _ _ hpe => exact hpe.ids
    | failed _ _ _ _ _ hsa =>
      rw [hsa]
      exact h.ids
    | replaced _ _ hsa =>
      unfold previewIds
      rw [hsa]
      exact h.ids
  · grind [h.encoded]

def Kept (row row' : Option Column) : Prop :=
  ∀ k old, previewOf k row = some old → ∃ new, previewOf k row' = some new ∧ (new = old ∨ Follows old new)

theorem kept_step (projectRef event) (h : Sound row) : Kept row (step projectRef row event) := by
  intro k old hold
  have hsa : previews (step projectRef row event) = previews row → previewOf k (step projectRef row event) = some old := by
    intro heq
    unfold previewOf
    rw [heq]
    exact hold
  cases effect_step projectRef event h with
  | persisted _ _ _ _ hpe => grind [hpe.written]
  | failed _ _ _ _ _ heq => exact ⟨old, hsa (by rw [heq]), .inl rfl⟩
  | replaced _ _ heq => exact ⟨old, hsa heq, .inl rfl⟩

theorem sound_run (h : Sound row) : Sound (run (step projectRef) row events) := run_invariant (fun _ _ hso => hso.step) h

theorem kept_run (projectRef events) (h : Sound row) : Kept row (run (step projectRef) row events) := by
  induction events generalizing row with
  | nil => exact fun k old hold => ⟨old, hold, .inl rfl⟩
  | cons event events ih =>
    intro k old hold
    obtain ⟨mid, hmid, hfi⟩ := kept_step projectRef event h k old hold
    obtain ⟨new, hnew, hrs⟩ := ih h.step k mid hmid
    refine ⟨new, hnew, ?_⟩
    obtain rfl | hfi := hfi
    · exact hrs
    · obtain rfl | hrs := hrs
      · exact .inr hfi
      · exact .inr (hfi.trans hrs)

theorem Event.Writes.persisted (h : event.Writes projectRef row input expected) : Persisted row (step projectRef row event) input expected := by
  obtain ⟨now, receipt, updated, rfl, hok⟩ := h
  have hst : step projectRef row (.persistApplicationPreview input expected now true) = some (.object updated) := by simp [step, hok]
  rw [hst]
  exact persisted_of_ok hok

theorem not_writes_again {first second : Event} {input' : Object} (h : Sound row)
    (hsa : get "preview_id" input = get "preview_id" input') (hfi : first.Writes projectRef row input expected) :
    ¬ second.Writes projectRef (run (step projectRef) (step projectRef row first) events) input' expected := by
  intro hse
  obtain ⟨k, receipt, hk, hto, hre, -, -, hfos, -⟩ := hfi.persisted.written
  obtain ⟨k', receipt', hk', hto', -⟩ := hse.persisted.written
  rw [hsa, hk'] at hk
  cases hk
  obtain ⟨new, hnew, hla⟩ := kept_run projectRef events h.step k receipt hre
  rw [hnew] at hto'
  cases expected with
  | none => cases hto'
  | some token =>
    obtain ⟨old, hold, hte⟩ := bind_eq_some_iff.mp hto
    have hfo' : Follows old new := by
      obtain rfl | hla := hla
      · exact hfos old hold
      · exact (hfos old hold).trans hla
    obtain ⟨t, t', ht, ht', hlt⟩ := hfo'.updatedAt
    rw [timestamp_eq_some.mp ht] at hte
    cases hte
    rw [bind_some, timestamp_eq_some.mp ht'] at hto'
    cases hto'
    exact absurd hlt (by omega)

end Supacloud.ProjectConfig
