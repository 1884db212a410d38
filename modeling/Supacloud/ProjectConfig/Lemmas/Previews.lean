import Supacloud.ProjectConfig.Writes

/-! # 保存されたプレビューと、一件の書き込み -/

namespace Supacloud.ProjectConfig

open Library Assoc

variable {projectRef k : Text} {input config : Object} {row : Option Column} {key key' : String} {x y : Option Json}

def previewsIn (config : Object) : List Object :=
  match Assoc.get "application_previews" config with
  | some (.array items) => items.filterMap Json.fields?
  | _ => []

def previews : Option Column → List Object
  | none => []
  | some column =>
    match storedConfig column with
    | .ok config => previewsIn config
    | .error _ => []

def isPreview (previewId : Text) (item : Object) : Bool := strictEq (Assoc.get "preview_id" item) (some (.text previewId))

def previewOf (previewId : Text) (row : Option Column) : Option Object := (previews row).find? (isPreview previewId)

def previewIds (row : Option Column) : List (Option Json) := (previews row).map (Assoc.get "preview_id")

def valueOf (key : String) (row : Option Column) : Option Json :=
  match row with
  | none => none
  | some column =>
    match storedConfig column with
    | .ok config => Assoc.get key config
    | .error _ => none

/-! ## 値の性質 -/

@[simp] theorem get_set {v fields} : get key' (Object.set key v fields) = if key' = key then some v else get key' fields := by
  unfold Object.set
  rw [get_append, get_erase]
  by_cases h : key' = key
  · simp [Assoc.get, h]
  · simp [Assoc.get, h, Ne.symm h]

theorem eq_of_strictEq (h : strictEq x y = true) : x = y := by
  unfold strictEq at h
  split at h <;> simp_all

@[simp] theorem strictEq_text {t} : strictEq x (some (.text t)) = true ↔ x = some (.text t) := by
  constructor
  · exact eq_of_strictEq
  · rintro rfl
    simp [strictEq]

@[simp] theorem isPreview_iff {item} : isPreview k item = true ↔ get "preview_id" item = some (.text k) := strictEq_text

theorem timestamp_eq_some {time} : timestamp x = some time ↔ x = some (.text (.date time)) := by
  unfold timestamp
  split
  · simp
  · rename_i hx
    constructor
    · nofun
    · exact fun h => absurd h (hx time)

theorem ofMs_ms {ms time} (h : Date.ofMs ms = some time) : time.ms = ms := by
  unfold Date.ofMs at h
  split at h
  · cases h
    rfl
  · cases h

theorem text_of_isPreviewId (h : isPreviewId x = true) : ∃ k, x = some (.text k) := by
  unfold isPreviewId at h
  split at h
  · exact ⟨_, rfl⟩
  · cases h

/-! ## 保存されたプレビューの確かめ -/

theorem checkPreviews_ok {items ids found} (h : checkPreviews projectRef ids items = .ok found) :
    items.filterMap Json.fields? = found ∧ (found.map (get "preview_id")).Nodup ∧
      ∀ item ∈ found, (∃ k ∉ ids, get "preview_id" item = some (.text k)) ∧ (timestamp (get "updated_at" item)).isSome := by
  induction items generalizing ids found with
  | nil =>
    cases h
    simp
  | cons item rest ih =>
    unfold checkPreviews at h
    split at h
    · rename_i fields
      split at h
      · rename_i previewId hid
        split at h
        · cases h
        · rename_i hva
          cases hrs : checkPreviews projectRef (previewId :: ids) rest with
          | error e =>
            rw [hrs] at h
            cases h
          | ok tail =>
            rw [hrs] at h
            cases h
            obtain ⟨hits, hnd, hall⟩ := ih hrs
            simp only [Bool.or_eq_true, not_or, decide_eq_true_eq, Bool.not_eq_true, Option.isNone_eq_false_iff] at hva
            refine ⟨by simp [Json.fields?, hits], ?_, ?_⟩
            · grind
            · grind
      · cases h
    · cases h

theorem readPreviews_ok {found} (h : readPreviews projectRef config = .ok found) :
    previewsIn config = found ∧ (found.map (get "preview_id")).Nodup ∧
      ∀ item ∈ found, (∃ k, get "preview_id" item = some (.text k)) ∧ (timestamp (get "updated_at" item)).isSome := by
  unfold readPreviews at h
  unfold previewsIn
  split at h
  · rename_i hget
    cases h
    simp [hget]
  · rename_i hget
    cases h
    simp [hget]
  · grind [checkPreviews_ok]
  · cases h

/-! ## 一件の差し替え -/

section Replace

variable {α : Type} {p q : α → Bool}

theorem findIdx?_split {l i} (h : l.findIdx? p = some i) :
    ∃ before a after, l = before ++ a :: after ∧ before.length = i ∧ p a = true ∧ ∀ x ∈ before, p x = false := by
  obtain ⟨hlt, hp, hbe⟩ := List.findIdx?_eq_some_iff_getElem.mp h
  refine ⟨l.take i, l[i], l.drop (i + 1), ?_, by simp; omega, hp, ?_⟩
  · rw [List.getElem_cons_drop, List.take_append_drop]
  · intro x hx
    obtain ⟨j, hj, rfl⟩ := List.mem_iff_getElem.mp hx
    rw [List.length_take] at hj
    simpa using hbe j (by omega)

end Replace

section Next

variable {receipt : Object} {l : List Object}

theorem current_eq : ((l.findIdx? (samePreview input)).bind (l[·]?)) = l.find? (samePreview input) := by
  cases h : l.findIdx? (samePreview input) with
  | none => grind
  | some i => grind [→ findIdx?_split]

variable (hk : Assoc.get "preview_id" input = some (.text k)) (hre : Assoc.get "preview_id" receipt = some (.text k))

include hk

theorem samePreview_eq : samePreview input = isPreview k := by
  funext item
  unfold samePreview isPreview
  rw [hk]

include hre

theorem find?_nextPreviews : (nextPreviews (l.findIdx? (samePreview input)) receipt l).find? (isPreview k) = some receipt := by
  have hfo : isPreview k receipt = true := isPreview_iff.mpr hre
  rw [samePreview_eq hk]
  unfold nextPreviews
  split
  · grind
  · grind [→ findIdx?_split]

theorem find?_nextPreviews_other {k'} (hne : k' ≠ k) :
    (nextPreviews (l.findIdx? (samePreview input)) receipt l).find? (isPreview k') = l.find? (isPreview k') := by
  have hsk : ∀ item, get "preview_id" item = some (.text k) → isPreview k' item = false := by
    intro item hit
    rw [Bool.eq_false_iff]
    intro h
    rw [isPreview_iff, hit] at h
    cases h
    exact hne rfl
  rw [samePreview_eq hk]
  unfold nextPreviews
  split
  · simp [hsk receipt hre]
  · rename_i i h
    obtain ⟨before, a, after, rfl, rfl, ha, hbe⟩ := findIdx?_split h
    simp [hsk receipt hre, hsk a (isPreview_iff.mp ha)]

theorem nodup_nextPreviews (hnd : (l.map (get "preview_id")).Nodup) :
    ((nextPreviews (l.findIdx? (samePreview input)) receipt l).map (get "preview_id")).Nodup := by
  rw [samePreview_eq hk]
  unfold nextPreviews
  split
  · grind [isPreview_iff]
  · rename_i i h
    obtain ⟨before, a, after, rfl, rfl, ha, hbe⟩ := findIdx?_split h
    simpa [hre, isPreview_iff.mp ha] using hnd

end Next

end Supacloud.ProjectConfig
