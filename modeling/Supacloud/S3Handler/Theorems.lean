import Mathlib.Data.Char
import Mathlib.Data.List.Lex
import Supacloud.S3Handler.Lemmas.Listing
import Supacloud.S3Handler.Lemmas.Objects

/-!
# 行と中身の一致、一覧の約束
-/

namespace Supacloud.S3Handler

open Library

/-- 行と中身が一致するのは、置き換えるか消す行の版を、いつも残っている依頼のどれかが覚えているとき、そのときに限る。 -/
theorem objects_agree (env : Runtime) (place : Place) (w : World) (h : w.Start) (es : List Event) (hquiet : (run (step env) w es).Quiet place) :
    (run (step env) w es).Agrees place ↔ Along (step env) (fun w e => w.Remembered place e) w es := by
  have hso : (run (step env) w es).Sound := run_invariant (fun _ _ hw => hw.step) h.sound
  have hst : ¬ ∃ version, w.Orphaned place version := by
    refine (h.sound.agrees_iff ?_).mp (h.agrees place)
    simp [World.Quiet, h.calls]
  rw [hso.agrees_iff hquiet]
  exact (along_iff_not (J := World.Sound) (B := fun w => ∃ version, w.Orphaned place version) (fun _ _ hw => hw.step)
    (fun _ _ hw => hw.orphaned_step) h.sound hst).symm

/-! ## 例 -/

def plainRuntime : Runtime where
  defaultFileSizeLimit := 100
  sha256Hex := fun body => toString body.length
  trim := id
  toLowerCase := id

def emptyStore : World where
  buckets := fun _ => some { fileSizeLimit := none, allowedMimeTypes := none }
  objects := fun _ => none
  blobs := fun _ => none
  calls := []
  issued := []

theorem emptyStore_start : emptyStore.Start := ⟨rfl, List.nodup_nil, nofun, fun _ => ⟨nofun, nofun⟩⟩

def photo : Place where
  bucket := "photos"
  key := "a.png"

def plainHeaders : Headers where
  contentType := none
  cacheControl := none

def put (body : Bytes) : Event := .request photo (.putObject body plainHeaders)

def inTurn : List Event :=
  [put [1], .proceed 0 "0" 0, .proceed 0 "" 0, .proceed 0 "" 0, .proceed 0 "" 0,
    .request photo (.copyObject photo plainHeaders true), .proceed 1 "" 0, .proceed 1 "" 0, .proceed 1 "1" 0, .proceed 1 "" 0, .proceed 1 "" 0,
    .proceed 1 "" 0, .proceed 1 "" 0, .request photo .deleteObject, .proceed 2 "" 0, .proceed 2 "" 0, .proceed 2 "" 0]

theorem objects_agree_in_turn : (run (step plainRuntime) emptyStore inTurn).Agrees photo := by
  have hquiet : (run (step plainRuntime) emptyStore inTurn).Quiet photo := by
    intro call hca _
    revert call
    decide
  exact (objects_agree plainRuntime photo emptyStore emptyStore_start inTurn hquiet).mpr (by decide)

def crossing : List Event :=
  [put [1], put [2], .proceed 0 "0" 0, .proceed 1 "1" 0, .proceed 0 "" 0, .proceed 1 "" 0, .proceed 0 "" 0, .proceed 1 "" 0, .proceed 0 "" 0,
    .proceed 1 "" 0]

theorem objects_left_behind : (run (step plainRuntime) emptyStore crossing).Quiet photo ∧
    ¬ (run (step plainRuntime) emptyStore crossing).Agrees photo := by
  refine ⟨fun call hca _ => ?_, fun h => ?_⟩
  · revert call
    decide
  · obtain ⟨row, hrow, hve⟩ := (h.1 "v2-0" (by decide)).mp (by decide)
    have hcu : (run (step plainRuntime) emptyStore crossing).objects photo ≠ none ∧
        ((run (step plainRuntime) emptyStore crossing).objects photo).bind ObjectRow.version = some "v2-1" := by decide
    rw [hrow] at hcu
    exact absurd (hve.symm.trans hcu.2) (by decide)

/-! ## 一覧 -/

/-- 一覧が約束を守るのは、引数に NUL がなく、`max-keys` が正直で、同じまとめ先の名が、頁の大きさの切れ目を跨がないとき、そのときに限る。 -/
theorem listObjects_covers_iff {K : Type} [LinearOrder K] (P : Platform K) (b : Names) (q : ListParams) :
    Covers P b q ↔ (storable (q.namePrefix.getD []) = true ∧ storable q.start = true) ∧ Honest (matching P b q q.start) (q.number P) ∧
      ((cut ⌊clampKeys (q.number P)⌋.toNat (matching P b q q.start)).map (·.filterMap q.group)).Pairwise List.Disjoint := by
  have hiff := sum_listings_eq_one_iff (q := q) (cut ⌊clampKeys (q.number P)⌋.toNat (matching P b q q.start)) (by
    rw [flatten_cut]
    exact sorted_matching.imp fun h he => h.ne (congrArg P.collate he))
  rw [flatten_cut] at hiff
  constructor
  · intro h
    refine ⟨h.honest.1, h.honest.2, hiff.mp fun name hname => ?_⟩
    obtain ⟨hden, hpos⟩ := h.honest.2.clampKeys
    have hstart : storable (q.after P none) = true := h.honest.1.2
    obtain ⟨pages, hpages, hcontents⟩ := follow_eq hden rfl h.honest.1.1 rfl hstart hpos
    obtain ⟨pages', hpages', -, hsum⟩ := h
    cases hpages.symm.trans hpages'
    obtain ⟨hmem, hpre, hafter⟩ := (mem_matching name).mp hname
    exact hcontents ▸ hsum name hmem hpre hafter
  · rintro ⟨⟨hpre, hsta⟩, h, hdisjoint⟩
    obtain ⟨hden, hpos⟩ := h.clampKeys
    have hstart : storable (q.after P none) = true := hsta
    obtain ⟨pages, hpages, hcontents⟩ := follow_eq hden rfl hpre rfl hstart hpos
    refine ⟨pages, hpages, fun page hpage => ?_, fun name hmem hpre hafter => ?_⟩
    · obtain ⟨c, hc, hpc⟩ := List.mem_map.mp (hcontents ▸ List.mem_map_of_mem hpage)
      rw [ListPage.keyCount, show page.contents = _ from (congrArg Prod.fst hpc).symm, show page.common = _ from (congrArg Prod.snd hpc).symm]
      exact h.bounds hc
    · rw [hcontents]
      exact hiff.mpr hdisjoint name ((mem_matching name).mpr ⟨hmem, hpre, hafter⟩)

def plainPlatform : Platform Text where
  collate := id
  collate_injective := Function.injective_id
  collate_nil_le := fun name => not_lt.mp (List.not_lt_nil name)
  number := fun text => if text = ['0'] then .finite 0 else .nan
  toBase64url := id
  fromBase64url := id
  toBase64url_nil := rfl
  fromBase64url_toBase64url := fun _ => rfl

def oneName : Names where
  names := [['a']]
  nodup := List.nodup_singleton _
  stored := by decide

def zeroKeys : ListParams where
  namePrefix := none
  delimiter := none
  maxKeys := some ['0']
  startAfter := none

theorem zero_keys_list_one : ¬ ∀ (K : Type) [LinearOrder K] (P : Platform K) (b : Names) (q : ListParams), Covers P b q := by
  intro h
  have hhonest : Honest (matching plainPlatform oneName zeroKeys zeroKeys.start) (.finite 0) := (h Text plainPlatform oneName zeroKeys).honest.2
  obtain ⟨-, -, hzero⟩ := hhonest
  have hmem : ['a'] ∈ matching plainPlatform oneName zeroKeys zeroKeys.start := (mem_matching _).mpr (by decide)
  rw [hzero (by decide)] at hmem
  cases hmem

def World.Readable (w : World) : Prop :=
  ∀ place row, w.objects place = some row → (w.blobs (driverKey row)).isSome ∧
    ∀ place' row', w.objects place' = some row' → row'.version = row.version → place' = place

theorem objects_readable (env : Runtime) (w : World) (h : w.Start) (es : List Event) : (run (step env) w es).Readable := by
  have hso : (run (step env) w es).Sound := run_invariant (fun _ _ hw => hw.step) h.sound
  intro place row hrow
  obtain ⟨version, hve, his, hbl⟩ := hso.row place row hrow
  refine ⟨by rwa [driverKey_of_prefixed hve (hso.isPrefixed version place his)], fun place' row' hrow' heq => ?_⟩
  obtain ⟨version', hve', his', -⟩ := hso.row place' row' hrow'
  cases hve'.symm.trans (heq.trans hve)
  exact hso.place_eq his' his

theorem objects_readable_crossing : (run (step plainRuntime) emptyStore crossing).Readable :=
  objects_readable plainRuntime emptyStore emptyStore_start crossing

end Supacloud.S3Handler
