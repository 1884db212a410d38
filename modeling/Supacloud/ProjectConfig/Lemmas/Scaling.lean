import Supacloud.ProjectConfig.Lemmas.Receipts
import Supacloud.ProjectConfig.Scaling

/-!
# 拡縮の呼び出しの書き

文書に残るレプリカの `id` を `liveIds`、書く列のそれを `liveIn` とする。
-/

namespace Supacloud.ProjectConfig.Scaling

open Library Assoc World List

variable {config : Object} {column : Column} {list : List ReadReplicaRecord} {record : ReadReplicaRecord} {id : Text}
  {key : String} {answer : Answer} {w : World} {w' : World}

/-! ## 残るレプリカ -/

def live (replica : Object) : Bool :=
  (textOf (Assoc.get "ip" replica)).getD (.other "") ≠ .other "" && !deleted (Assoc.get "status" replica)

def liveIds (config : Object) : List Text :=
  ((rawReplicas config).filter live).filterMap fun replica => textOf (Assoc.get "id" replica)

def liveIn (list : List ReadReplicaRecord) : List Text := (list.filter fun r => r.ip ≠ .other "" && !deleted (some r.status)).map (·.id)

theorem mem_liveIn : id ∈ liveIn list ↔ ∃ r ∈ list, r.ip ≠ .other "" ∧ deleted (some r.status) = false ∧ r.id = id := by
  simp [liveIn, and_assoc]

theorem mem_liveIds : id ∈ liveIds config ↔ ∃ replica ∈ rawReplicas config, live replica = true ∧ get "id" replica = some (.text id) := by
  have hte : ∀ x, textOf x = some id ↔ x = some (.text id) := by
    intro x
    unfold textOf
    split <;> simp_all
  simp [liveIds, and_assoc, hte]

theorem deleted_toRecord {uuid now replica} :
    deleted (some (toRecord uuid now replica).status) = deleted (get "status" replica) := by
  unfold toRecord deleted
  dsimp only
  cases hsts : get "status" replica with
  | none => decide
  | some status =>
    by_cases h : isStatus status = true
    · simp [Option.filter, h]
    · have hne : strictEq (some status) (some (text "deleted")) = false := by
        rw [Bool.eq_false_iff]
        intro heq
        cases eq_of_strictEq heq
        exact h (by decide)
      simp only [Option.filter, h, Bool.false_eq_true, if_false, Option.getD_none, hne]
      decide

theorem mem_liveIn_normalize : (id ∈ liveIds config → id ∈ liveIn (normalizeReadReplicas answer.uuid answer.now config)) ∧
    (id ∈ liveIn (normalizeReadReplicas answer.uuid answer.now config) →
      id ∈ liveIds config ∨ ∃ i < (rawReplicas config).length, answer.uuid i = id) := by
  constructor
  · intro h
    obtain ⟨replica, hmem, hlv, hid⟩ := mem_liveIds.mp h
    obtain ⟨i, hi, rfl⟩ := mem_iff_getElem.mp hmem
    unfold live at hlv
    simp only [ne_eq, decide_not, Bool.and_eq_true, Bool.not_eq_true', decide_eq_false_iff_not] at hlv
    refine mem_liveIn.mpr ⟨toRecord (answer.uuid i) answer.now (rawReplicas config)[i], ?_, hlv.1, ?_, by simp [toRecord, hid, textOf]⟩
    · exact mem_filter.mpr ⟨mem_mapIdx.mpr ⟨i, hi, rfl⟩, decide_eq_true hlv.1⟩
    · rw [deleted_toRecord]
      exact hlv.2
  · intro h
    obtain ⟨r, hr, hip, hde, rfl⟩ := mem_liveIn.mp h
    obtain ⟨i, hi, rfl⟩ := mem_mapIdx.mp (mem_filter.mp hr).1
    cases hte : textOf (get "id" (rawReplicas config)[i]) with
    | none => exact .inr ⟨i, hi, by simp [toRecord, hte]⟩
    | some id =>
      have hid : get "id" (rawReplicas config)[i] = some (.text id) := by
        unfold textOf at hte
        split at hte <;> simp_all
      rw [deleted_toRecord] at hde
      refine .inl (mem_liveIds.mpr ⟨_, getElem_mem hi, ?_, by simp [toRecord, hid, textOf]⟩)
      unfold live
      simp only [Bool.and_eq_true, Bool.not_eq_true', hde, and_true, decide_eq_true_eq]
      exact hip

theorem liveIds_withReplicas : id ∈ liveIds (withReplicas list config) ↔ id ∈ liveIn list := by
  have hraw : rawReplicas (withReplicas list config) = list.map fun r => (r.json.fields?).getD [] := by
    unfold rawReplicas withReplicas
    rw [get_set, if_pos rfl]
    simp only [filterMap_map]
    rw [← filterMap_eq_map]
    rfl
  rw [mem_liveIds, mem_liveIn, hraw]
  simp [live, ReadReplicaRecord.json, Json.fields?, Assoc.get, textOf, and_assoc]

theorem mem_liveIn_replace : id ∈ liveIn (replaceRecord record list) ↔
    if id = record.id then id ∈ list.map (·.id) ∧ record.ip ≠ .other "" ∧ deleted (some record.status) = false else id ∈ liveIn list := by
  unfold replaceRecord
  rw [mem_liveIn]
  split
  · rename_i heq
    subst heq
    constructor
    · grind
    · grind
  · grind [mem_liveIn]

theorem liveIds_congr {config' : Object} (h : get "read_replicas" config' = get "read_replicas" config) :
    liveIds config' = liveIds config := by
  simp [liveIds, rawReplicas, h]

/-! ## 失わない書き -/

def Current (row : Option Column) (config : Object) : Prop :=
  ∀ column, row = some column → (∀ key, key ∉ ["compute", "read_replicas", "scheduled_functions", "application_previews"] →
      Assoc.get key config = Assoc.get key (normalizeProjectConfig column)) ∧
    ((∃ fields, column = .object fields) ∨
      ∀ key ∈ ["scheduled_functions", "application_previews"], Assoc.get key (normalizeProjectConfig column) = none)

def SameReplicas (row : Option Column) (ids : List Text) (p : Text → Prop) : Prop :=
  ∀ column, row = some column → ∀ id, p id → (id ∈ ids ↔ id ∈ liveIds (normalizeProjectConfig column))

def Operation.Writes (operation : Operation) (config : Object) (answer : Answer) : Prop :=
  match operation with
  | .verticalScale _ => False
  | .horizontalScale replicaIp region => ∃ ip planned, assertIpAddress replicaIp = some ip ∧ plan answer ip region config = .ok planned
  | .removeReadReplica replicaId =>
    ∃ existing, (normalizeReadReplicas answer.uuid answer.now config).find? (·.id = replicaId) = some existing ∧
      deleted (some existing.status) = false

def World.WritesCurrent (w : World) : Event → Prop
  | .proceed id answer =>
    match w.calls[id]? with
    | some ⟨_, .patchWrite _ _ config⟩ => Current w.row config ∧ SameReplicas w.row (liveIds config) fun _ => True
    | some ⟨operation, .firstWrite config⟩ =>
      operation.Writes config answer → Current w.row config ∧ SameReplicas w.row (liveIds config) fun _ => True
    | some ⟨_, .lastWrite config list record _⟩ =>
      Current w.row config ∧ SameReplicas w.row (liveIn list) fun id => id ≠ record.id ∨ deleted (some record.status) = false
    | _ => True
  | _ => True

def World.Reflected (w : World) : Prop :=
  ∀ column, w.row = some column →
    (∀ key, key ≠ "compute" → key ≠ "read_replicas" → Assoc.get key (normalizeProjectConfig column) = Assoc.get key w.others) ∧
    (∀ id ∈ w.added, id ∉ w.removed → id ∈ liveIds (normalizeProjectConfig column)) ∧
    ∀ id ∈ w.removed, id ∉ liveIds (normalizeProjectConfig column)

theorem get_replaceProjectConfig {fields} (h : replaceProjectConfig config (some column) = some (.object fields)) (key) :
    get key fields = if key ∈ ["scheduled_functions", "application_previews"] then
      (match column with
        | .object fields => get key fields
        | _ => none)
    else get key config := by
  cases h
  by_cases hp : key = "application_previews"
  · subst hp
    cases column with
    | object fields =>
      rw [get_keepFromRow_self, get_keepFromRow (by decide), get_erase]
      simp
    | _ => simp [keepFromRow, get_erase]
  · rw [get_keepFromRow hp]
    by_cases hs : key = "scheduled_functions"
    · subst hs
      cases column with
      | object fields =>
        rw [get_keepFromRow_self, get_erase, get_erase]
        simp
      | _ => simp [keepFromRow, get_erase]
    · rw [get_keepFromRow hs, get_erase, get_erase]
      simp [hp, hs]

theorem reflected_write {next} (h : w.Reflected) (hcu : Current w.row config)
    (hrow : w'.row = replaceProjectConfig next w.row) (hots : w'.others = w.others)
    (hke : ∀ key, key ≠ "compute" → key ≠ "read_replicas" → get key next = get key config)
    (hids : ∀ column, w.row = some column → (∀ id ∈ w'.added, id ∉ w'.removed → id ∈ liveIds next) ∧ ∀ id ∈ w'.removed, id ∉ liveIds next) :
    w'.Reflected := by
  intro column' hco'
  cases hw : w.row with
  | none =>
    rw [hrow, hw] at hco'
    cases hco'
  | some column =>
    obtain ⟨hot, -, -⟩ := h column hw
    obtain ⟨hsa, hpr⟩ := hcu column hw
    rw [hrow, hw] at hco'
    obtain ⟨fields, rfl⟩ : ∃ fields, column' = .object fields := ⟨_, (Option.some.inj hco').symm⟩
    have hget := get_replaceProjectConfig hco'
    have hlv : liveIds fields = liveIds next := liveIds_congr (by simp [hget])
    refine ⟨?_, ?_⟩
    · intro key hcm hres
      rw [hots, ← hot key hcm hres]
      show get key fields = _
      rw [hget]
      split
      · rename_i hin
        obtain ⟨fields', rfl⟩ | hno := hpr
        · rfl
        · rw [hno key hin]
          cases column with
          | object fields' => exact hno key hin
          | _ => rfl
      · rename_i hnt
        rw [hke key hcm hres]
        refine hsa key ?_
        simp_all
    · show (∀ id ∈ w'.added, id ∉ w'.removed → id ∈ liveIds fields) ∧ ∀ id ∈ w'.removed, id ∉ liveIds fields
      rw [hlv]
      exact hids column hw

theorem get_withReplicas (h : key ≠ "read_replicas") : get key (withReplicas list config) = get key config := by
  unfold withReplicas
  rw [get_set, if_neg h]

def World.start (ref : String) (column : Column) : World where
  ref := ref
  row := some column
  calls := []
  others := normalizeProjectConfig column
  added := liveIds (normalizeProjectConfig column)
  removed := []

theorem reflected_start {ref} : (start ref column).Reflected := by
  intro column' hco'
  cases hco'
  exact ⟨fun _ _ _ => rfl, fun _ hid _ => hid, nofun⟩

/-! ## 呼び出しの一歩 -/

def Pc.Listed : Pc → Prop
  | .addReplica _ list record | .gateway _ list record | .lastWrite _ list record _ => record.ip ≠ .other "" ∧ record.id ∈ liveIn list
  | _ => True

def World.Listed (w : World) : Prop := ∀ (id : ℕ) (call : Call), w.calls[id]? = some call → call.pc.Listed

theorem listed_start {ref} : (start ref column).Listed := by
  intro id call hca
  cases hca

theorem World.Listed.setPc {n call pc} (h : w.Listed) (hpc : pc.Listed) : (w.setPc n call pc).Listed := by
  intro id other hot
  unfold World.setPc at hot
  dsimp only at hot
  rw [getElem?_set] at hot
  split at hot
  · split at hot
    · cases hot
      exact hpc
    · cases hot
  · exact h id other hot

theorem exists_of_plan {ip region} (h : plan answer ip region config = .ok (list, record)) (hip : ip ≠ "") :
    record.ip ≠ .other "" ∧ (record.id ∈ liveIn (normalizeReadReplicas answer.uuid answer.now config) ∨
      answer.uuid (rawReplicas config).length = record.id) ∧
      ∀ id, id ∈ liveIn list ↔ id = record.id ∨ id ∈ liveIn (normalizeReadReplicas answer.uuid answer.now config) := by
  have hfi : ∀ id, id ∈ liveIn ((normalizeReadReplicas answer.uuid answer.now config).filter fun r => !deleted (some r.status)) ↔
      id ∈ liveIn (normalizeReadReplicas answer.uuid answer.now config) := by
    intro id
    simp only [mem_liveIn, mem_filter, Bool.not_eq_true', and_assoc]
    grind
  have hlv : deleted (some (text "provisioning")) = false := by decide
  unfold plan at h
  dsimp only at h
  split at h
  · grind [liveIn]
  · rename_i existing hfo
    split at h
    · cases h
      have hmem : existing.id ∈ ((normalizeReadReplicas answer.uuid answer.now config).filter fun r => !deleted (some r.status)).map (·.id) :=
        mem_map_of_mem (mem_of_find?_eq_some hfo)
      refine ⟨by simpa using hip, .inl ?_, fun id => ?_⟩
      · grind [mem_liveIn]
      · grind [mem_liveIn_replace]
    · cases h

theorem ne_of_assertIpAddress {replicaIp ip} (h : assertIpAddress replicaIp = some ip) : ip ≠ "" := by
  unfold assertIpAddress at h
  dsimp only at h
  split at h
  · rename_i hva
    cases h
    simp only [ne_eq, decide_not, Bool.and_eq_true, Bool.not_eq_true', decide_eq_false_iff_not] at hva
    intro heq
    exact hva.1 (by simpa using congrArg String.toList heq)
  · cases h

theorem fresh_uuid (h : answer.Fresh config w) {i} (hi : i ≤ (rawReplicas config).length) : answer.uuid i ∉ w.removed :=
  h i (mem_range.mpr (by omega))

theorem reflected_normalize (h : w.Reflected) (hfr : answer.Fresh config w) (hsa : SameReplicas w.row (liveIds config) fun _ => True)
    (hw : w.row = some column) : (∀ id ∈ w.added, id ∉ w.removed → id ∈ liveIn (normalizeReadReplicas answer.uuid answer.now config)) ∧
      ∀ id ∈ w.removed, id ∉ liveIn (normalizeReadReplicas answer.uuid answer.now config) := by
  obtain ⟨-, had, hre⟩ := h column hw
  constructor
  · intro id hin hnot
    exact mem_liveIn_normalize.1 ((hsa column hw id trivial).mpr (had id hin hnot))
  · intro id hin hlv
    obtain hlv | ⟨i, hi, rfl⟩ := mem_liveIn_normalize.2 hlv
    · exact hre id hin ((hsa column hw id trivial).mp hlv)
    · exact fresh_uuid hfr hi.le hin

theorem firstWrite_reflected {n call} (h : w.Reflected) (hli : w.Listed) (hfr : answer.Fresh config w)
    (hcu : call.operation.Writes config answer → Current w.row config ∧ SameReplicas w.row (liveIds config) fun _ => True) :
    (w.firstWrite n call config answer).Reflected ∧ (w.firstWrite n call config answer).Listed := by
  unfold firstWrite
  cases hop : call.operation with
  | verticalScale tier => exact ⟨h, hli⟩
  | horizontalScale replicaIp region =>
    dsimp only
    cases hip : assertIpAddress replicaIp with
    | none => exact ⟨h, hli⟩
    | some ip =>
      dsimp only
      cases hpl : plan answer ip region config with
      | error e => exact ⟨h, hli.setPc trivial⟩
      | ok planned =>
        obtain ⟨list, record⟩ := planned
        rw [hop] at hcu
        obtain ⟨hco, hsa⟩ := hcu ⟨ip, _, hip, hpl⟩
        obtain ⟨hreI, hkn, hls⟩ := exists_of_plan hpl (ne_of_assertIpAddress hip)
        refine ⟨reflected_write h hco rfl rfl (fun key _ hne => get_withReplicas hne) ?_, ?_⟩
        · intro column hw
          obtain ⟨had, hre⟩ := reflected_normalize h hfr hsa hw
          constructor
          · intro id hin hnot
            rw [liveIds_withReplicas, hls]
            cases hin with
            | head => exact .inl rfl
            | tail _ hin => exact .inr (had id hin hnot)
          · intro id hin
            rw [liveIds_withReplicas, hls]
            rintro (rfl | hlv)
            · obtain hlv | huu := hkn
              · exact hre record.id hin hlv
              · exact fresh_uuid hfr le_rfl (huu ▸ hin)
            · exact hre id hin hlv
        · exact (show Listed _ from hli).setPc ⟨hreI, (hls record.id).mpr (.inl rfl)⟩
  | removeReadReplica replicaId =>
    dsimp only
    cases hfo : (normalizeReadReplicas answer.uuid answer.now config).find? (·.id = replicaId) with
    | none => exact ⟨h, hli.setPc trivial⟩
    | some existing =>
      dsimp only
      split
      · exact ⟨h, hli.setPc trivial⟩
      · rename_i hlv
        rw [Bool.not_eq_true] at hlv
        rw [hop] at hcu
        obtain ⟨hco, hsa⟩ := hcu ⟨existing, hfo, hlv⟩
        have hmem := mem_of_find?_eq_some hfo
        have hex : existing.ip ≠ .other "" := by simpa using (mem_filter.mp hmem).2
        have hin : existing.id ∈ liveIn (normalizeReadReplicas answer.uuid answer.now config) :=
          mem_liveIn.mpr ⟨existing, hmem, hex, hlv, rfl⟩
        have hdl : deleted (some (text "deleting")) = false := by decide
        refine ⟨reflected_write h hco rfl rfl (fun key _ hne => get_withReplicas hne) ?_, ?_⟩
        · intro column hw
          obtain ⟨had, hre⟩ := reflected_normalize h hfr hsa hw
          have hls : ∀ id, id ∈ liveIn (replaceRecord { existing with status := text "deleting", updatedAt := .date answer.now }
              (normalizeReadReplicas answer.uuid answer.now config)) ↔ id ∈ liveIn (normalizeReadReplicas answer.uuid answer.now config) := by
            intro id
            rw [mem_liveIn_replace]
            split
            · grind
            · exact Iff.rfl
          simp only [liveIds_withReplicas, hls]
          exact ⟨had, hre⟩
        · exact (show Listed _ from hli).setPc ⟨hex, hin⟩

theorem lastWrite_reflected (h : w.Reflected) (hip : record.ip ≠ .other "") (hin : record.id ∈ liveIn list) (hcu : Current w.row config)
    (hsa : SameReplicas w.row (liveIn list) fun id => id ≠ record.id ∨ deleted (some record.status) = false)
    (hrow : w'.row = replaceProjectConfig (withReplicas (replaceRecord record list) config) w.row) (hots : w'.others = w.others)
    (had : w'.added = w.added) (hre : w'.removed = if deleted (some record.status) then record.id :: w.removed else w.removed) :
    w'.Reflected := by
  refine reflected_write h hcu hrow hots (fun key _ hne => get_withReplicas hne) ?_
  intro column hw
  obtain ⟨-, hkp, hgo⟩ := h column hw
  have hmem : record.id ∈ list.map (·.id) := by
    obtain ⟨r, hr, -, -, hid⟩ := mem_liveIn.mp hin
    exact mem_map.mpr ⟨r, hr, hid⟩
  have hiff := hsa column hw
  simp only [liveIds_withReplicas, mem_liveIn_replace, had, hre]
  cases hde : deleted (some record.status) with
  | true | false => grind

theorem get_writeKey {key' value} : get key' (writeKey key value config) = if key' = key then value else get key' config := by
  unfold writeKey
  cases value with
  | none =>
    dsimp only
    rw [get_erase]
  | some value =>
    dsimp only
    rw [get_set]

theorem patchWrite_reflected {compute} (h : w.Reflected) (hcu : Current w.row config)
    (hsa : SameReplicas w.row (liveIds config) fun _ => True)
    (hrow : w'.row = replaceProjectConfig (Object.set "compute" compute config) w.row) (hots : w'.others = w.others)
    (had : w'.added = w.added) (hre : w'.removed = w.removed) : w'.Reflected := by
  refine reflected_write h hcu hrow hots (fun key hne _ => by rw [get_set, if_neg hne]) ?_
  intro column hw
  have hlv : liveIds (Object.set "compute" compute config) = liveIds config := liveIds_congr (by rw [get_set, if_neg (by decide)])
  obtain ⟨-, hids⟩ := h column hw
  have hiff := fun id => hsa column hw id trivial
  rw [had, hre, hlv]
  simpa [hiff] using hids

theorem step_reflected {event} (h : w.Reflected ∧ w.Listed) (hcu : w.WritesCurrent event) : (w.step event).Reflected ∧ (w.step event).Listed := by
  obtain ⟨h, hli⟩ := h
  cases event with
  | call operation =>
    refine ⟨h, ?_⟩
    intro id call hca
    obtain hold | hnew := mem_append.mp (mem_of_getElem? hca)
    · obtain ⟨n, hn⟩ := getElem?_of_mem hold
      exact hli n call hn
    · cases mem_singleton.mp hnew
      trivial
  | throws n error =>
    unfold World.step
    dsimp only
    cases hca : w.calls[n]? with
    | none => exact ⟨h, hli⟩
    | some call => exact ⟨h, hli.setPc trivial⟩
  | write key value =>
    unfold World.step
    dsimp only
    split
    · exact ⟨h, hli⟩
    · rename_i hne
      refine ⟨?_, hli⟩
      intro column' hco'
      obtain ⟨column, hw, rfl⟩ := Option.map_eq_some_iff.mp hco'
      obtain ⟨hot, hids⟩ := h column hw
      have hlv : liveIds (writeKey key value (normalizeProjectConfig column)) = liveIds (normalizeProjectConfig column) :=
        liveIds_congr (by rw [get_writeKey, if_neg (Ne.symm hne)])
      refine ⟨?_, ?_⟩
      · intro key' hcm hres
        show get key' (writeKey key value _) = get key' (writeKey key value _)
        rw [get_writeKey, get_writeKey, hot key' hcm hres]
      · show (∀ id ∈ w.added, id ∉ w.removed → id ∈ liveIds (writeKey key value _)) ∧ ∀ id ∈ w.removed, id ∉ liveIds (writeKey key value _)
        rw [hlv]
        exact hids
  | proceed n answer =>
    unfold World.step
    unfold WritesCurrent at hcu
    dsimp only at hcu ⊢
    cases hca : w.calls[n]? with
    | none => exact ⟨h, hli⟩
    | some call =>
      obtain ⟨operation, pc⟩ := call
      have hpc := hli n _ hca
      rw [hca] at hcu
      unfold proceed
      cases pc with
      | start =>
        dsimp only
        split
        · split <;> exact ⟨h, hli.setPc trivial⟩
        · split <;> exact ⟨h, hli.setPc trivial⟩
        · exact ⟨h, hli.setPc trivial⟩
      | patchRead compute error | verticalShell tier spec | read =>
        dsimp only
        split <;> exact ⟨h, hli.setPc trivial⟩
      | patchWrite compute error config =>
        obtain ⟨hco, hsa⟩ := hcu
        have hwr : ∀ w' : World, w'.row = replaceProjectConfig (Object.set "compute" compute config) w.row → w'.others = w.others →
            w'.added = w.added → w'.removed = w.removed → w'.Reflected := fun w' => patchWrite_reflected h hco hsa
        dsimp only
        split
        · exact ⟨h, hli.setPc trivial⟩
        · exact ⟨hwr _ rfl rfl rfl rfl, (show Listed _ from hli).setPc trivial⟩
        · refine ⟨hwr _ rfl rfl rfl rfl, (show Listed _ from hli).setPc ?_⟩
          cases assertKnownTier _ <;> trivial
        · exact ⟨h, hli⟩
      | firstWrite config => grind [firstWrite_reflected]
      | addReplica config list record | gateway config list record =>
        dsimp only
        split
        · exact ⟨h, hli.setPc hpc⟩
        · exact ⟨h, hli.setPc hpc⟩
      | lastWrite config list record error =>
        obtain ⟨hco, hsa⟩ := hcu
        exact ⟨lastWrite_reflected h hpc.1 hpc.2 hco hsa rfl rfl rfl rfl, (show Listed _ from hli).setPc trivial⟩
      | finished error => exact ⟨h, hli⟩

end Supacloud.ProjectConfig.Scaling
