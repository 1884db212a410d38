import Supacloud.RealtimeProxy.Service

/-!
# 結び付けと射影の補題

サーバーの識別子は、どの購読にも付き、同じ識別子の購読は同じ列を選ぶ。
-/

namespace Supacloud.RealtimeProxy

open List Option

open Contracts (JsString)

open Vectors (js)

variable {filters : Filters} {map : IdMap} {change data : RealtimeChange} {subs bindings mappings : List PostgresChangeConfig}
  {sub b : PostgresChangeConfig} {id : SubscriptionId} {select select' : Option (List JsString)} {groups : List Group}
  {index : Nat} {name : JsString} {identities : List (SubscriptionId × (PostgresChangeConfig × Bool))}

/-! ## 結び付け -/

def Bound (sub binding : PostgresChangeConfig) : Prop := ∃ id, binding = { sub with id := some id }

theorem Bound.matchesChange {binding} (h : Bound sub binding) :
    matchesChange filters change binding = matchesChange filters change sub := by
  obtain ⟨id, rfl⟩ := h
  rfl

theorem Bound.same_select {binding} (h : Bound sub binding) : binding.select = sub.select := by
  obtain ⟨id, rfl⟩ := h
  rfl

theorem bindLoop_cons {mapping} (h : bindLoop identities (sub :: subs) (mapping :: mappings) = some bindings) :
    ∃ id rest, (∀ x, identities.lookup id = some x → x = identity sub) ∧
      bindLoop ((id, identity sub) :: identities) subs mappings = some rest ∧ bindings = { sub with id := some id } :: rest := by
  rw [bindLoop] at h
  cases hid : mapping.id with
  | none => simp [hid] at h
  | some id =>
    simp only [hid] at h
    split at h
    · cases h
    · split at h
      · cases h
      · rename_i hsa hfre
        obtain ⟨rest, hre, rfl⟩ := map_eq_some_iff.mp h
        refine ⟨id, rest, ?_, hre, rfl⟩
        intro x hx
        simpa [hx] using hfre

section

variable (h : bindLoop identities subs mappings = some bindings)

include h

theorem bindLoop_bound : Forall₂ Bound subs bindings := by
  induction subs generalizing identities mappings bindings with
  | nil =>
    cases h
    exact .nil
  | cons sub subs ih =>
    cases mappings with
    | nil => cases h
    | cons mapping mappings =>
      obtain ⟨id, rest, _, hre, rfl⟩ := bindLoop_cons h
      exact .cons ⟨id, rfl⟩ (ih hre)

theorem bindLoop_known {x} (hb : b ∈ bindings) (hid : b.id = some id)
    (hx : identities.lookup id = some x) : x.1 = { b with id := none } := by
  induction subs generalizing identities mappings bindings x with
  | nil =>
    cases h
    cases hb
  | cons sub subs ih =>
    cases mappings with
    | nil => cases h
    | cons mapping mappings =>
      obtain ⟨id', rest, hkn, hre, rfl⟩ := bindLoop_cons h
      rcases mem_cons.mp hb with rfl | hb
      · cases hid
        rw [hkn x hx]
        rfl
      · grind

theorem bindLoop_select : ∀ a ∈ bindings, ∀ b ∈ bindings, a.id = b.id → a.select = b.select := by
  induction subs generalizing identities mappings bindings with
  | nil =>
    cases h
    simp
  | cons sub subs ih =>
    cases mappings with
    | nil => cases h
    | cons mapping mappings =>
      obtain ⟨id, rest, _, hre, rfl⟩ := bindLoop_cons h
      have hhe : ∀ c ∈ rest, c.id = some id → c.select = sub.select := by
        intro c hc hid
        have hfi : ((id, identity sub) :: identities).lookup id = some (identity sub) := by simp
        have hkn := bindLoop_known hre hc hid hfi
        exact (congrArg PostgresChangeConfig.select hkn).symm
      intro a ha b hb hid
      rcases mem_cons.mp ha with rfl | ha
      · rcases mem_cons.mp hb with rfl | hb
        · rfl
        · exact (hhe b hb hid.symm).symm
      · rcases mem_cons.mp hb with rfl | hb
        · exact hhe a ha hid
        · exact ih hre a ha b hb hid

end

theorem bindRealtimeSubscriptionIds_inv {value} (h : bindRealtimeSubscriptionIds filters subs value = some bindings) :
    Forall₂ Bound subs bindings ∧ ∀ a ∈ bindings, ∀ b ∈ bindings, a.id = b.id → a.select = b.select := by
  unfold bindRealtimeSubscriptionIds at h
  split at h
  · cases h
  · split at h
    · cases h
    · exact ⟨bindLoop_bound h, bindLoop_select h⟩

section

variable (h : List.Forall₂ Bound subs bindings)

include h

theorem bound_of_mem (hsub : sub ∈ subs) : ∃ b ∈ bindings, Bound sub b := by
  induction h with
  | nil => cases hsub
  | cons hhe _ ih => grind

theorem exists_sub_of_mem (hb : b ∈ bindings) : ∃ sub ∈ subs, Bound sub b := by
  induction h with
  | nil => cases hb
  | cons hhe _ ih => grind

theorem exists_id_of_mem (hb : b ∈ bindings) : ∃ id, b.id = some id := by
  obtain ⟨sub, _, id, rfl⟩ := exists_sub_of_mem h hb
  exact ⟨id, rfl⟩

end

/-! ## 射影 -/

theorem groupKey_mem {names names'} (h : groupKey (some names) = groupKey (some names')) : name ∈ names ↔ name ∈ names' := by
  have hso : names.insertionSort byText = names'.insertionSort byText := some.inj h
  rw [← (perm_insertionSort byText names).mem_iff, hso, (perm_insertionSort byText names').mem_iff]

theorem projectData_congr (h : groupKey select = groupKey select') : projectData select data = projectData select' data := by
  cases select with
  | none =>
    cases select' with
    | none => rfl
    | some names' => cases h
  | some names =>
    cases select' with
    | none => cases h
    | some names' =>
      have hcos : ∀ name, names.contains name = names'.contains name := by
        intro name
        rw [Bool.eq_iff_iff, contains_iff_mem, contains_iff_mem]
        exact groupKey_mem h
      have hpro : project names = project names' := by
        funext record
        simp only [project, hcos]
      simp only [projectData, hcos, hpro]

theorem project_eq_self {names record} : record = project names record ↔ ∀ entry ∈ record, entry.1 ∈ names := by
  rw [eq_comm, project, filter_eq_self]
  simp

theorem sameData_projectData : SameData data (projectData select data) ↔ Covers select data := by
  cases select with
  | none => simp [projectData, SameData, Covers]
  | some names =>
    by_cases hsta : js "*" ∈ names
    · simp [projectData, SameData, Covers, hsta]
    · have hold : data.oldRecord = data.oldRecord.map (project names) ↔
          ∀ old, data.oldRecord = some old → ∀ entry ∈ old, entry.1 ∈ names := by
        cases data.oldRecord with
        | none => simp
        | some old => simp [project_eq_self]
      have hcls : data.columns = data.columns.filter (fun column => names.contains column.name) ↔
          ∀ column ∈ data.columns, column.name ∈ names := by
        rw [eq_comm, filter_eq_self]
        simp
      have hcos : names.contains (js "*") = false := by simpa using hsta
      simp only [projectData, SameData, Covers, hcos, Bool.false_eq_true, if_false, project_eq_self, hold, hcls]
      constructor
      · grind
      · intro h
        rcases h names rfl with hmem | hco
        · exact absurd hmem hsta
        · exact hco

/-! ## まとまり -/

attribute [local grind =] addToGroup groupsFrom matchingIdsFrom

def Grouped (P : SubscriptionId → Option (List JsString) → Prop) (groups : List Group) : Prop :=
  ∀ group ∈ groups, group.key = groupKey group.select ∧ ∀ id ∈ group.ids, ∃ select, P id select ∧ groupKey select = group.key

def Listed (id : SubscriptionId) (select : Option (List JsString)) (groups : List Group) : Prop :=
  ∃ group ∈ groups, id ∈ group.ids ∧ group.key = groupKey select

theorem Grouped.add {P} (h : Grouped P groups) (hp : P id select) : Grouped P (addToGroup id select groups) := by
  induction groups with
  | nil =>
    intro group hgr
    cases mem_singleton.mp hgr
    refine ⟨rfl, fun id' hid => ?_⟩
    cases mem_singleton.mp hid
    exact ⟨select, hp, rfl⟩
  | cons head groups ih =>
    have hhe := h head mem_cons_self
    have hre : Grouped P groups := fun group hgr => h group (mem_cons_of_mem _ hgr)
    rw [addToGroup]
    by_cases hkey : head.key = groupKey select
    · rw [if_pos hkey]
      intro group hgr
      rcases mem_cons.mp hgr with rfl | hgr
      · grind
      · exact hre group hgr
    · rw [if_neg hkey]
      intro group hgr
      rcases mem_cons.mp hgr with rfl | hgr
      · exact hhe
      · exact ih hre group hgr

theorem listed_add : Listed id select (addToGroup id select groups) := by
  induction groups with
  | nil => exact ⟨_, mem_cons_self, mem_cons_self, rfl⟩
  | cons head groups ih =>
    rw [addToGroup]
    by_cases hkey : head.key = groupKey select
    · rw [if_pos hkey]
      refine ⟨_, mem_cons_self, ?_, ?_⟩
      · grind
      · by_cases hmem : id ∈ head.ids
        · rwa [if_pos hmem]
        · rwa [if_neg hmem]
    · rw [if_neg hkey]
      obtain ⟨group, hgr, hid, hgrK⟩ := ih
      exact ⟨group, mem_cons_of_mem _ hgr, hid, hgrK⟩

theorem Listed.add {id'} (h : Listed id select groups) : Listed id select (addToGroup id' select' groups) := by
  induction groups with
  | nil =>
    obtain ⟨group, hgr, _⟩ := h
    cases hgr
  | cons head groups ih =>
    obtain ⟨group, hgr, hid, hgrK⟩ := h
    rw [addToGroup]
    by_cases hkey : head.key = groupKey select'
    · rw [if_pos hkey]
      rcases mem_cons.mp hgr with rfl | hgr
      · by_cases hmem : id' ∈ group.ids
        · exact ⟨group, by rw [if_pos hmem]; exact mem_cons_self, hid, hgrK⟩
        · refine ⟨{ group with ids := group.ids ++ [id'] }, ?_, mem_append_left _ hid, hgrK⟩
          rw [if_neg hmem]
          exact mem_cons_self
      · exact ⟨group, mem_cons_of_mem _ hgr, hid, hgrK⟩
    · rw [if_neg hkey]
      rcases mem_cons.mp hgr with rfl | hgr
      · exact ⟨group, mem_cons_self, hid, hgrK⟩
      · obtain ⟨found, hfo, hfoI, hfoK⟩ := ih ⟨group, hgr, hid, hgrK⟩
        exact ⟨found, mem_cons_of_mem _ hfo, hfoI, hfoK⟩

theorem groupsFrom_grouped {ids P} (h : Grouped P groups) (hsu : ∀ sub ∈ subs, ∃ id, sub.id = some id ∧ P id sub.select) : Grouped P (groupsFrom ids index groups subs) := by
  induction subs generalizing groups index with
  | nil => exact h
  | cons sub subs ih =>
    obtain ⟨id, hid, hp⟩ := hsu sub mem_cons_self
    have hre := fun s hs => hsu s (mem_cons_of_mem _ hs)
    rw [groupsFrom]
    simp only [hid, getD_some]
    by_cases hmem : id ∈ ids
    · rw [if_pos hmem]
      exact ih (h.add hp) hre
    · rw [if_neg hmem]
      exact ih h hre

theorem Listed.groupsFrom {ids} (h : Listed id select groups) : Listed id select (groupsFrom ids index groups subs) := by
  induction subs generalizing groups index with
  | nil => exact h
  | cons sub subs ih =>
    rw [RealtimeProxy.groupsFrom]
    split
    · exact ih h.add
    · exact ih h

theorem groupsFrom_listed {ids} (hb : b ∈ subs) (hid : b.id = some id) (hmem : id ∈ ids) :
    Listed id b.select (groupsFrom ids index groups subs) := by
  induction subs generalizing groups index with
  | nil => cases hb
  | cons sub subs ih =>
    rw [groupsFrom]
    rcases mem_cons.mp hb with rfl | hb
    · simp only [hid, getD_some, if_pos hmem]
      exact listed_add.groupsFrom
    · exact ih hb

/-! ## ネイティブの経路 -/

theorem mem_matchingIdsFrom : name ∈ matchingIdsFrom filters map change index subs ↔
    ∃ (i : Nat) (sub : PostgresChangeConfig), subs[i]? = some sub ∧ matchesChange filters change sub = true ∧ name = emittedId map (index + i) sub.id := by
  induction subs generalizing index with
  | nil => simp [matchingIdsFrom]
  | cons head subs ih =>
    have hre : name ∈ matchingIdsFrom filters map change (index + 1) subs ↔
        ∃ (i : Nat) (sub : PostgresChangeConfig), (head :: subs)[i + 1]? = some sub ∧ matchesChange filters change sub = true ∧
          name = emittedId map (index + (i + 1)) sub.id := by
      rw [ih]
      simp [Nat.add_assoc, Nat.add_comm 1]
    rw [matchingIdsFrom]
    by_cases hma : matchesChange filters change head = true
    · rw [if_pos hma, mem_cons, hre]
      constructor
      · rintro (rfl | ⟨i, sub, hsub, hm, hna⟩)
        · exact ⟨0, head, rfl, hma, rfl⟩
        · exact ⟨i + 1, sub, hsub, hm, hna⟩
      · grind
    · grind

theorem called_iff {own} : Called map index own name ↔ name = emittedId map index own := by
  unfold emittedId
  constructor
  · intro h
    cases h with
    | shadowed hid hmap hne =>
      cases name with
      | nil => exact absurd rfl hne
      | cons u rest => simp [hid, hmap]
    | own hfrr =>
      cases hid : numericId own with
      | none => rfl
      | some n => grind
  · rintro rfl
    cases hid : numericId own with
    | none => exact .own (fun n _ hn => by simp [hid] at hn)
    | some n =>
      cases hmap : map n with
      | none =>
        simp only [bind_some, hmap]
        refine .own fun m stateId hm hst => ?_
        cases hid.symm.trans hm
        simp [hmap] at hst
      | some stateId =>
        cases stateId with
        | nil =>
          simp only [bind_some, hmap]
          refine .own fun m found hm hst => ?_
          cases hid.symm.trans hm
          cases hmap.symm.trans hst
          rfl
        | cons u rest =>
          simp only [bind_some, hmap]
          exact .shadowed hid hmap (by simp)

/-! ## 二つの経路 -/

variable {channel : NativeChannel filters}

theorem nativeFrames_eq (hvi : change.type ≠ .delete) : nativeFrames channel map change = stateEvents filters map change channel.changes := by
  unfold nativeFrames
  rw [filter_eq_self]
  intro frame hfr
  unfold stateEvents at hfr
  split at hfr
  · cases hfr
  · cases mem_singleton.mp hfr
    exact decide_eq_true hvi

theorem data_of_mem_nativeFrames {frame} (hfr : frame ∈ nativeFrames channel map change) : frame.data = change := by
  have hmem := (mem_filter.mp hfr).1
  unfold stateEvents at hmem
  split at hmem
  · cases hmem
  · cases mem_singleton.mp hmem
    rfl

theorem mem_nativeFrames (hvi : change.type ≠ .delete) : (∃ frame ∈ nativeFrames channel map change, id ∈ frame.ids) ↔
    ∃ (i : Nat) (sub : PostgresChangeConfig) (name : JsString),
      channel.changes[i]? = some sub ∧ matchesChange filters change sub = true ∧ Called map i sub.id name ∧ id = .text name := by
  have hids : (∃ frame ∈ nativeFrames channel map change, id ∈ frame.ids) ↔ ∃ name ∈ matchingIds filters map change channel.changes, id = .text name := by
    rw [nativeFrames_eq hvi]
    unfold stateEvents
    split
    · rename_i hnil
      simp [hnil]
    · simp [formatEvent, eq_comm]
  rw [hids]
  simp only [matchingIds, mem_matchingIdsFrom, Nat.zero_add, called_iff]
  constructor
  · grind
  · grind

theorem mem_matchingServerIds : id ∈ matchingServerIds channel change ↔
    ∃ b ∈ channel.bindings, matchesChange filters change b = true ∧ b.id = some id := by
  simp [matchingServerIds, mem_filter, and_assoc]

theorem exists_delegated (hb : b ∈ channel.bindings) (hma : matchesChange filters change b = true) (hid : b.id = some id) :
    ∃ projected ∈ delegatedFrames channel change, id ∈ projected.ids := by
  have hmem : id ∈ matchingServerIds channel change := mem_matchingServerIds.mpr ⟨b, hb, hma, hid⟩
  have hli : Listed id b.select (groupsFrom (matchingServerIds channel change) 0 [] channel.bindings) := groupsFrom_listed hb hid hmem
  obtain ⟨group, hgr, hidG, _⟩ := hli
  exact ⟨_, mem_map_of_mem hgr, hidG⟩

theorem delegated_data {projected} (hpr : projected ∈ delegatedFrames channel change) (hid : id ∈ projected.ids)
    (hb : b ∈ channel.bindings) (hbid : b.id = some id) : projected.data = projectData b.select change := by
  obtain ⟨hbo, hse⟩ := bindRealtimeSubscriptionIds_inv channel.bound
  have hgro : Grouped (fun id select => ∃ b ∈ channel.bindings, b.id = some id ∧ b.select = select)
      (groupsFrom (matchingServerIds channel change) 0 [] channel.bindings) := by
    refine groupsFrom_grouped (by intro group hgr; cases hgr) fun sub hsub => ?_
    obtain ⟨id, hsuI⟩ := exists_id_of_mem hbo hsub
    exact ⟨id, hsuI, sub, hsub, hsuI, rfl⟩
  obtain ⟨group, hgr, rfl⟩ := mem_map.mp hpr
  obtain ⟨hkey, hids⟩ := hgro group hgr
  obtain ⟨select, ⟨a, ha, haid, rfl⟩, hseK⟩ := hids id hid
  have hsa : a.select = b.select := hse a ha b hb (haid.trans hbid.symm)
  have hgrK : groupKey group.select = groupKey b.select := by rw [← hkey, ← hseK, hsa]
  exact projectData_congr hgrK

end Supacloud.RealtimeProxy
