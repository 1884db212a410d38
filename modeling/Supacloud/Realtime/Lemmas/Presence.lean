import Supacloud.Library.Lists
import Supacloud.Realtime.Presence

/-!
# 在席の記録

一度の呼び出しが、話題の鍵の列と、接続の在席をどう変えるか。
-/

namespace Supacloud.Realtime

open Library Lists PresenceView Watched List

local instance : LawfulBEq (Option Text) := inferInstance

variable {F : Type} {serde : Serde F} {manager : PresenceManager} {tenantId topic scopedTopic key : Text} {connectionId : ConnectionId}
  {param : Option Text} {payload : Value} {phxRef : Text} {m : PresenceMeta} {connKey : Text × ConnectionId}

variable {removed : List (Text × PresenceMeta)}

variable {entry : Text × PresenceMeta}

namespace PresenceManager

def presencesOf (manager : PresenceManager) (connKey : Text × ConnectionId) : List (Text × PresenceMeta) :=
  listAt manager.connectionPresences connKey

def shown (manager : PresenceManager) (scopedTopic key : Text) : List PresenceMeta := listAt (manager.state scopedTopic) key

def stays (entry : Text × PresenceMeta) (m : PresenceMeta) : Bool := m.phxRef ≠ entry.2.phxRef

theorem withdraw_eq {topicMap} : withdraw topicMap entry = prune (stays entry) topicMap entry.1 := by
  unfold withdraw prune stays
  cases AList.lookup entry.1 topicMap <;> rfl

@[simp] theorem state_new : PresenceManager.new.state scopedTopic = ∅ := rfl

@[simp] theorem shown_new : PresenceManager.new.shown scopedTopic key = [] := rfl

@[simp] theorem presencesOf_new : PresenceManager.new.presencesOf connKey = [] := rfl

theorem state_track : (manager.track serde tenantId connectionId topic param payload phxRef).2.state scopedTopic =
    if scopedTopic = topicKey tenantId topic then
      push (manager.state scopedTopic) (resolvedKey serde connectionId param payload) (metaOf phxRef payload)
    else manager.state scopedTopic := by
  by_cases hs : scopedTopic = topicKey tenantId topic
  · subst hs
    rw [if_pos rfl, state, track, AList.lookup_insert]
    rfl
  · rw [if_neg hs, state, track, AList.lookup_insert_ne hs]
    rfl

theorem shown_track : (manager.track serde tenantId connectionId topic param payload phxRef).2.shown scopedTopic key =
    manager.shown scopedTopic key ++
      if scopedTopic = topicKey tenantId topic ∧ key = resolvedKey serde connectionId param payload then [metaOf phxRef payload] else [] := by
  unfold shown
  rw [state_track]
  by_cases hs : scopedTopic = topicKey tenantId topic
  · rw [if_pos hs, listAt_push]
    by_cases hk : key = resolvedKey serde connectionId param payload
    · simp [hs, hk]
    · simp [hk]
  · simp [hs]

theorem presencesOf_track : (manager.track serde tenantId connectionId topic param payload phxRef).2.presencesOf connKey =
    manager.presencesOf connKey ++ if connKey = (topicKey tenantId topic, connectionId) then
      [(resolvedKey serde connectionId param payload, metaOf phxRef payload)] else [] := by
  have hpu : (manager.track serde tenantId connectionId topic param payload phxRef).2.connectionPresences =
      push manager.connectionPresences (topicKey tenantId topic, connectionId)
        (resolvedKey serde connectionId param payload, metaOf phxRef payload) := rfl
  rw [presencesOf, hpu, listAt_push, presencesOf]
  by_cases hk : connKey = (topicKey tenantId topic, connectionId)
  · simp [hk]
  · simp [hk]

/-! ## `untrack` -/

theorem foldl_withdraw {topicMap} :
    removed.foldl withdraw topicMap = removed.foldl (fun topicMap entry => prune (stays entry) topicMap entry.1) topicMap :=
  congrArg (fun f => removed.foldl f topicMap) (funext fun _ => funext fun _ => withdraw_eq)

theorem foldl_withdraw_empty : removed.foldl withdraw (∅ : HashMap Text (List PresenceMeta)) = ∅ := by
  induction removed with
  | nil => rfl
  | cons entry removed ih => exact ih

theorem state_untrack : (manager.untrack tenantId connectionId topic).2.state scopedTopic =
    if scopedTopic = topicKey tenantId topic then
      (manager.presencesOf (scopedTopic, connectionId)).foldl withdraw (manager.state scopedTopic)
    else manager.state scopedTopic := by
  cases hlo : manager.connectionPresences.lookup (topicKey tenantId topic, connectionId) with
  | none => grind [presencesOf, listAt, untrack]
  | some removed =>
    have hprs : manager.presencesOf (topicKey tenantId topic, connectionId) = removed := by
      simp [presencesOf, listAt, hlo]
    by_cases hs : scopedTopic = topicKey tenantId topic
    · subst hs
      rw [if_pos rfl, hprs]
      by_cases hnil : removed = []
      · subst hnil
        simp only [untrack, hlo, ↓reduceIte]
        rfl
      · cases hsta : manager.topicStates.lookup (topicKey tenantId topic) with
        | none => simp [untrack, hlo, hnil, hsta, state, foldl_withdraw_empty]
        | some topicMap =>
          simp only [untrack, hlo, hnil, ↓reduceIte, hsta, state, Option.getD_some]
          split
          · rename_i hens
            rw [AList.lookup_erase]
            exact (AList.ext hens).symm
          · rw [AList.lookup_insert]
            rfl
    · rw [if_neg hs]
      simp only [untrack, hlo]
      split
      · rfl
      · split
        · rfl
        · simp only [state]
          split
          · rw [AList.lookup_erase_ne hs]
          · rw [AList.lookup_insert_ne hs]

theorem shown_untrack : (manager.untrack tenantId connectionId topic).2.shown scopedTopic key =
    if scopedTopic = topicKey tenantId topic then
      (manager.shown scopedTopic key).filter fun m =>
        (manager.presencesOf (scopedTopic, connectionId)).all fun entry => entry.1 ≠ key || stays entry m
    else manager.shown scopedTopic key := by
  unfold shown
  rw [state_untrack]
  split
  · rw [foldl_withdraw, listAt_foldl_prune]
  · rfl

theorem connectionPresences_untrack : (manager.untrack tenantId connectionId topic).2.connectionPresences =
    manager.connectionPresences.erase (topicKey tenantId topic, connectionId) := by
  cases hlo : manager.connectionPresences.lookup (topicKey tenantId topic, connectionId) with
  | none => simpa [untrack, hlo] using (AList.ext (kerase_of_notMem_keys (AList.lookup_eq_none.mp hlo))).symm
  | some removed => grind [untrack]

theorem presencesOf_untrack : (manager.untrack tenantId connectionId topic).2.presencesOf connKey =
    if connKey = (topicKey tenantId topic, connectionId) then [] else manager.presencesOf connKey := by
  unfold presencesOf listAt
  rw [connectionPresences_untrack]
  split
  · rename_i hk
    rw [hk, AList.lookup_erase]
    rfl
  · rename_i hk
    rw [AList.lookup_erase_ne hk]

/-! ## 知らせ -/

theorem diff_untrack (h : (manager.untrack tenantId connectionId topic).1 = none) :
    manager.presencesOf (topicKey tenantId topic, connectionId) = [] := by
  cases hlo : manager.connectionPresences.lookup (topicKey tenantId topic, connectionId) with
  | none => simp [presencesOf, listAt, hlo]
  | some removed => grind [presencesOf, listAt, untrack]

theorem diff_untrack_some {diff} (h : (manager.untrack tenantId connectionId topic).1 = some diff) :
    manager.presencesOf (topicKey tenantId topic, connectionId) ≠ [] ∧ diff.joins = ∅ ∧ (manager.state (topicKey tenantId topic) ≠ ∅ →
        diff.leaves = leavesOf (manager.presencesOf (topicKey tenantId topic, connectionId))) := by
  cases hlo : manager.connectionPresences.lookup (topicKey tenantId topic, connectionId) with
  | none => simp [untrack, hlo] at h
  | some removed =>
    have hprs : manager.presencesOf (topicKey tenantId topic, connectionId) = removed := by
      simp [presencesOf, listAt, hlo]
    rw [hprs]
    simp only [untrack, hlo] at h
    split at h
    · cases h
    · grind [state]

theorem leavesOf_lookup {v} (h : (leavesOf removed).lookup key = some v) : ∃ m, (key, m) ∈ removed ∧ v = metasValue [m.payload] := by
  suffices hfo : ∀ leaves : HashMap Text Value,
      (removed.foldl (fun leaves entry => leaves.insert entry.1 (metasValue [entry.2.payload])) leaves).lookup key = some v →
        leaves.lookup key = some v ∨ ∃ m, (key, m) ∈ removed ∧ v = metasValue [m.payload] by
    rcases hfo ∅ h with h | h
    · simp at h
    · exact h
  clear h
  induction removed with
  | nil => exact fun leaves h => Or.inl h
  | cons entry removed ih =>
    intro leaves h
    rcases ih _ h with h | ⟨m, hm, hv⟩
    · by_cases hk : key = entry.1
      · subst hk
        rw [AList.lookup_insert, Option.some.injEq] at h
        exact Or.inr ⟨entry.2, mem_cons_self, h.symm⟩
      · rw [AList.lookup_insert_ne hk] at h
        exact Or.inl h
    · exact Or.inr ⟨m, mem_cons_of_mem _ hm, hv⟩

theorem leavesOf_isSome (h : (key, m) ∈ removed) : ((leavesOf removed).lookup key).isSome := by
  suffices hfo : ∀ leaves : HashMap Text Value, (leaves.lookup key).isSome ∨ (∃ m, (key, m) ∈ removed) →
      ((removed.foldl (fun leaves entry => leaves.insert entry.1 (metasValue [entry.2.payload])) leaves).lookup key).isSome by
    exact hfo ∅ (Or.inr ⟨m, h⟩)
  clear h
  induction removed with
  | nil =>
    intro leaves h
    simpa using h
  | cons entry removed ih =>
    intro leaves h
    apply ih
    by_cases hk : key = entry.1
    · subst hk
      left
      simp
    · rw [AList.lookup_insert_ne hk]
      rcases h with h | ⟨m, hm⟩
      · exact Or.inl h
      · grind

end PresenceManager

/-! ## 差分と在席 -/

open Library Lists PresenceManager

variable {view : PresenceView} {w : Watched} {call : PresenceCall}

@[simp] theorem metasOf_metasValue {metas} : metasOf (metasValue metas) = metas := by
  simp [metasOf, metasValue, Value.get, field, Value.asArray]

@[simp] theorem phxRef_metaOf : (metaOf phxRef payload).phxRef = phxRef := rfl

@[simp] theorem refOf_metaOf : refOf (metaOf phxRef payload).payload = some phxRef := by
  exact congrArg (fun v => v.bind Value.asStr) Value.get_insert

theorem find_entries {α : Type} {f : α → Value} {entries : List (Sigma fun _ : Text => α)} :
    ((entries.map fun e => (e.1, f e.2)).find? fun e => e.1 = key).map Prod.snd = (entries.dlookup key).map f := by
  induction entries with
  | nil => rfl
  | cons e entries ih => grind

theorem get_getState : ((manager.getState tenantId topic).get (String.ofList key)).map metasOf =
    ((manager.state (topicKey tenantId topic)).lookup key).map (map PresenceMeta.payload) := by
  have hfi := @find_entries key _ (fun metas => metasValue (metas.map PresenceMeta.payload))
    (manager.state (topicKey tenantId topic)).entries
  rw [getState, Value.get, String.toList_ofList, hfi, Option.map_map, AList.lookup]
  congr 1

namespace PresenceView

def remains (v m : Value) : Bool := refOf m ∉ (metasOf v).map refOf

theorem leave_eq {v} : view.leave key v = prune (remains v) view key := by
  unfold leave prune remains
  cases AList.lookup key view <;> rfl

theorem apply_joins {v} : view.apply { joins := (∅ : HashMap Text Value).insert key v, leaves := ∅ } = view.join key v := by
  simp [apply]

theorem apply_leaves {diff} (h : diff.joins = ∅) :
    view.apply diff = diff.leaves.entries.foldl (fun view e => prune (remains e.2) view e.1) view := by
  have hste : (fun (view : PresenceView) (e : Sigma fun _ : Text => Value) => view.leave e.1 e.2) =
      fun view e => prune (remains e.2) view e.1 := funext fun _ => funext fun _ => leave_eq
  rw [apply, h, AList.empty_entries, foldl_nil, hste]

end PresenceView

/-! ## 保たれること -/

namespace Watched

variable (tenantId topic) in
structure Linked (w : Watched) : Prop where
  shaped : ∀ key, ∀ m ∈ w.manager.shown (topicKey tenantId topic) key, refOf m.payload = some m.phxRef
  full : NoEmpty (w.manager.state (topicKey tenantId topic))
  viewed : NoEmpty w.view
  stored : ∀ connectionId, ∀ entry ∈ w.manager.presencesOf (topicKey tenantId topic, connectionId),
    entry.2 ∈ w.manager.shown (topicKey tenantId topic) entry.1
  distinct : ∀ connectionId, (w.manager.presencesOf (topicKey tenantId topic, connectionId)).Pairwise fun a b => a.2.phxRef ≠ b.2.phxRef
  apart : ∀ c c', c ≠ c' → ∀ a ∈ w.manager.presencesOf (topicKey tenantId topic, c), ∀ b ∈ w.manager.presencesOf (topicKey tenantId topic, c'),
    a.2.phxRef ≠ b.2.phxRef
  known : ∀ connectionId, ∀ entry ∈ w.manager.presencesOf (topicKey tenantId topic, connectionId), entry.2.phxRef ∈ w.used

def Fresh (w : Watched) (call : PresenceCall) : Prop := ∀ phxRef ∈ call.phxRef?, phxRef ∉ w.used

theorem linked_start : start.Linked tenantId topic where
  shaped key m hm := by simp [start] at hm
  full := noEmpty_empty
  viewed := noEmpty_empty
  stored c entry he := by simp [start] at he
  distinct c := by simp [start]
  apart c c' hne a ha := by simp [start] at ha
  known c entry he := by simp [start] at he

theorem mirrored_iff (h : w.Linked tenantId topic) : w.Mirrored tenantId topic ↔
    ∀ key, listAt w.view key = (w.manager.shown (topicKey tenantId topic) key).map PresenceMeta.payload := by
  refine forall_congr' fun key => ?_
  rw [get_getState, h.full.lookup, h.viewed.lookup, shown]
  by_cases hvi : listAt w.view key = []
  · simp [hvi]
  · grind

theorem mem_track {c}
    (h : entry ∈ (manager.track serde tenantId connectionId topic param payload phxRef).2.presencesOf (topicKey tenantId topic, c)) :
    entry ∈ manager.presencesOf (topicKey tenantId topic, c) ∨
      c = connectionId ∧ entry = (resolvedKey serde connectionId param payload, metaOf phxRef payload) := by
  rw [presencesOf_track, mem_append] at h
  rcases h with h | h
  · exact Or.inl h
  · split at h
    · rename_i hk
      exact Or.inr ⟨(Prod.mk.inj hk).2, mem_singleton.mp h⟩
    · simp at h

theorem linked_track (h : w.Linked tenantId topic) (hfr : phxRef ∉ w.used) :
    (w.step serde tenantId topic (.track connectionId param payload phxRef)).Linked tenantId topic where
  shaped key m hm := by
    rw [Watched.step, shown_track, mem_append] at hm
    rcases hm with hm | hm
    · exact h.shaped key m hm
    · split at hm
      · rw [mem_singleton.mp hm, refOf_metaOf]
        rfl
      · simp at hm
  full := by
    simp only [Watched.step, state_track, ↓reduceIte]
    exact h.full.push
  viewed := by
    simp only [Watched.step, track, PresenceView.apply_joins]
    exact h.viewed.insert (by simp)
  stored c entry he := by
    rw [Watched.step, shown_track, mem_append]
    rcases mem_track he with he | ⟨-, rfl⟩
    · exact Or.inl (h.stored c entry he)
    · right
      simp
  distinct c := by
    rw [Watched.step, presencesOf_track, pairwise_append]
    refine ⟨h.distinct c, by split <;> simp, ?_⟩
    intro a ha b hb heq
    split at hb
    · grind [h.known, phxRef_metaOf]
    · simp at hb
  apart c c' hne a ha b hb heq := by
    rcases mem_track ha with ha | ⟨hc, rfl⟩
    · rcases mem_track hb with hb | ⟨-, rfl⟩
      · exact h.apart c c' hne a ha b hb heq
      · have hsa : a.2.phxRef = phxRef := heq
        exact hfr (hsa ▸ h.known c a ha)
    · rcases mem_track hb with hb | ⟨hc', -⟩
      · have hsa : phxRef = b.2.phxRef := heq
        exact hfr (hsa ▸ h.known c' b hb)
      · exact hne (hc.trans hc'.symm)
  known c entry he := by
    rcases mem_track he with he | ⟨-, rfl⟩
    · exact mem_cons_of_mem _ (h.known c entry he)
    · exact mem_cons_self

def leaving (tenantId topic : Text) (w : Watched) (connectionId : ConnectionId) : List (Text × PresenceMeta) :=
  w.manager.presencesOf (topicKey tenantId topic, connectionId)

theorem shown_untracked : (w.step serde tenantId topic (.untrack connectionId)).manager.shown (topicKey tenantId topic) key =
    (w.manager.shown (topicKey tenantId topic) key).filter fun m =>
      (w.leaving tenantId topic connectionId).all fun entry => entry.1 ≠ key || stays entry m := by
  rw [step, shown_untrack, if_pos rfl]
  rfl

theorem view_untracked (key) (h : w.Linked tenantId topic) : NoEmpty (w.step serde tenantId topic (.untrack connectionId)).view ∧
    listAt (w.step serde tenantId topic (.untrack connectionId)).view key = (listAt w.view key).filter fun v =>
      (leavesOf (w.leaving tenantId topic connectionId)).entries.all fun e => e.1 ≠ key || remains e.2 v := by
  cases hdi : (w.manager.untrack tenantId connectionId topic).1 with
  | none =>
    simp only [step, hdi, Option.elim_none]
    rw [leaving, diff_untrack hdi]
    exact ⟨h.viewed, by simp [leavesOf]⟩
  | some diff =>
    obtain ⟨hne, hjos, hles⟩ := diff_untrack_some hdi
    have hsta : w.manager.state (topicKey tenantId topic) ≠ ∅ := by
      intro hem
      obtain ⟨entry, he⟩ := exists_mem_of_ne_nil _ hne
      have hst := h.stored connectionId entry he
      rw [shown, hem, listAt_empty] at hst
      simp at hst
    simp only [step, hdi, Option.elim_some]
    rw [apply_leaves hjos, hles hsta, listAt_foldl_prune]
    exact ⟨h.viewed.foldl_prune, rfl⟩

section

variable (h : w.Linked tenantId topic)

include h

theorem linked_untrack : (w.step serde tenantId topic (.untrack connectionId)).Linked tenantId topic where
  shaped key m hm := by
    rw [shown_untracked] at hm
    exact h.shaped key m (mem_filter.mp hm).1
  full := by
    simp only [step, state_untrack, ↓reduceIte, foldl_withdraw]
    exact h.full.foldl_prune
  viewed := (view_untracked [] h).1
  stored c entry he := by
    rw [step, presencesOf_untrack] at he
    split at he
    · simp at he
    · rename_i hk
      have hc : c ≠ connectionId := fun hc => hk (by rw [hc])
      rw [shown_untracked, mem_filter, all_eq_true]
      refine ⟨h.stored c entry he, fun gone hgo => ?_⟩
      rw [Bool.or_eq_true]
      right
      simpa [stays] using h.apart c connectionId hc entry he gone hgo
  distinct c := by
    rw [step, presencesOf_untrack]
    split
    · simp
    · exact h.distinct c
  apart c c' hne a ha b hb := by
    rw [step, presencesOf_untrack] at ha hb
    split at ha
    · simp at ha
    · split at hb
      · simp at hb
      · exact h.apart c c' hne a ha b hb
  known c entry he := by
    rw [step, presencesOf_untrack] at he
    split at he
    · simp at he
    · exact h.known c entry he

theorem linked_step (hfr : w.Fresh call) : (w.step serde tenantId topic call).Linked tenantId topic := by
  cases call with
  | track connectionId param payload phxRef => exact linked_track h (hfr phxRef rfl)
  | untrack connectionId => exact linked_untrack h

/-! ## 同じであり続ける -/

theorem mirrored_track (hfr : phxRef ∉ w.used) (hmi : w.Mirrored tenantId topic) :
    (w.step serde tenantId topic (.track connectionId param payload phxRef)).Mirrored tenantId topic := by
  rw [mirrored_iff (linked_track h hfr)]
  rw [mirrored_iff h] at hmi
  intro key
  simp only [Watched.step, track, PresenceView.apply_joins, PresenceView.join, listAt_insert, metasOf_metasValue]
  have hsh := @shown_track F serde w.manager tenantId topic (topicKey tenantId topic) key connectionId param payload phxRef
  simp only [track] at hsh
  rw [hsh, map_append, ← hmi key]
  by_cases hk : key = resolvedKey serde connectionId param payload
  · subst hk
    simp [listAt]
  · simp [hk]

theorem remains_iff (hsi : ((w.leaving tenantId topic connectionId).map Prod.fst).Nodup)
    (hm : m ∈ w.manager.shown (topicKey tenantId topic) key) :
    ((leavesOf (w.leaving tenantId topic connectionId)).entries.all fun e => e.1 ≠ key || remains e.2 m.payload) =
      (w.leaving tenantId topic connectionId).all fun entry => entry.1 ≠ key || stays entry m := by
  have href := h.shaped key m hm
  rw [Bool.eq_iff_iff, all_eq_true, all_eq_true]
  constructor
  · rintro hall ⟨name, gone⟩ hgo
    by_cases hk : name = key
    · subst hk
      obtain ⟨v, hv⟩ := Option.isSome_iff_exists.mp (leavesOf_isSome hgo)
      obtain ⟨last, hla, rfl⟩ := leavesOf_lookup hv
      have hsa : (name, gone) = (name, last) := inj_on_of_nodup_map hsi hgo hla rfl
      cases hsa
      have hsty := hall ⟨name, _⟩ (AList.mem_lookup_iff.mp hv)
      have hgoR := h.shaped name gone (h.stored connectionId (name, gone) hgo)
      simpa [remains, href, hgoR, stays] using hsty
    · simp [hk]
  · rintro hall ⟨name, v⟩ he
    by_cases hk : name = key
    · subst hk
      obtain ⟨gone, hgo, rfl⟩ := leavesOf_lookup (AList.mem_lookup_iff.mpr he)
      have hsty := hall (name, gone) hgo
      have hgoR := h.shaped name gone (h.stored connectionId (name, gone) hgo)
      simpa [remains, href, hgoR, stays] using hsty
    · simp [hk]

theorem mirrored_untrack (hmi : w.Mirrored tenantId topic) (hsi : ((w.leaving tenantId topic connectionId).map Prod.fst).Nodup) :
    (w.step serde tenantId topic (.untrack connectionId)).Mirrored tenantId topic := by
  rw [mirrored_iff (linked_untrack h)]
  rw [mirrored_iff h] at hmi
  intro key
  rw [(view_untracked key h).2, shown_untracked, hmi key, filter_map]
  congr 1
  apply filter_congr
  intro m hm
  exact remains_iff h hsi hm

theorem single_of_mirrored (hmi : w.Mirrored tenantId topic)
    (haf : (w.step serde tenantId topic (.untrack connectionId)).Mirrored tenantId topic) :
    ((w.leaving tenantId topic connectionId).map Prod.fst).Nodup := by
  rw [mirrored_iff (linked_untrack h)] at haf
  rw [mirrored_iff h] at hmi
  rw [Nodup, pairwise_map]
  apply (h.distinct connectionId).imp_of_mem
  intro a b ha hb href hkey
  change a ∈ w.leaving tenantId topic connectionId at ha
  -- 知らせに載る在席と `phx_ref` の違うほうが残る。
  obtain ⟨v, hv⟩ := Option.isSome_iff_exists.mp (leavesOf_isSome (show (a.1, a.2) ∈ _ from ha))
  obtain ⟨last, hla, rfl⟩ := leavesOf_lookup hv
  have hls : ∃ x ∈ w.leaving tenantId topic connectionId, x.1 = a.1 ∧ x.2.phxRef ≠ last.phxRef := by
    by_cases hlaR : a.2.phxRef = last.phxRef
    · exact ⟨b, hb, hkey.symm, fun hsa => href (hlaR.trans hsa.symm)⟩
    · exact ⟨a, ha, rfl, hlaR⟩
  obtain ⟨x, hx, hxk, hxr⟩ := hls
  have hst : x.2 ∈ w.manager.shown (topicKey tenantId topic) a.1 := hxk ▸ h.stored connectionId x hx
  have hlaR := h.shaped a.1 last (h.stored connectionId (a.1, last) hla)
  have hvi : x.2.payload ∈ listAt (w.step serde tenantId topic (.untrack connectionId)).view a.1 := by
    rw [(view_untracked a.1 h).2, mem_filter, hmi a.1, all_eq_true]
    refine ⟨mem_map_of_mem hst, ?_⟩
    rintro ⟨name, v'⟩ he
    by_cases hk : name = a.1
    · subst hk
      have hsa := AList.mem_lookup_iff.mpr he
      rw [Option.mem_def, hv, Option.some.injEq] at hsa
      subst hsa
      simp [PresenceView.remains, h.shaped a.1 x.2 hst, hlaR, hxr]
    · simp [hk]
  rw [haf a.1, shown_untracked] at hvi
  obtain ⟨y, hy, hpa⟩ := mem_map.mp hvi
  obtain ⟨hysh, hya⟩ := mem_filter.mp hy
  have hyr : y.phxRef = x.2.phxRef := by grind [→ h.shaped]
  have hys := all_eq_true.mp hya x hx
  simp [hxk, stays, hyr] at hys

theorem single_iff (hmi : w.Mirrored tenantId topic) (hfr : w.Fresh call) :
    w.SingleKeys tenantId topic call ↔ (w.step serde tenantId topic call).Mirrored tenantId topic := by
  cases call with
  | track connectionId param payload phxRef => exact iff_of_true trivial (mirrored_track h (hfr phxRef rfl) hmi)
  | untrack connectionId => exact ⟨mirrored_untrack h hmi, single_of_mirrored h hmi⟩

end

theorem along_fresh {calls} (h : (calls.filterMap PresenceCall.phxRef?).Nodup)
    (hus : ∀ phxRef ∈ calls.filterMap PresenceCall.phxRef?, phxRef ∉ w.used) :
    Along (step serde tenantId topic) Fresh w calls := by
  induction calls generalizing w with
  | nil => trivial
  | cons call calls ih =>
    cases call with
    | track connectionId param payload phxRef =>
      simp only [filterMap_cons, PresenceCall.phxRef?, nodup_cons, mem_cons] at h hus
      refine ⟨fun phxRef' hmem => by cases hmem; exact hus phxRef (Or.inl rfl), ih h.2 ?_⟩
      intro phxRef' hmem hin
      rcases mem_cons.mp hin with hin | hin
      · exact h.1 (hin ▸ hmem)
      · exact hus phxRef' (Or.inr hmem) hin
    | untrack connectionId =>
      simp only [filterMap_cons, PresenceCall.phxRef?] at h hus
      exact ⟨fun phxRef' hmem => (Option.not_mem_none phxRef' hmem).elim, ih h hus⟩

end Watched

end Supacloud.Realtime
