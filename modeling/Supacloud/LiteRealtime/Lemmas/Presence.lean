import Supacloud.Library.Runs
import Supacloud.LiteRealtime.Presence

/-!
# 在席の表と、チャネルと、クライアントの表

表の中身は `metas`、クライアントの表は `viewOf` で述べる。
-/

namespace Supacloud.LiteRealtime

open Library World List

variable {α : Type} {w w' : World α} {cid cid' : ℕ} {topic topic' key key' : String} {channel : Channel α} {message : Message α}

namespace World

def metas (w : World α) (topic key : String) : List (Meta α) := (w.state topic).listAt key

def live (w : World α) (cid : ℕ) : Bool := (w.connections cid).live

def viewOf (w : World α) (cid : ℕ) (topic key : String) : List (Meta α) := view topic (w.connections cid).sent key

def Clean (w : World α) : Prop := ∀ topic state, w.presence.lookup topic = some state → state ≠ ∅ ∧ Lists.NoEmpty state

def Synced (w : World α) : Prop :=
  ∀ cid topic, w.live cid = true → (w.channel cid topic).isSome = true → ∀ key, w.viewOf cid topic key = w.metas topic key

structure Inv (w : World α) : Prop where
  clean : w.Clean
  synced : w.Synced
  refs : ∀ (cid : ℕ) (topic : String) (channel : Channel α), w.channel cid topic = some channel → channel.presenceRef = channel.tracked.map (·.phxRef)
  own : ∀ (cid : ℕ) (topic : String) (channel : Channel α) (m : Meta α), w.channel cid topic = some channel → channel.tracked = some m →
    m ∈ w.metas topic channel.presenceKey
  back : ∀ (topic key : String) (m : Meta α), m ∈ w.metas topic key →
    ∃ cid channel, w.channel cid topic = some channel ∧ channel.presenceKey = key ∧ channel.tracked = some m
  distinct : ∀ (cid cid' : ℕ) (topic topic' : String) (channel channel' : Channel α) (m m' : Meta α), w.channel cid topic = some channel →
    w.channel cid' topic' = some channel' → channel.tracked = some m → channel'.tracked = some m' → m.phxRef = m'.phxRef →
    cid = cid' ∧ topic = topic'
  fresh : ∀ (cid : ℕ) (topic : String) (channel : Channel α) (m : Meta α), w.channel cid topic = some channel → channel.tracked = some m →
    m.phxRef < w.phxRefCounter
  nodup : ∀ topic key, (w.metas topic key).Nodup
  unused : ∀ cid, w.count ≤ cid → ∀ topic, w.channel cid topic = none

/-! ## 一つの書き換え -/

section Connection

variable {connection : Connection α}

theorem connections_set : (w.setConnection cid connection).connections cid' = if cid' = cid then connection else w.connections cid' := by
  simp [setConnection, Function.update_apply]

theorem channel_setConnection : (w.setConnection cid connection).channel cid' topic =
    if cid' = cid then connection.channels.lookup topic else w.channel cid' topic := by
  unfold channel
  rw [connections_set]
  split <;> rfl

theorem live_setConnection : (w.setConnection cid connection).live cid' = if cid' = cid then connection.live else w.live cid' := by
  unfold live
  rw [connections_set]
  split <;> rfl

theorem viewOf_setConnection : (w.setConnection cid connection).viewOf cid' topic key =
    if cid' = cid then view topic connection.sent key else w.viewOf cid' topic key := by
  unfold viewOf
  rw [connections_set]
  split <;> rfl

end Connection

@[simp] theorem channel_setChannel :
    (w.setChannel cid topic channel).channel cid' topic' = if cid' = cid ∧ topic' = topic then some channel else w.channel cid' topic' := by
  unfold setChannel
  rw [channel_setConnection]
  by_cases hto : topic' = topic
  · subst hto
    simp
  · rw [AList.lookup_insert_ne hto]
    by_cases hcid : cid' = cid
    · simp [hcid, hto, World.channel]
    · simp [hcid]

@[simp] theorem channel_deleteChannel :
    (w.deleteChannel cid topic).channel cid' topic' = if cid' = cid ∧ topic' = topic then none else w.channel cid' topic' := by
  unfold deleteChannel
  rw [channel_setConnection]
  by_cases hto : topic' = topic
  · subst hto
    simp
  · rw [AList.lookup_erase_ne hto]
    by_cases hcid : cid' = cid
    · simp [hcid, hto, channel]
    · simp [hcid]

theorem live_same {connection} (h : connection.live = w.live cid) : (w.setConnection cid connection).live cid' = w.live cid' := by
  rw [live_setConnection]
  split
  · rename_i hcid
    rw [hcid, h]
  · rfl

@[simp] theorem live_setChannel : (w.setChannel cid topic channel).live cid' = w.live cid' := live_same rfl

@[simp] theorem live_deleteChannel : (w.deleteChannel cid topic).live cid' = w.live cid' := live_same rfl

theorem viewOf_same {connection} (h : connection.sent = (w.connections cid).sent) :
    (w.setConnection cid connection).viewOf cid' topic key = w.viewOf cid' topic key := by
  rw [viewOf_setConnection]
  split
  · rename_i hcid
    rw [hcid, h]
    rfl
  · rfl

@[simp] theorem viewOf_setChannel : (w.setChannel cid topic channel).viewOf cid' topic' key = w.viewOf cid' topic' key := viewOf_same rfl

@[simp] theorem viewOf_deleteChannel : (w.deleteChannel cid topic).viewOf cid' topic' key = w.viewOf cid' topic' key := viewOf_same rfl

@[simp] theorem metas_setChannel : (w.setChannel cid topic channel).metas topic' key = w.metas topic' key := rfl

@[simp] theorem metas_deleteChannel : (w.deleteChannel cid topic).metas topic' key = w.metas topic' key := rfl

@[simp] theorem channel_broadcast : (w.broadcastToTopic topic message).channel cid' topic' = w.channel cid' topic' := by
  unfold broadcastToTopic channel
  dsimp only
  split <;> rfl

@[simp] theorem live_broadcast : (w.broadcastToTopic topic message).live cid' = w.live cid' := by
  unfold broadcastToTopic live
  dsimp only
  split <;> rfl

@[simp] theorem metas_broadcast : (w.broadcastToTopic topic message).metas topic' key = w.metas topic' key := rfl

theorem view_concat {sent} {joins leaves : List (Meta α)} :
    view topic' (sent ++ [.presenceDiff topic key joins leaves]) key' = if topic' = topic ∧ key' = key then
      (view topic' sent key).filter (fun m => m.phxRef ∉ leaves.map (·.phxRef)) ++ joins else view topic' sent key' := by
  unfold view
  rw [foldl_append]
  by_cases hto : topic' = topic
  · subst hto
    by_cases hkey : key' = key
    · subst hkey
      simp
    · simp [hkey]
  · simp [hto, Ne.symm hto]

theorem viewOf_diff {joins leaves} (hliv : w.live cid = true) (hch : (w.channel cid topic').isSome = true) :
    (w.broadcastToTopic topic (.presenceDiff topic key joins leaves)).viewOf cid topic' key' = if topic' = topic ∧ key' = key then
      (w.viewOf cid topic key).filter (fun m => m.phxRef ∉ leaves.map (·.phxRef)) ++ joins else w.viewOf cid topic' key' := by
  unfold broadcastToTopic viewOf
  unfold live at hliv
  unfold channel at hch
  dsimp only
  by_cases hto : topic' = topic
  · subst hto
    rw [hliv, hch, Bool.and_self, if_pos rfl, view_concat]
  · have hne : ¬ (topic' = topic ∧ key' = key) := fun h => hto h.1
    rw [if_neg hne]
    split
    · rw [view_concat, if_neg hne]
    · rfl

/-! ## 項目を除く -/

theorem metas_insert (w : World α) (topic state) {presence : AList fun _ : String => Lists String (Meta α)}
    (h : presence = w.presence.insert topic state ∨ (state = ∅ ∧ presence = w.presence.erase topic)) :
    ((presence.lookup topic').getD ∅).listAt key = if topic' = topic then state.listAt key else w.metas topic' key := by
  obtain rfl | ⟨rfl, rfl⟩ := h
  · by_cases hto : topic' = topic
    · subst hto
      simp
    · rw [AList.lookup_insert_ne hto, if_neg hto]
      rfl
  · by_cases hto : topic' = topic
    · subst hto
      simp
    · rw [AList.lookup_erase_ne hto, if_neg hto]
      rfl

theorem eq_empty_of_keys {state : Lists String (Meta α)} (h : state.keys = []) : state = ∅ := by
  apply AList.ext
  exact map_eq_nil_iff.mp h

theorem removeMeta_some {ref leaving} (h : w.removeMeta topic key ref = some (leaving, w')) :
    leaving.phxRef = ref ∧ w'.connections = w.connections ∧ w'.phxRefCounter = w.phxRefCounter ∧ w'.count = w.count ∧ (w.Clean → w'.Clean) ∧
      ∀ topic' key', w'.metas topic' key' =
        if topic' = topic ∧ key' = key then (w.metas topic key).filter (·.phxRef ≠ ref) else w.metas topic' key' := by
  unfold removeMeta at h
  split at h
  · cases h
  · rename_i state hst
    split at h
    · cases h
    · rename_i leaving' hfo
      cases h
      have hmes : w.metas topic = state.listAt := by
        funext key
        simp [metas, World.state, hst]
      refine ⟨by simpa using find?_some hfo, rfl, rfl, rfl, ?_, ?_⟩
      · intro hcl topic' state' hst'
        dsimp only at hst'
        by_cases hto : topic' = topic
        · subst hto
          split at hst'
          · simp at hst'
          · rename_i hke
            rw [AList.lookup_insert] at hst'
            cases hst'
            refine ⟨?_, (hcl topic' state hst).2.prune⟩
            intro hnil
            exact hke (by rw [hnil]; rfl)
        · split at hst'
          · rw [AList.lookup_erase_ne hto] at hst'
            exact hcl topic' state' hst'
          · rw [AList.lookup_insert_ne hto] at hst'
            exact hcl topic' state' hst'
      · intro topic' key'
        refine (metas_insert w topic (state.prune (·.phxRef ≠ ref) key) ?_).trans ?_
        · dsimp only
          split
          · rename_i hke
            exact .inr ⟨eq_empty_of_keys hke, rfl⟩
          · exact .inl rfl
        · by_cases hto : topic' = topic
          · subst hto
            rw [if_pos rfl, Lists.listAt_prune, hmes]
            simp
          · simp [hto]

theorem removeMeta_none {ref} (h : w.removeMeta topic key ref = none) : ∀ m ∈ w.metas topic key, m.phxRef ≠ ref := by
  unfold removeMeta at h
  split at h
  · rename_i hst
    simp [metas, state, hst]
  · rename_i state hst
    split at h
    · rename_i hfo
      simpa [metas, World.state, hst] using hfo
    · cases h

theorem removePresence_spec (w : World α) (topic channel) : (w.removePresence topic channel).channel = w.channel ∧ (w.removePresence topic channel).phxRefCounter = w.phxRefCounter ∧
    (w.removePresence topic channel).count = w.count ∧ (w.removePresence topic channel).live = w.live ∧
    (w.Clean → (w.removePresence topic channel).Clean) ∧ (w.Synced → (w.removePresence topic channel).Synced) ∧
    ∀ topic' key', (w.removePresence topic channel).metas topic' key' = if topic' = topic ∧ key' = channel.presenceKey then
      (w.metas topic channel.presenceKey).filter (fun m => channel.presenceRef ≠ some m.phxRef) else w.metas topic' key' := by
  unfold removePresence
  cases href : channel.presenceRef with
  | none => simp
  | some ref =>
    rw [Option.bind_some]
    cases hre : w.removeMeta topic channel.presenceKey ref with
    | none =>
      dsimp only
      refine ⟨rfl, rfl, rfl, rfl, id, id, fun topic' key' => ?_⟩
      split
      · rename_i h
        rw [h.1, h.2]
        refine (filter_eq_self.mpr fun m hm => ?_).symm
        exact decide_eq_true fun heq => removeMeta_none hre m hm (Option.some.inj heq).symm
      · rfl
    | some result =>
      obtain ⟨leaving, w₁⟩ := result
      obtain ⟨hlv, hcos, hco, hcn, hcl, hmes⟩ := removeMeta_some hre
      have hch : w₁.channel = w.channel := by
        unfold World.channel
        rw [hcos]
      have hliv : w₁.live = w.live := by
        unfold live
        rw [hcos]
      dsimp only
      refine ⟨?_, hco, hcn, ?_, hcl, ?_, ?_⟩
      · funext cid topic'
        rw [channel_broadcast, hch]
      · funext cid
        rw [live_broadcast, hliv]
      · intro hsy cid topic' hcid hjo key'
        rw [live_broadcast] at hcid
        rw [channel_broadcast] at hjo
        have hold : ∀ key, w₁.viewOf cid topic' key = w.metas topic' key := by
          unfold viewOf
          rw [hcos]
          exact hsy cid topic' (hliv ▸ hcid) (hch ▸ hjo)
        rw [viewOf_diff hcid hjo, metas_broadcast, hmes]
        split
        · rename_i h
          obtain ⟨rfl, rfl⟩ := h
          rw [hold]
          simp [hlv]
        · exact hold key'
      · intro topic' key'
        rw [metas_broadcast, hmes]
        simp [eq_comm]

/-! ## 出来事 -/

theorem Inv.untracked (new) (h : w.Inv) (hch : w.channel cid topic = some channel)
    (hnew : ∀ channel', new = some channel' → channel'.presenceRef = none ∧ channel'.tracked = none)
    (hchs : ∀ cid' topic', w'.channel cid' topic' = if cid' = cid ∧ topic' = topic then new else w.channel cid' topic')
    (hmes : ∀ topic' key', w'.metas topic' key' = if topic' = topic ∧ key' = channel.presenceKey then
      (w.metas topic channel.presenceKey).filter (fun m => channel.presenceRef ≠ some m.phxRef) else w.metas topic' key')
    (hco : w'.phxRefCounter = w.phxRefCounter) (hcn : w'.count = w.count) (hcl : w'.Clean) (hsy : w'.Synced) : w'.Inv := by
  have hrf := h.refs cid topic channel hch
  constructor
  · exact hcl
  · exact hsy
  · grind [h.refs]
  · intro cid' topic' channel' m hc hm
    have hold : w.channel cid' topic' = some channel' := by grind
    have hmem := h.own cid' topic' channel' m hold hm
    rw [hmes]
    split
    · rename_i hsa
      refine mem_filter.mpr ⟨by grind, ?_⟩
      have hne : ∀ m', channel.tracked = some m' → m'.phxRef ≠ m.phxRef := by grind [h.distinct]
      cases htr : channel.tracked <;> grind
    · exact hmem
  · grind [h.back]
  · grind [h.distinct]
  · intro cid' topic' channel' m hc hm
    rw [hco]
    exact h.fresh cid' topic' channel' m (by grind) hm
  · intro topic' key'
    rw [hmes]
    split
    · exact (h.nodup _ _).filter _
    · exact h.nodup _ _
  · grind [h.unused]

theorem Inv.leaveChannel (cid topic) (h : w.Inv) : (w.leaveChannel cid topic).Inv ∧ (w.leaveChannel cid topic).channel cid topic = none ∧
    (w.leaveChannel cid topic).count = w.count := by
  unfold World.leaveChannel
  cases hch : w.channel cid topic with
  | none => exact ⟨h, hch, rfl⟩
  | some channel =>
    dsimp only
    obtain ⟨hchs, hco, hcn, hliv, hcl, hsy, hmes⟩ := removePresence_spec (w.deleteChannel cid topic) topic channel
    refine ⟨h.untracked none hch nofun (fun cid' topic' => ?_) hmes hco hcn (hcl h.clean) (hsy ?_), ?_, hcn⟩
    · rw [hchs, channel_deleteChannel]
    · intro cid' topic' hcid hjo key
      rw [live_deleteChannel] at hcid
      rw [channel_deleteChannel] at hjo
      rw [viewOf_deleteChannel, metas_deleteChannel]
      refine h.synced cid' topic' hcid ?_ key
      grind
    · rw [hchs, channel_deleteChannel, if_pos ⟨rfl, rfl⟩]

theorem Inv.untrack (h : w.Inv) : (w.untrack cid topic).Inv := by
  unfold World.untrack
  cases hch : w.channel cid topic with
  | none => exact h
  | some channel =>
    dsimp only
    obtain ⟨hchs, hco, hcn, hliv, hcl, hsy, hmes⟩ := removePresence_spec
      (w.setChannel cid topic { channel with presenceRef := none, tracked := none }) topic channel
    refine h.untracked (some { channel with presenceRef := none, tracked := none }) hch ?_ (fun cid' topic' => ?_) hmes hco hcn
      (hcl h.clean) (hsy ?_)
    · intro channel' hnew
      cases hnew
      exact ⟨rfl, rfl⟩
    · rw [hchs, channel_setChannel]
    · intro cid' topic' hcid hjo key
      rw [live_setChannel] at hcid
      rw [channel_setChannel] at hjo
      rw [viewOf_setChannel, metas_setChannel]
      refine h.synced cid' topic' hcid ?_ key
      grind

theorem Inv.tracked {entry} (h : w.Inv) (hch : w.channel cid topic = some channel) (hen : entry.phxRef = w.phxRefCounter)
    (hchs : ∀ cid' topic', w'.channel cid' topic' = if cid' = cid ∧ topic' = topic then
      some { channel with presenceRef := some w.phxRefCounter, tracked := some entry } else w.channel cid' topic')
    (hmes : ∀ topic' key', w'.metas topic' key' = if topic' = topic ∧ key' = channel.presenceKey then
      (w.metas topic channel.presenceKey).filter (fun m => channel.presenceRef ≠ some m.phxRef) ++ [entry] else w.metas topic' key')
    (hco : w'.phxRefCounter = w.phxRefCounter + 1) (hcn : w'.count = w.count) (hcl : w'.Clean) (hsy : w'.Synced) : w'.Inv := by
  have hrf := h.refs cid topic channel hch
  have hlt : ∀ topic' key' m, m ∈ w.metas topic' key' → m.phxRef < w.phxRefCounter := by grind [→ h.back, → h.fresh]
  constructor
  · exact hcl
  · exact hsy
  · grind [h.refs]
  · intro cid' topic' channel' m hc hm
    rw [hmes]
    by_cases hsa : cid' = cid ∧ topic' = topic
    · grind
    · have hold : w.channel cid' topic' = some channel' := by grind
      have hmem := h.own cid' topic' channel' m hold hm
      split
      · refine mem_append_left _ (mem_filter.mpr ⟨by grind, ?_⟩)
        have hne : ∀ m', channel.tracked = some m' → m'.phxRef ≠ m.phxRef := by grind [h.distinct]
        cases htr : channel.tracked <;> grind
      · exact hmem
  · grind [h.back]
  · intro cid₁ cid₂ topic₁ topic₂ channel₁ channel₂ m₁ m₂ hc₁ hc₂ hm₁ hm₂ heq
    have hfr := h.fresh
    have hdi := h.distinct cid₁ cid₂ topic₁ topic₂ channel₁ channel₂ m₁ m₂
    grind
  · intro cid' topic' channel' m hc hm
    have hfr := h.fresh cid' topic' channel' m
    grind
  · intro topic' key'
    rw [hmes]
    split
    · refine List.Nodup.append ((h.nodup _ _).filter _) (nodup_singleton _) ?_
      intro m hm hm'
      have hold := hlt topic channel.presenceKey m (mem_filter.mp hm).1
      rw [mem_singleton.mp hm', hen] at hold
      exact Nat.lt_irrefl _ hold
    · exact h.nodup _ _
  · grind [h.unused]

theorem Inv.track {payload} (h : w.Inv) : (w.track cid topic payload).Inv := by
  unfold World.track
  cases hch : w.channel cid topic with
  | none => exact h
  | some channel =>
    dsimp only
    generalize hprs : ((w.state topic).listAt channel.presenceKey).find? (fun m => channel.presenceRef = some m.phxRef) = previous
    generalize hen : (Meta.mk _ _ _ : Meta α) = entry
    have hles : ∀ m ∈ w.metas topic channel.presenceKey,
        decide (m.phxRef ∉ previous.toList.map (·.phxRef)) = decide (channel.presenceRef ≠ some m.phxRef) := by
      intro m hm
      cases previous with
      | none =>
        have := find?_eq_none.mp hprs m hm
        simpa using this
      | some old => grind
    generalize hots : ((w.state topic).listAt channel.presenceKey).filter (fun m => channel.presenceRef ≠ some m.phxRef) = others
    generalize hst : (w.state topic).insert channel.presenceKey (others ++ [entry]) = state
    have hli : ∀ key', Lists.listAt state key' = if key' = channel.presenceKey then others ++ [entry] else w.metas topic key' := by
      intro key'
      rw [← hst, Lists.listAt_insert]
      rfl
    have hmes : ∀ topic' key', (Lists.listAt (((w.presence.insert topic state).lookup topic').getD ∅) key') =
        if topic' = topic ∧ key' = channel.presenceKey then others ++ [entry] else w.metas topic' key' := by
      intro topic' key'
      rw [metas_insert w topic state (.inl rfl), hli]
      by_cases hto : topic' = topic
      · simp [hto]
      · simp [hto]
    have hsto : others = (w.metas topic channel.presenceKey).filter (fun m => channel.presenceRef ≠ some m.phxRef) := hots.symm
    refine h.tracked hch (by rw [← hen]) (fun cid' topic' => ?_) (fun topic' key' => hsto ▸ hmes topic' key') rfl rfl ?_ ?_
    · rw [channel_broadcast, channel_setChannel]
      rfl
    · intro topic' state' hst'
      have hlo : (w.presence.insert topic state).lookup topic' = some state' := hst'
      by_cases hto : topic' = topic
      · subst hto
        rw [AList.lookup_insert] at hlo
        cases hlo
        have hold : (w.state topic').NoEmpty := by
          unfold World.state
          cases hlo : w.presence.lookup topic' with
          | none => exact Lists.noEmpty_empty
          | some old => exact (h.clean topic' old hlo).2
        refine ⟨?_, hst ▸ hold.insert (by simp)⟩
        intro hnil
        have hkey := hli channel.presenceKey
        rw [hnil, if_pos rfl] at hkey
        simp at hkey
      · rw [AList.lookup_insert_ne hto] at hlo
        exact h.clean topic' state' hlo
    · intro cid' topic' hliv hjo key'
      rw [live_broadcast] at hliv
      rw [channel_broadcast] at hjo
      rw [viewOf_diff hliv hjo]
      refine Eq.trans ?_ (hmes topic' key').symm
      rw [live_setChannel] at hliv
      rw [channel_setChannel] at hjo
      simp only [viewOf_setChannel]
      have hvi : ∀ key, w.viewOf cid' topic' key = w.metas topic' key := by
        refine h.synced cid' topic' hliv ?_
        by_cases hsa : cid' = cid ∧ topic' = topic
        · simp [hsa.1, hsa.2, hch]
        · rw [if_neg hsa] at hjo
          exact hjo
      split
      · rename_i hsa
        obtain ⟨rfl, rfl⟩ := hsa
        rw [hsto]
        refine congrArg (· ++ [entry]) ((congrArg _ (hvi channel.presenceKey)).trans ?_)
        exact filter_congr hles
      · exact hvi key'

theorem Inv.handleJoin {uuid key} (h : w.Inv) (hcid : cid < w.count) : (w.handleJoin cid topic key uuid).Inv := by
  unfold World.handleJoin
  obtain ⟨hle, hno, hcn⟩ := h.leaveChannel cid topic
  dsimp only
  generalize w.leaveChannel cid topic = w₁ at hle hno hcn
  generalize hnew : (Channel.mk _ _ _ : Channel α) = channel
  have htr : channel.tracked = none ∧ channel.presenceRef = none := by
    rw [← hnew]
    exact ⟨rfl, rfl⟩
  generalize hme : Message.presenceState topic _ = message
  have hchs : ∀ cid' topic', ((w₁.setChannel cid topic channel).send cid message).channel cid' topic' =
      if cid' = cid ∧ topic' = topic then some channel else w₁.channel cid' topic' := by
    intro cid' topic'
    rw [← channel_setChannel, send, channel_setConnection]
    split
    · rename_i hsa
      rw [hsa]
      rfl
    · rfl
  have hliv : ∀ cid', ((w₁.setChannel cid topic channel).send cid message).live cid' = w₁.live cid' :=
    fun cid' => Eq.trans (live_same rfl) live_setChannel
  have hvi : ∀ cid' topic' key', ((w₁.setChannel cid topic channel).send cid message).viewOf cid' topic' key' =
      if cid' = cid ∧ topic' = topic then w₁.metas topic key' else w₁.viewOf cid' topic' key' := by
    intro cid' topic' key'
    rw [send, viewOf_setConnection, ← hme, view, foldl_append]
    by_cases hsa : cid' = cid
    · by_cases hto : topic' = topic
      · subst hto
        simp
        rfl
      · simp only [hsa, hto, Ne.symm hto, and_false, if_true, if_false, foldl_cons, foldl_nil]
        exact viewOf_setChannel (w := w₁)
    · simp [hsa]
  constructor
  · exact hle.clean
  · intro cid' topic' hci' hjo key'
    rw [hliv] at hci'
    rw [hchs] at hjo
    rw [hvi]
    by_cases hsa : cid' = cid ∧ topic' = topic
    · rw [if_pos hsa, hsa.2]
      rfl
    · rw [if_neg hsa] at hjo ⊢
      exact hle.synced cid' topic' hci' hjo key'
  · grind [hle.refs]
  · intro cid' topic' channel' m hc hm
    exact hle.own cid' topic' channel' m (by grind) hm
  · intro topic' key' m hm
    obtain ⟨cid', channel', hc, hkey, hm'⟩ := hle.back topic' key' m hm
    exact ⟨cid', channel', by grind, hkey, hm'⟩
  · intro cid₁ cid₂ topic₁ topic₂ channel₁ channel₂ m₁ m₂ hc₁ hc₂ hm₁ hm₂
    exact hle.distinct cid₁ cid₂ topic₁ topic₂ channel₁ channel₂ m₁ m₂ (by grind) (by grind) hm₁ hm₂
  · intro cid' topic' channel' m hc hm
    exact hle.fresh cid' topic' channel' m (by grind) hm
  · exact hle.nodup
  · intro cid' hge topic'
    have hne : cid' ≠ cid := by
      have hge' : w₁.count ≤ cid' := hge
      omega
    rw [hchs, if_neg (fun hsa => hne hsa.1)]
    exact hle.unused cid' hge topic'

theorem Inv.leaveAll (cid) (topics : List String) (h : w.Inv) : (topics.foldl (fun w topic => w.leaveChannel cid topic) w).Inv := by
  induction topics generalizing w with
  | nil => exact h
  | cons topic topics ih => exact ih (h.leaveChannel cid topic).1

theorem Inv.frame (h : w.Inv) (hch : w'.channel = w.channel) (hliv : ∀ cid topic, w'.live cid = true → (w.channel cid topic).isSome = true →
      w.live cid = true ∧ ∀ key, w'.viewOf cid topic key = w.viewOf cid topic key) (hpr : w'.presence = w.presence)
    (hco : w'.phxRefCounter = w.phxRefCounter) (hcn : w.count ≤ w'.count) : w'.Inv := by
  have hmes : w'.metas = w.metas := by
    unfold metas state
    rw [hpr]
  refine ⟨by unfold Clean; exact hpr ▸ h.clean, ?_, hch ▸ h.refs, hmes ▸ hch ▸ h.own, hmes ▸ hch ▸ h.back,
    hch ▸ h.distinct, hco ▸ hch ▸ h.fresh, hmes ▸ h.nodup, fun cid hge => hch ▸ h.unused cid (hcn.trans hge)⟩
  intro cid topic hcid hjo key
  rw [hch] at hjo
  obtain ⟨hold, hvi⟩ := hliv cid topic hcid hjo
  rw [hvi, hmes]
  exact h.synced cid topic hold hjo key

theorem Inv.close (h : w.Inv) : (w.close cid).Inv := by
  unfold World.close
  dsimp only
  have hle := h.leaveAll cid (w.connections cid).channels.keys
  generalize (w.connections cid).channels.keys.foldl (fun w topic => w.leaveChannel cid topic) w = w₁ at hle
  refine hle.frame ?_ ?_ rfl rfl le_rfl
  · funext cid' topic
    rw [channel_setConnection]
    split
    · rename_i hcid
      rw [hcid]
      rfl
    · rfl
  · grind [live_setConnection, viewOf_same]

theorem Inv.step {event} (h : w.Inv) : (w.step event).Inv := by
  unfold World.step
  split
  · rename_i hcid
    cases event with
    | connect =>
      refine h.frame ?_ ?_ rfl rfl (Nat.le_succ _)
      · funext cid topic
        refine channel_setConnection.trans ?_
        split
        · rename_i hcid
          rw [hcid, h.unused w.count le_rfl]
          simp
        · rfl
      · intro cid topic hliv hjo
        have hne : cid ≠ w.count := by
          rintro rfl
          rw [h.unused w.count le_rfl] at hjo
          cases hjo
        have hli' : (w.setConnection w.count { live := true, channels := ∅, sent := [] }).live cid = true := hliv
        rw [live_setConnection, if_neg hne] at hli'
        refine ⟨hli', fun key => ?_⟩
        refine viewOf_setConnection.trans ?_
        rw [if_neg hne]
    | join cid topic key uuid => exact h.handleJoin (by simpa [Event.cid] using hcid)
    | track cid topic payload => exact h.track
    | untrack cid topic => exact h.untrack
    | leave cid topic | expire cid topic => exact (h.leaveChannel cid topic).1
    | close cid => exact h.close
  · exact h

theorem inv_start : (start : World α).Inv := by
  have hno : ∀ cid topic, (start : World α).channel cid topic = none := fun _ _ => rfl
  have hnil : ∀ topic key, (start : World α).metas topic key = [] := fun _ _ => rfl
  constructor
  · intro topic state hst
    cases hst
  · intro cid topic _ hjo
    cases hjo
  all_goals grind

end World

end Supacloud.LiteRealtime
