import Supacloud.Realtime.Lemmas.Gateway

/-!
# 在席の持ち主

在席は、知らせた接続の記録に必ずある。切れた接続の記録が残らないための条件。
-/

namespace Supacloud.Realtime

open Library Lists PresenceManager ChannelHub PresenceManager Gateway List

variable {F : Type} {serde : Serde F} {jwt : Jwt} {registry : TenantRegistry} {manager : PresenceManager}
  {hub hub' : ChannelHub F} {session : Session} {tenantId topic key scopedTopic : Text} {c : ConnectionId} {w : Gateway F}
  {param : Option Text} {payload : Value} {phxRef : Text} {topics : List Text}

def PresenceManager.Owned (manager : PresenceManager) : Prop :=
  ∀ scopedTopic key, ∀ m ∈ manager.shown scopedTopic key, ∃ c, (key, m) ∈ manager.presencesOf (scopedTopic, c)

namespace PresenceManager

theorem Owned.track (h : manager.Owned) : (manager.track serde tenantId c topic param payload phxRef).2.Owned := by
  intro scopedTopic key m hm
  simp only [presencesOf_track]
  rw [shown_track, mem_append] at hm
  rcases hm with hm | hm
  · obtain ⟨c', hc'⟩ := h scopedTopic key m hm
    exact ⟨c', mem_append_left _ hc'⟩
  · split at hm
    · rename_i hsa
      obtain ⟨rfl, rfl⟩ := hsa
      rw [mem_singleton.mp hm]
      exact ⟨c, mem_append_right _ (by simp)⟩
    · simp at hm

theorem Owned.untrack (h : manager.Owned) : (manager.untrack tenantId c topic).2.Owned := by
  intro scopedTopic key m hm
  rw [shown_untrack] at hm
  simp only [presencesOf_untrack]
  split at hm
  · rename_i hs
    obtain ⟨hsh, hall⟩ := mem_filter.mp hm
    obtain ⟨c', hc'⟩ := h scopedTopic key m hsh
    refine ⟨c', ?_⟩
    rw [if_neg]
    · exact hc'
    · rintro heq
      cases heq
      have hsta := all_eq_true.mp hall (key, m) hc'
      simp [stays] at hsta
  · rename_i hs
    obtain ⟨c', hc'⟩ := h scopedTopic key m hm
    refine ⟨c', ?_⟩
    rw [if_neg fun heq => hs (congrArg Prod.fst heq)]
    exact hc'

theorem Owned.untrackTopics (h : manager.Owned) : (untrackTopics c tenantId topics manager).2.Owned := by
  induction topics generalizing manager with
  | nil => exact h
  | cons topic topics ih => exact ih h.untrack

theorem presencesOf_untrackTopics {connKey} : (untrackTopics c tenantId topics manager).2.presencesOf connKey =
    if connKey.2 = c ∧ ∃ topic ∈ topics, connKey.1 = topicKey tenantId topic then [] else manager.presencesOf connKey := by
  induction topics generalizing manager with
  | nil => simp [untrackTopics]
  | cons topic topics ih =>
    have hre := @ih (manager.untrack tenantId c topic).2
    rw [presencesOf_untrack] at hre
    simp only [untrackTopics, hre, exists_mem_cons_iff]
    by_cases hc : connKey.2 = c
    · by_cases hto : connKey.1 = topicKey tenantId topic
      · have hkey : connKey = (topicKey tenantId topic, c) := Prod.ext hto hc
        simp [hkey]
      · grind
    · have hkey : connKey ≠ (topicKey tenantId topic, c) := fun heq => hc (by rw [heq])
      simp [hc, hkey]

end PresenceManager

namespace ChannelHub

def Settled (hub : ChannelHub F) : Prop :=
  ∀ c, hub.connections.lookup c = none → ∀ scopedTopic, hub.presence.presencesOf (scopedTopic, c) = []

theorem settled_iff_tenantOf : hub.Settled ↔ ∀ c, hub.tenantOf c = none → ∀ scopedTopic, hub.presence.presencesOf (scopedTopic, c) = [] := by
  simp [Settled, tenantOf]

def Covers (hub : ChannelHub F) (c : ConnectionId) : Prop :=
  ∀ conn, hub.connections.lookup c = some conn → ∀ scopedTopic, hub.presence.presencesOf (scopedTopic, c) ≠ [] →
    conn.tenantId ≠ [] ∧ ∃ topic ∈ conn.subscriptions.keys, scopedTopic = topicKey conn.tenantId topic

theorem presencesOf_removeConnection {connKey conn} (hco : hub.connections.lookup c = some conn) :
    (hub.removeConnection c).2.presence.presencesOf connKey =
      if conn.tenantId ≠ [] ∧ connKey.2 = c ∧ ∃ topic ∈ conn.subscriptions.keys, connKey.1 = topicKey conn.tenantId topic then []
      else hub.presence.presencesOf connKey := by
  by_cases hne : conn.tenantId = []
  · simp [removeConnection, hco, hne]
  · simp [removeConnection, hco, hne, presencesOf_untrackTopics]

theorem owned_removeConnection (h : hub.presence.Owned) : (hub.removeConnection c).2.presence.Owned := by
  unfold removeConnection
  split
  · exact h
  · simp only
    split
    · exact h
    · exact h.untrackTopics

theorem covers_iff {conn} (hco : hub.connections.lookup c = some conn) (h : hub.Settled) :
    hub.Covers c ↔ (hub.removeConnection c).2.Settled := by
  rw [settled_iff_tenantOf]
  rw [settled_iff_tenantOf] at h
  constructor
  · intro hcos c' hno scopedTopic
    rw [presencesOf_removeConnection hco]
    split
    · rfl
    · rename_i hke
      rw [tenantOf_removeConnection] at hno
      by_cases hc : c' = c
      · subst hc
        by_contra hsm
        obtain ⟨hne, hto⟩ := hcos conn hco scopedTopic hsm
        exact hke ⟨hne, rfl, hto⟩
      · rw [if_neg hc] at hno
        exact h c' hno scopedTopic
  · intro hse conn' hco' scopedTopic hsm
    rw [hco, Option.some.injEq] at hco'
    subst hco'
    have hno := hse c (by rw [tenantOf_removeConnection, if_pos rfl]) scopedTopic
    rw [presencesOf_removeConnection hco] at hno
    split at hno
    · rename_i hgo
      exact ⟨hgo.1, hgo.2.2⟩
    · exact absurd hno hsm

end ChannelHub

/-! ## 伝言の列 -/

theorem Change.owned (h : Change serde hub session hub') (how : hub.presence.Owned) : hub'.presence.Owned := by
  cases h with
  | kept | joined topic config => exact how
  | left topic | untracked topic => exact how.untrack
  | tracked topic payload phxRef => exact how.track

theorem settled_untrack (h : ∀ scopedTopic, manager.presencesOf (scopedTopic, c) = []) {c'} :
    (manager.untrack tenantId c' topic).2.presencesOf (scopedTopic, c) = [] := by
  rw [presencesOf_untrack]
  split
  · rfl
  · exact h scopedTopic

theorem Change.settled (h : Change serde hub session hub') (hli : (hub.tenantOf session.connectionId).isSome)
    (hse : hub.Settled) : hub'.Settled := by
  rw [settled_iff_tenantOf] at hse ⊢
  intro c hno scopedTopic
  rw [h.tenantOf] at hno
  have hgo := hse c hno
  cases h with
  | kept | joined topic config => exact hgo scopedTopic
  | left topic | untracked topic => exact settled_untrack hgo
  | tracked topic payload phxRef =>
    simp only [trackPresence, presencesOf_track]
    rw [hgo scopedTopic, if_neg]
    · rfl
    · intro heq
      rw [(Prod.mk.inj heq).2] at hno
      rw [hno] at hli
      cases hli

namespace Gateway

def NoGhost (w : Gateway F) : Prop :=
  (∀ tenantId topic key, ∀ v ∈ ((w.hub.getPresenceState tenantId topic).get (String.ofList key)).elim [] metasOf,
    ∃ c entry, (w.hub.connections.lookup c).isSome ∧ entry ∈ w.hub.presence.presencesOf (topicKey tenantId topic, c) ∧
      entry.1 = key ∧ entry.2.payload = v) ∧ w.hub.Settled

theorem noGhost_iff (how : w.hub.presence.Owned) : w.NoGhost ↔ w.hub.Settled := by
  refine ⟨And.right, fun hse => ⟨fun tenantId topic key v hv => ?_, hse⟩⟩
  have hget : v ∈ (((w.hub.presence.getState tenantId topic).get (String.ofList key)).map metasOf).getD [] := by
    unfold getPresenceState at hv
    cases hst : (w.hub.presence.getState tenantId topic).get (String.ofList key) with
    | none => simp [hst] at hv
    | some state => simpa [hst] using hv
  rw [get_getState] at hget
  have hsh : ∃ m ∈ w.hub.presence.shown (topicKey tenantId topic) key, m.payload = v := by
    unfold shown listAt
    cases hst : (w.hub.presence.state (topicKey tenantId topic)).lookup key with
    | none => simp [hst] at hget
    | some metas => simpa [hst] using hget
  obtain ⟨m, hm, hpa⟩ := hsh
  obtain ⟨c, hc⟩ := how _ _ m hm
  refine ⟨c, (key, m), ?_, hc, rfl, hpa⟩
  rw [Option.isSome_iff_ne_none]
  intro hno
  rw [hse c hno] at hc
  simp at hc

def CleansUp (w : Gateway F) : Event → Prop
  | .disconnect c => w.hub.Covers c
  | _ => True

structure Kept (w : Gateway F) : Prop where
  wired : w.Wired
  owned : w.hub.presence.Owned

theorem kept_start : (start registry : Gateway F).Kept where
  wired := wired_start
  owned scopedTopic key m hm := by simp [start, ChannelHub.new] at hm

theorem Kept.step {e} (h : w.Kept) : (w.step serde jwt e).Kept := by
  refine ⟨h.wired.step, ?_⟩
  cases e with
  | message c msg phxRef =>
    simp only [Gateway.step]
    cases w.sockets.lookup c with
    | none => exact h.owned
    | some session => exact handled_message.1.owned h.owned
  | disconnect c =>
    simp only [Gateway.step]
    cases w.sockets.lookup c with
    | none => exact h.owned
    | some session => exact owned_removeConnection h.owned
  | _ => exact h.owned

theorem settled_connect {role} (h : w.hub.Settled) : (w.hub.addConnection c tenantId role).Settled := by
  rw [settled_iff_tenantOf] at h ⊢
  intro c' hno
  rw [tenantOf_addConnection] at hno
  split at hno
  · cases hno
  · exact h c' hno

theorem cleansUp_iff {e} (h : w.Kept) (hse : w.hub.Settled) : w.CleansUp e ↔ (w.step serde jwt e).hub.Settled := by
  cases e with
  | connect tenantId role => exact iff_of_true trivial (settled_connect hse)
  | message c msg phxRef =>
    simp only [step]
    cases hso : w.sockets.lookup c with
    | none => exact iff_of_true trivial hse
    | some session =>
      refine iff_of_true trivial (handled_message.1.settled ?_ hse)
      rw [h.wired.tenant hso]
      rfl
  | disconnect c =>
    simp only [step]
    have hte := h.wired.tenants c
    cases hso : w.sockets.lookup c with
    | none =>
      rw [hso, tenantOf, Option.map_none, Option.map_eq_none_iff] at hte
      refine iff_of_true (fun conn hco => ?_) hse
      rw [hte] at hco
      cases hco
    | some session =>
      rw [hso, tenantOf, Option.map_some] at hte
      obtain ⟨conn, hco, -⟩ := Option.map_eq_some_iff.mp hte
      have hsl := (h.wired.known c session hso).1
      simp only [Option.elim_some, disconnect, handleDisconnect, hsl]
      exact covers_iff hco hse
  | apiBroadcast tenantId topic payload | ingestCdc tenantId change now | registryCall call => exact iff_of_true trivial hse

end Gateway

/-!
## 二通りの在席の記録

話題と鍵ごとの列と、接続ごとの記録は、同じ在席を持ち続ける。
-/

variable {used : List Text}

namespace PresenceManager

def presences (manager : PresenceManager) : List ((Text × ConnectionId) × Text × PresenceMeta) := pairs manager.connectionPresences

def recorded (presences : List ((Text × ConnectionId) × Text × PresenceMeta)) (scopedTopic key : Text) : List PresenceMeta :=
  (presences.filter fun p => p.1.1 = scopedTopic && p.2.1 = key).map fun p => p.2.2

structure Represented (manager : PresenceManager) : Prop where
  metas : ∀ scopedTopic key, (manager.shown scopedTopic key).Perm (recorded manager.presences scopedTopic key)
  lists : ∀ scopedTopic, NoEmpty (manager.state scopedTopic)
  topics : ∀ scopedTopic, manager.topicStates.lookup scopedTopic ≠ some ∅

structure Stored (manager : PresenceManager) (used : List Text) : Prop extends manager.Represented where
  distinct : (manager.presences.map fun p => p.2.2.phxRef).Nodup
  known : ∀ p ∈ manager.presences, p.2.2.phxRef ∈ used

theorem perm_recorded {ps ps' : List ((Text × ConnectionId) × Text × PresenceMeta)} (h : ps.Perm ps') :
    (recorded ps scopedTopic key).Perm (recorded ps' scopedTopic key) := (h.filter _).map _

theorem stored_new : new.Stored [] where
  metas _ _ := .refl []
  lists _ := noEmpty_empty
  topics _ := by simp [new]
  distinct := nodup_nil
  known _ hp := (not_mem_nil hp).elim

theorem presences_track : (manager.track serde tenantId c topic param payload phxRef).2.presences.Perm
    (((topicKey tenantId topic, c), resolvedKey serde c param payload, metaOf phxRef payload) :: manager.presences) :=
  pairs_push

theorem Stored.track (h : manager.Stored used) (hfr : phxRef ∉ used) :
    (manager.track serde tenantId c topic param payload phxRef).2.Stored (phxRef :: used) where
  metas scopedTopic key := by
    rw [shown_track]
    refine .trans ?_ (perm_recorded presences_track).symm
    by_cases hsa : scopedTopic = topicKey tenantId topic ∧ key = resolvedKey serde c param payload
    · obtain ⟨rfl, rfl⟩ := hsa
      simpa [recorded] using ((h.metas _ _).append_right [metaOf phxRef payload]).trans (perm_append_singleton _ _)
    · have hno : ¬ (topicKey tenantId topic = scopedTopic ∧ resolvedKey serde c param payload = key) := by grind
      simpa [recorded, hsa, hno] using h.metas scopedTopic key
  lists scopedTopic := by
    rw [state_track]
    split
    · exact (h.lists scopedTopic).push
    · exact h.lists scopedTopic
  topics scopedTopic := by
    unfold PresenceManager.track
    by_cases hs : scopedTopic = topicKey tenantId topic
    · rw [hs, AList.lookup_insert]
      intro heq
      simpa using congrArg (AList.lookup (resolvedKey serde c param payload)) (Option.some.inj heq)
    · rw [AList.lookup_insert_ne hs]
      exact h.topics scopedTopic
  distinct := by
    refine (presences_track.map _).nodup_iff.mpr (nodup_cons.mpr ⟨fun hmem => ?_, h.distinct⟩)
    obtain ⟨p, hp, heq⟩ := mem_map.mp hmem
    have hkn := h.known p hp
    rw [heq] at hkn
    exact hfr hkn
  known p hp := by
    rcases mem_cons.mp (presences_track.mem_iff.mp hp) with rfl | hp
    · exact mem_cons_self
    · exact mem_cons_of_mem _ (h.known p hp)

theorem topicStates_untrack (h : manager.topicStates.lookup scopedTopic ≠ some ∅) :
    (manager.untrack tenantId c topic).2.topicStates.lookup scopedTopic ≠ some ∅ := by
  simp only [untrack]
  split
  · exact h
  · split
    · exact h
    · split
      · exact h
      · rename_i topicMap hto
        by_cases hs : scopedTopic = topicKey tenantId topic
        · subst hs
          split
          · simp
          · rename_i hne
            rw [AList.lookup_insert]
            exact fun heq => hne (congrArg AList.entries (Option.some.inj heq))
        · split
          · rwa [AList.lookup_erase_ne hs]
          · rwa [AList.lookup_insert_ne hs]

variable (tenantId topic c) in
theorem presences_untrack : manager.presences.Perm
    ((manager.presencesOf (topicKey tenantId topic, c)).map ((topicKey tenantId topic, c), ·) ++
      (manager.untrack tenantId c topic).2.presences) := by
  rw [presences, presences, connectionPresences_untrack]
  exact pairs_perm

theorem Stored.untrack (h : manager.Stored used) : (manager.untrack tenantId c topic).2.Stored used where
  metas scopedTopic key := by
    have hpe := (h.metas scopedTopic key).trans (perm_recorded (presences_untrack tenantId topic c))
    have hnd := ((presences_untrack tenantId topic c).map _).nodup_iff.mp h.distinct
    rw [map_append, nodup_append] at hnd
    rw [recorded, filter_append, map_append] at hpe
    rw [shown_untrack]
    split
    · rename_i hs
      refine (hpe.filter _).trans ?_
      rw [filter_append, filter_eq_nil_iff.mpr, nil_append, filter_eq_self.mpr]
      · rfl
      · intro m hm
        obtain ⟨p, hp, rfl⟩ := mem_map.mp hm
        rw [all_eq_true]
        intro entry he
        have hne := hnd.2.2 entry.2.phxRef (by simpa using ⟨_, _, hs ▸ he, rfl⟩) p.2.2.phxRef
          (mem_map_of_mem (mem_filter.mp hp).1)
        grind [stays]
      · intro m hm
        obtain ⟨p, hp, rfl⟩ := mem_map.mp hm
        grind [stays]
    · rename_i hs
      rw [filter_eq_nil_iff.mpr, map_nil, nil_append] at hpe
      · exact hpe
      · grind
  lists scopedTopic := by
    rw [state_untrack]
    split
    · rw [foldl_withdraw]
      exact (h.lists scopedTopic).foldl_prune
    · exact h.lists scopedTopic
  topics scopedTopic := topicStates_untrack (h.topics scopedTopic)
  distinct := (((presences_untrack tenantId topic c).map _).nodup_iff.mp h.distinct).sublist
    ((sublist_append_right ..).map _)
  known p hp := h.known p ((presences_untrack tenantId topic c).mem_iff.mpr (mem_append_right _ hp))

theorem Stored.untrackTopics (h : manager.Stored used) : (untrackTopics c tenantId topics manager).2.Stored used := by
  induction topics generalizing manager with
  | nil => exact h
  | cons topic topics ih => exact ih h.untrack

theorem Stored.run {calls : List StoreCall} (h : manager.Stored used) (hnd : (calls.filterMap StoreCall.phxRef?).Nodup)
    (hfr : ∀ phxRef ∈ calls.filterMap StoreCall.phxRef?, phxRef ∉ used) : (run (step serde) manager calls).Represented := by
  induction calls generalizing manager used with
  | nil => exact h.toRepresented
  | cons call calls ih =>
    cases call with
    | track tenantId c topic key payload phxRef =>
      obtain ⟨hno, hnd⟩ := nodup_cons.mp hnd
      refine ih (h.track (hfr phxRef mem_cons_self)) hnd fun ref href => ?_
      rw [mem_cons, not_or]
      exact ⟨fun heq => hno (heq ▸ href), hfr ref (mem_cons_of_mem _ href)⟩
    | untrack tenantId c topic => exact ih h.untrack hnd hfr
    | untrackAll tenantId c order => exact ih h.untrackTopics hnd hfr

end PresenceManager

end Supacloud.Realtime
