import Supacloud.Realtime.Lemmas.Presence
import Supacloud.Realtime.Server

/-!
# 購読者の索引

話題の購読者の表が、接続ごとの購読とちょうど合うこと。
-/

namespace Supacloud.Realtime

open Library Lists ChannelHub List

variable {F : Type} {serde : Serde F} {hub : ChannelHub F} {c c' : ConnectionId} {tenantId tenantId' topic topic' key : Text}
  {config : TopicSubscriptionConfig F} {topics : HashMap Text (List ConnectionId)} {joined : List Text} {role : Text}
  {senderId : Option ConnectionId}

theorem topicKey_injective : topicKey tenantId topic = topicKey tenantId topic' ↔ topic = topic' := by
  simp [topicKey]

theorem topicKey_inj (h : separator ∉ tenantId) (h' : separator ∉ tenantId') (heq : topicKey tenantId topic = topicKey tenantId' topic') :
    tenantId = tenantId' ∧ topic = topic' := by
  unfold topicKey at heq
  induction tenantId generalizing tenantId' with
  | nil =>
    cases tenantId' with
    | nil => exact ⟨rfl, (cons.inj heq).2⟩
    | cons b tenantId' => exact absurd ((cons.inj heq).1 ▸ mem_cons_self) h'
  | cons a tenantId ih =>
    cases tenantId' with
    | nil => exact absurd ((cons.inj heq).1 ▸ mem_cons_self) h
    | cons b tenantId' => grind

namespace ChannelHub

def Subscribed (hub : ChannelHub F) (c : ConnectionId) (tenantId topic : Text) : Prop :=
  ∃ conn, hub.connections.lookup c = some conn ∧ conn.tenantId = tenantId ∧ topic ∈ conn.subscriptions

def tenantOf (hub : ChannelHub F) (c : ConnectionId) : Option Text := (hub.connections.lookup c).map ConnectionState.tenantId

def subscribersOf (hub : ChannelHub F) (key : Text) : List ConnectionId := listAt hub.topicSubscribers key

structure Indexed (hub : ChannelHub F) : Prop where
  full : NoEmpty hub.topicSubscribers
  exact : ∀ key c, c ∈ hub.subscribersOf key ↔ ∃ tenantId topic, key = topicKey tenantId topic ∧ hub.Subscribed c tenantId topic

theorem Subscribed.tenant (h : hub.Subscribed c tenantId topic) : hub.tenantOf c = some tenantId := by
  obtain ⟨conn, hco, hte, -⟩ := h
  rw [tenantOf, hco, Option.map_some, hte]

/-! ## 一つずつの操作 -/

theorem dropSubscriber_eq : dropSubscriber c topics key = prune (fun c' => c' ≠ c) topics key := by
  unfold dropSubscriber prune
  cases AList.lookup key topics <;> rfl

theorem foldl_dropSubscriber {keyOf : Text → Text} : joined.foldl (fun topics topic => dropSubscriber c topics (keyOf topic)) topics =
    joined.foldl (fun topics topic => prune (fun c' => c' ≠ c) topics (keyOf topic)) topics :=
  congrArg (fun f => joined.foldl f topics) (funext fun _ => funext fun _ => dropSubscriber_eq)

section Subscribe

theorem tenantOf_subscribe : (hub.subscribe c tenantId topic config).tenantOf c' = hub.tenantOf c' := by
  simp only [tenantOf, subscribe, lookup_adjust]
  split
  · rename_i hc
    subst hc
    cases hub.connections.lookup c' <;> rfl
  · rfl

theorem subscribed_subscribe (h : hub.tenantOf c = some tenantId) : (hub.subscribe c tenantId topic config).Subscribed c' tenantId' topic' ↔
    hub.Subscribed c' tenantId' topic' ∨ c' = c ∧ tenantId' = tenantId ∧ topic' = topic := by
  obtain ⟨conn, hco, hte⟩ := Option.map_eq_some_iff.mp h
  simp only [Subscribed, subscribe, lookup_adjust]
  by_cases hc : c' = c
  · subst hc
    simp only [↓reduceIte, hco, Option.map_some, Option.some.injEq, exists_eq_left', AList.mem_insert, hte, true_and]
    constructor
    · rintro ⟨ht, hto | hto⟩
      · exact Or.inr ⟨ht.symm, hto⟩
      · exact Or.inl ⟨ht, hto⟩
    · grind
  · simp [hc]

theorem subscribersOf_subscribe : c' ∈ (hub.subscribe c tenantId topic config).subscribersOf key ↔
    c' ∈ hub.subscribersOf key ∨ key = topicKey tenantId topic ∧ c' = c := by
  simp only [subscribersOf, subscribe, listAt_insert]
  split
  · rename_i hkey
    subst hkey
    simp [listAt, or_comm]
  · rename_i hkey
    simp [hkey]

theorem Indexed.subscribe (h : hub.Indexed) (hte : hub.tenantOf c = some tenantId) : (hub.subscribe c tenantId topic config).Indexed where
  full := h.full.insert (ne_nil_of_mem mem_insert_self)
  exact key c' := by
    rw [subscribersOf_subscribe, h.exact]
    simp only [subscribed_subscribe hte]
    constructor
    · grind
    · grind

end Subscribe

section Unsubscribe

theorem tenantOf_unsubscribe : (hub.unsubscribe c tenantId topic).2.tenantOf c' = hub.tenantOf c' := by
  simp only [tenantOf, unsubscribe, lookup_adjust]
  split
  · rename_i hc
    subst hc
    cases hub.connections.lookup c' <;> rfl
  · rfl

theorem subscribed_unsubscribe : (hub.unsubscribe c tenantId topic).2.Subscribed c' tenantId' topic' ↔
    hub.Subscribed c' tenantId' topic' ∧ ¬ (c' = c ∧ topic' = topic) := by
  simp only [Subscribed, unsubscribe, lookup_adjust]
  by_cases hc : c' = c
  · subst hc
    cases hub.connections.lookup c' with
    | none => simp
    | some conn =>
      simp only [↓reduceIte, Option.map_some, Option.some.injEq, exists_eq_left', AList.mem_erase, true_and]
      tauto
  · simp [hc]

theorem subscribersOf_unsubscribe : c' ∈ (hub.unsubscribe c tenantId topic).2.subscribersOf key ↔
    c' ∈ hub.subscribersOf key ∧ ¬ (c' = c ∧ key = topicKey tenantId topic) := by
  simp only [subscribersOf, unsubscribe, dropSubscriber_eq, listAt_prune]
  split
  · rename_i hkey
    subst hkey
    simp
  · rename_i hkey
    simp [hkey]

theorem Indexed.unsubscribe (h : hub.Indexed) (hte : hub.tenantOf c = some tenantId) : (hub.unsubscribe c tenantId topic).2.Indexed where
  full := by
    simp only [ChannelHub.unsubscribe, dropSubscriber_eq]
    exact h.full.prune
  exact key c' := by
    rw [subscribersOf_unsubscribe, h.exact]
    simp only [subscribed_unsubscribe]
    constructor
    · rintro ⟨⟨t, topic', hkey, hsub⟩, hot⟩
      refine ⟨t, topic', hkey, hsub, ?_⟩
      rintro ⟨rfl, rfl⟩
      have ht := hsub.tenant
      rw [hte, Option.some.injEq] at ht
      exact hot ⟨rfl, by rw [hkey, ht]⟩
    · rintro ⟨t, topic', hkey, hsub, hot⟩
      refine ⟨⟨t, topic', hkey, hsub⟩, ?_⟩
      rintro ⟨rfl, hsa⟩
      have ht := hsub.tenant
      rw [hte, Option.some.injEq] at ht
      rw [hkey, ht, topicKey_injective] at hsa
      exact hot ⟨rfl, hsa⟩

end Unsubscribe

section Connections

theorem tenantOf_addConnection : (hub.addConnection c tenantId role).tenantOf c' = if c' = c then some tenantId else hub.tenantOf c' := by
  unfold tenantOf addConnection
  split
  · rename_i hc
    subst hc
    rw [AList.lookup_insert]
    rfl
  · rename_i hc
    rw [AList.lookup_insert_ne hc]

theorem Indexed.addConnection (h : hub.Indexed) (hnew : hub.tenantOf c = none) : (hub.addConnection c tenantId role).Indexed where
  full := h.full
  exact key c' := by
    have hsub : ∀ t topic', (hub.addConnection c tenantId role).Subscribed c' t topic' ↔ hub.Subscribed c' t topic' := by
      intro t topic'
      unfold Subscribed ChannelHub.addConnection
      by_cases hc : c' = c
      · subst hc
        rw [tenantOf, Option.map_eq_none_iff] at hnew
        simp [hnew]
      · rw [AList.lookup_insert_ne hc]
    simp only [hsub]
    exact h.exact key c'

theorem lookup_removeConnection : (hub.removeConnection c).2.connections.lookup c' = if c' = c then none else hub.connections.lookup c' := by
  have her : (hub.connections.erase c).lookup c' = if c' = c then none else hub.connections.lookup c' := by
    by_cases hc : c' = c
    · subst hc
      rw [if_pos rfl, AList.lookup_erase]
    · rw [if_neg hc, AList.lookup_erase_ne hc]
  unfold removeConnection
  cases hco : hub.connections.lookup c with
  | none =>
    by_cases hc : c' = c
    · subst hc
      rw [if_pos rfl, hco]
    · rw [if_neg hc]
  | some conn =>
    simp only
    split
    · exact her
    · exact her

theorem tenantOf_removeConnection : (hub.removeConnection c).2.tenantOf c' = if c' = c then none else hub.tenantOf c' := by
  rw [tenantOf, lookup_removeConnection]
  split
  · rfl
  · rfl

theorem removeConnection_some {conn : ConnectionState F} (hco : hub.connections.lookup c = some conn) (hne : conn.tenantId ≠ []) :
    (hub.removeConnection c).2.connections = hub.connections.erase c ∧
    (hub.removeConnection c).2.topicSubscribers = conn.subscriptions.keys.foldl
      (fun topics topic => prune (fun c' => c' ≠ c) topics (topicKey conn.tenantId topic)) hub.topicSubscribers := by
  simp [removeConnection, hco, hne, foldl_dropSubscriber]

theorem Indexed.removeConnection (h : hub.Indexed) (hte : hub.tenantOf c = some tenantId) (hne : tenantId ≠ []) :
    (hub.removeConnection c).2.Indexed := by
  obtain ⟨conn, hco, rfl⟩ := Option.map_eq_some_iff.mp hte
  obtain ⟨hcos, htos⟩ := removeConnection_some hco hne
  constructor
  · rw [htos]
    exact h.full.foldl_prune
  · intro key c'
    rw [subscribersOf, htos, listAt_foldl_prune, mem_filter, all_eq_true]
    have hsub : ∀ t topic', (hub.removeConnection c).2.Subscribed c' t topic' ↔ hub.Subscribed c' t topic' ∧ c' ≠ c := by
      intro t topic'
      unfold Subscribed
      rw [hcos]
      by_cases hc : c' = c
      · subst hc
        simp
      · rw [AList.lookup_erase_ne hc]
        simp [hc]
    simp only [hsub]
    have hex := h.exact key c'
    rw [subscribersOf] at hex
    rw [hex]
    constructor
    · rintro ⟨⟨t, topic', hkey, hmem⟩, hall⟩
      refine ⟨t, topic', hkey, hmem, ?_⟩
      rintro rfl
      obtain ⟨conn', hco', ht, hto⟩ := hmem
      rw [hco, Option.some.injEq] at hco'
      subst hco'
      have hdr := hall topic' (AList.mem_keys.mp hto)
      simp [hkey, ht] at hdr
    · grind

end Connections

end ChannelHub

/-! ## 伝言の列で保たれること -/

variable {jwt : Jwt} {registry : TenantRegistry} {session : Session} {msg message : PhoenixV2Message} {phxRef : Text} {d : Delivery}
  {w : Gateway F}

/-! ## 一つの伝言 -/

inductive Change (serde : Serde F) (hub : ChannelHub F) (session : Session) : ChannelHub F → Prop
  | kept : Change serde hub session hub
  | joined (topic : Text) (config : TopicSubscriptionConfig F) :
      Change serde hub session (hub.subscribe session.connectionId session.tenantId topic config)
  | left (topic : Text) : Change serde hub session (hub.unsubscribe session.connectionId session.tenantId topic).2
  | tracked (topic : Text) (payload : Value) (phxRef : Text) :
      Change serde hub session (hub.trackPresence session.connectionId session.tenantId topic serde none payload phxRef).2
  | untracked (topic : Text) : Change serde hub session (hub.untrackPresence session.connectionId session.tenantId topic).2

def Reaches (hub : ChannelHub F) (session : Session) (d : Delivery) : Prop :=
  d.tenantId = session.tenantId ∧ (d.recipient = session.connectionId ∧ (hub.connections.lookup d.recipient).isSome ∨
      ∃ topic, d.recipient ∈ hub.subscribersOf (topicKey session.tenantId topic))

theorem mem_sendToTopic (h : d ∈ hub.sendToTopic tenantId topic senderId message) :
    d.tenantId = tenantId ∧ d.recipient ∈ hub.subscribersOf (topicKey tenantId topic) := by
  obtain ⟨recipient, hmem, hse⟩ := mem_filterMap.mp h
  obtain ⟨conn, -, hco⟩ := Option.bind_eq_some_iff.mp hse
  simp only at hco
  split at hco
  · cases hco
  · cases hco
    exact ⟨rfl, hmem⟩

theorem reaches_direct (h : d ∈ hub.sendToConnection session.connectionId session.tenantId message) : Reaches hub session d := by
  unfold sendToConnection at h
  split at h
  · rename_i hco
    cases mem_singleton.mp h
    exact ⟨rfl, Or.inl ⟨rfl, hco⟩⟩
  · simp at h

theorem reaches_asked {status response} (h : d ∈ replyIfAsked hub session msg status response) : Reaches hub session d := by
  unfold replyIfAsked at h
  split at h
  · exact reaches_direct h
  · simp at h

theorem reaches_topic (h : d ∈ hub.sendToTopic session.tenantId topic senderId message) : Reaches hub session d := by
  obtain ⟨hte, hmem⟩ := mem_sendToTopic h
  exact ⟨hte, Or.inr ⟨topic, hmem⟩⟩

theorem reaches_diff {diff : Option PresenceDiff} (h : d ∈ diff.elim [] (sendDiff hub session topic)) : Reaches hub session d := by
  cases diff with
  | none => simp at h
  | some diff => exact reaches_topic h

def Handled (serde : Serde F) (hub : ChannelHub F) (session : Session) (result : ChannelHub F × List Delivery) : Prop :=
  Change serde hub session result.1 ∧ ∀ d ∈ result.2, Reaches result.1 session d

theorem handled_asked {status response} : Handled serde hub session (hub, replyIfAsked hub session msg status response) :=
  ⟨.kept, fun _ hd => reaches_asked hd⟩

theorem handled_join : Handled serde hub session (handleJoin serde hub session msg) := by
  unfold handleJoin
  split
  · exact ⟨.kept, fun d hd => reaches_direct hd⟩
  · refine ⟨.joined _ _, fun d hd => ?_⟩
    rcases mem_append.mp hd with hd | hd
    · exact reaches_direct hd
    · split at hd
      · simp at hd
      · exact reaches_direct hd

theorem handled_leave : Handled serde hub session (handleLeave hub session msg) := by
  refine ⟨.left _, fun d hd => ?_⟩
  rcases mem_append.mp hd with hd | hd
  · exact reaches_diff hd
  · exact reaches_direct hd

theorem handled_broadcast : Handled serde hub session (handleBroadcast hub session msg) := by
  refine ⟨.kept, fun d hd => ?_⟩
  rcases mem_append.mp hd with hd | hd
  · exact reaches_topic hd
  · exact reaches_asked hd

theorem handled_presence : Handled serde hub session (handlePresence serde hub session msg phxRef) := by
  unfold handlePresence
  simp only
  split
  · refine ⟨.tracked _ _ _, fun d hd => ?_⟩
    rcases mem_append.mp hd with hd | hd
    · exact reaches_topic hd
    · exact reaches_asked hd
  · split
    · refine ⟨.untracked _, fun d hd => ?_⟩
      rcases mem_append.mp hd with hd | hd
      · exact reaches_diff hd
      · exact reaches_asked hd
    · exact ⟨.kept, fun d hd => by simp at hd⟩

theorem handled_accessToken : Handled serde hub session (handleAccessToken jwt registry hub session msg) := by
  refine ⟨.kept, fun d hd => ?_⟩
  unfold handleAccessToken at hd
  simp only at hd
  split at hd
  · exact reaches_asked hd
  · exact reaches_asked hd

theorem handled_message : Handled serde hub session (handleClientMessage serde jwt registry hub session msg phxRef) := by
  unfold handleClientMessage
  split
  · exact ⟨.kept, fun d hd => reaches_direct hd⟩
  · split
    · exact handled_join
    · split
      · exact handled_leave
      · split
        · exact handled_broadcast
        · split
          · exact handled_presence
          · split
            · exact handled_accessToken
            · exact handled_asked

theorem Change.tenantOf {hub'} (h : Change serde hub session hub') : hub'.tenantOf c = hub.tenantOf c := by
  cases h with
  | kept | tracked topic payload phxRef | untracked topic => rfl
  | joined topic config => exact tenantOf_subscribe
  | left topic => exact tenantOf_unsubscribe

theorem Change.indexed {hub'} (h : Change serde hub session hub') (hind : hub.Indexed)
    (hte : hub.tenantOf session.connectionId = some session.tenantId) : hub'.Indexed := by
  cases h with
  | kept => exact hind
  | joined topic config => exact hind.subscribe hte
  | left topic => exact hind.unsubscribe hte
  | tracked topic payload phxRef | untracked topic => exact ⟨hind.full, hind.exact⟩

/-! ## 接続の帳面 -/

namespace Gateway

structure Wired (w : Gateway F) : Prop where
  tenants : ∀ c, w.hub.tenantOf c = (w.sockets.lookup c).map Session.tenantId
  known : ∀ c session, w.sockets.lookup c = some session → session.connectionId = c ∧ w.opened.lookup c = some session
  fresh : ∀ c session, w.opened.lookup c = some session → c < w.connCounter

theorem wired_start : (start registry : Gateway F).Wired where
  tenants _ := rfl
  known _ _ h := by simp [start] at h
  fresh _ _ h := by simp [start] at h

section

variable (h : w.Wired)

include h

theorem Wired.unopened : w.opened.lookup w.connCounter = none := by
  cases hop : w.opened.lookup w.connCounter with
  | none => rfl
  | some session => exact absurd (h.fresh _ _ hop) (Nat.lt_irrefl _)

theorem Wired.unconnected : w.hub.tenantOf w.connCounter = none := by
  rw [h.tenants, Option.map_eq_none_iff]
  cases hso : w.sockets.lookup w.connCounter with
  | none => rfl
  | some session =>
    have hop := (h.known _ _ hso).2
    rw [h.unopened] at hop
    cases hop

theorem Wired.tenant (hso : w.sockets.lookup c = some session) : w.hub.tenantOf session.connectionId = some session.tenantId := by
  rw [(h.known c session hso).1, h.tenants, hso, Option.map_some]

theorem Wired.connect : (w.connect tenantId role).Wired where
  tenants c := by
    simp only [Gateway.connect, ChannelHub.tenantOf_addConnection]
    by_cases hc : c = w.connCounter
    · subst hc
      simp
    · rw [if_neg hc, AList.lookup_insert_ne hc]
      exact h.tenants c
  known c session hso := by
    simp only [Gateway.connect] at hso ⊢
    by_cases hc : c = w.connCounter
    · subst hc
      rw [AList.lookup_insert, Option.some.injEq] at hso
      subst hso
      exact ⟨rfl, AList.lookup_insert _⟩
    · rw [AList.lookup_insert_ne hc] at hso ⊢
      exact h.known c session hso
  fresh c session hop := by
    simp only [Gateway.connect] at hop ⊢
    by_cases hc : c = w.connCounter
    · rw [hc]
      exact Nat.lt_succ_self _
    · rw [AList.lookup_insert_ne hc] at hop
      exact Nat.lt_succ_of_lt (h.fresh c session hop)

theorem Wired.receive : (w.receive serde jwt session msg phxRef).Wired where
  tenants c := by
    simp only [Gateway.receive, handled_message.1.tenantOf]
    exact h.tenants c
  known := h.known
  fresh := h.fresh

theorem Wired.disconnect : (w.disconnect session).Wired where
  tenants c := by
    simp only [Gateway.disconnect, handleDisconnect, ChannelHub.tenantOf_removeConnection]
    by_cases hc : c = session.connectionId
    · subst hc
      simp
    · rw [if_neg hc, AList.lookup_erase_ne hc]
      exact h.tenants c
  known c session' hso := by
    simp only [Gateway.disconnect] at hso ⊢
    by_cases hc : c = session.connectionId
    · subst hc
      rw [AList.lookup_erase] at hso
      cases hso
    · rw [AList.lookup_erase_ne hc] at hso
      exact h.known c session' hso
  fresh := h.fresh

theorem Wired.step {e} : (w.step serde jwt e).Wired := by
  cases e with
  | connect tenantId role => exact h.connect
  | message c msg phxRef =>
    simp only [Gateway.step]
    cases w.sockets.lookup c with
    | none => exact h
    | some session => exact h.receive
  | disconnect c =>
    simp only [Gateway.step]
    cases w.sockets.lookup c with
    | none => exact h
    | some session => exact h.disconnect
  | apiBroadcast tenantId topic payload | ingestCdc tenantId change now | registryCall call => exact { h with }

end

end Gateway

/-! ## テナントの隔たり -/

def ValidTenant (tenantId : Text) : Prop := tenantId ≠ [] ∧ separator ∉ tenantId

instance (tenantId : Text) : Decidable (ValidTenant tenantId) := inferInstanceAs (Decidable (_ ∧ _))

def Event.Valid : Event → Prop
  | .connect tenantId _ => ValidTenant tenantId
  | .apiBroadcast tenantId _ _ => ValidTenant tenantId
  | .ingestCdc tenantId _ _ => ValidTenant tenantId
  | _ => True

instance : (e : Event) → Decidable e.Valid
  | .connect _ _ | .apiBroadcast _ _ _ | .ingestCdc _ _ _ => inferInstanceAs (Decidable (ValidTenant _))
  | .message _ _ _ | .disconnect _ | .registryCall _ => inferInstanceAs (Decidable True)

namespace Gateway

def Arrived (w : Gateway F) (d : Delivery) : Prop := ∃ session, w.opened.lookup d.recipient = some session ∧ session.tenantId = d.tenantId

structure Isolated (w : Gateway F) : Prop where
  wired : w.Wired
  indexed : w.hub.Indexed
  valid : ∀ c session, w.opened.lookup c = some session → ValidTenant session.tenantId
  sent : ∀ d ∈ w.sent, w.Arrived d

theorem isolated_start : (start registry : Gateway F).Isolated where
  wired := wired_start
  indexed := ⟨noEmpty_empty, fun key c => by simp [start, new, subscribersOf, Subscribed]⟩
  valid _ _ h := by simp [start] at h
  sent d hd := by simp [start] at hd

theorem subscriber_tenant (hwi : w.Wired) (hind : w.hub.Indexed)
    (hva : ∀ c session, w.opened.lookup c = some session → ValidTenant session.tenantId) (hte : ValidTenant tenantId)
    (h : c ∈ w.hub.subscribersOf (topicKey tenantId topic)) : w.hub.Subscribed c tenantId topic := by
  obtain ⟨tenantId', topic', hkey, hsub⟩ := (hind.exact _ c).mp h
  have hof := hsub.tenant
  rw [hwi.tenants] at hof
  obtain ⟨session, hso, hsa⟩ := Option.map_eq_some_iff.mp hof
  have hva' := hva c session (hwi.known c session hso).2
  rw [hsa] at hva'
  obtain ⟨rfl, rfl⟩ := topicKey_inj hte.2 hva'.2 hkey
  exact hsub

theorem arrived_of_tenant (hwi : w.Wired) (h : w.hub.tenantOf d.recipient = some d.tenantId) : w.Arrived d := by
  rw [hwi.tenants] at h
  obtain ⟨session, hso, hsa⟩ := Option.map_eq_some_iff.mp h
  exact ⟨session, (hwi.known _ _ hso).2, hsa⟩

theorem arrived_of_topic (hwi : w.Wired) (hind : w.hub.Indexed)
    (hva : ∀ c session, w.opened.lookup c = some session → ValidTenant session.tenantId) (hte : ValidTenant tenantId)
    (h : d ∈ w.hub.sendToTopic tenantId topic senderId message) : w.Arrived d := by
  obtain ⟨hsa, hmem⟩ := mem_sendToTopic h
  have hsub := subscriber_tenant hwi hind hva hte hmem
  exact arrived_of_tenant hwi (hsa ▸ hsub.tenant)

theorem Isolated.connect (h : w.Isolated) (hte : ValidTenant tenantId) : (w.connect tenantId role).Isolated where
  wired := h.wired.connect
  indexed := h.indexed.addConnection h.wired.unconnected
  valid c session hop := by
    simp only [Gateway.connect] at hop
    by_cases hc : c = w.connCounter
    · subst hc
      rw [AList.lookup_insert, Option.some.injEq] at hop
      subst hop
      exact hte
    · rw [AList.lookup_insert_ne hc] at hop
      exact h.valid c session hop
  sent d hd := by
    obtain ⟨session, hop, hsa⟩ := h.sent d hd
    refine ⟨session, ?_, hsa⟩
    have hne : d.recipient ≠ w.connCounter := by
      intro heq
      rw [heq, h.wired.unopened] at hop
      cases hop
    simp [Gateway.connect, AList.lookup_insert_ne hne, hop]

theorem Isolated.receive (h : w.Isolated) (hso : w.sockets.lookup c = some session) :
    (w.receive serde jwt session msg phxRef).Isolated := by
  have hind : (w.receive serde jwt session msg phxRef).hub.Indexed :=
    handled_message.1.indexed h.indexed (h.wired.tenant hso)
  refine ⟨h.wired.receive, hind, h.valid, fun d hd => ?_⟩
  rcases mem_append.mp hd with hd | hd
  · exact h.sent d hd
  · obtain ⟨hsa, ⟨hsl, -⟩ | ⟨topic, hmem⟩⟩ := handled_message.2 d hd
    · obtain ⟨hc, hop⟩ := h.wired.known c session hso
      exact ⟨session, by rw [hsl, hc]; exact hop, hsa.symm⟩
    · have hva := h.valid c session (h.wired.known c session hso).2
      have hsub := subscriber_tenant h.wired.receive hind h.valid hva hmem
      exact arrived_of_tenant h.wired.receive (hsa ▸ hsub.tenant)

theorem Isolated.disconnect (h : w.Isolated) (hso : w.sockets.lookup c = some session) : (w.disconnect session).Isolated := by
  have hva := h.valid c session (h.wired.known c session hso).2
  have hind : (w.disconnect session).hub.Indexed := h.indexed.removeConnection (h.wired.tenant hso) hva.1
  refine ⟨h.wired.disconnect, hind, h.valid, fun d hd => ?_⟩
  rcases mem_append.mp hd with hd | hd
  · exact h.sent d hd
  · obtain ⟨diff, -, hd⟩ := mem_flatMap.mp hd
    exact arrived_of_topic h.wired.disconnect hind h.valid hva hd

theorem mem_dispatchCdc {change now} (h : d ∈ hub.dispatchCdc serde tenantId change now) :
    d.tenantId = tenantId ∧ ∃ conn config, hub.connections.lookup d.recipient = some conn ∧ conn.tenantId = tenantId ∧
      conn.subscriptions.lookup d.message.topic = some config ∧ matchedIds serde change config.postgresChanges ≠ [] ∧
      d.message.payload = changePayload change (change.commitTimestamp.getD now) (matchedIds serde change config.postgresChanges) := by
  obtain ⟨entry, hen, h⟩ := mem_flatMap.mp h
  split at h
  · simp at h
  · rename_i hte
    obtain ⟨sub, hsub, h⟩ := mem_filterMap.mp h
    simp only at h
    split at h
    · cases h
    · rename_i hids
      cases h
      exact ⟨rfl, entry.2, sub.2, AList.mem_lookup_iff.mpr hen, by simpa using hte, AList.mem_lookup_iff.mpr hsub, hids, rfl⟩

theorem Isolated.step {e} (h : w.Isolated) (hva : e.Valid) : (w.step serde jwt e).Isolated := by
  cases e with
  | connect tenantId role => exact h.connect hva
  | message c msg phxRef =>
    simp only [Gateway.step]
    cases hso : w.sockets.lookup c with
    | none => exact h
    | some session => exact h.receive hso
  | disconnect c =>
    simp only [Gateway.step]
    cases hso : w.sockets.lookup c with
    | none => exact h
    | some session => exact h.disconnect hso
  | apiBroadcast tenantId topic payload =>
    refine ⟨{ h.wired with }, h.indexed, h.valid, fun d hd => ?_⟩
    rcases mem_append.mp hd with hd | hd
    · exact h.sent d hd
    · have har : w.Arrived d := arrived_of_topic h.wired h.indexed h.valid hva hd
      exact har
  | ingestCdc tenantId change now =>
    refine ⟨{ h.wired with }, h.indexed, h.valid, fun d hd => ?_⟩
    rcases mem_append.mp hd with hd | hd
    · exact h.sent d hd
    · obtain ⟨hsa, conn, -, hco, hte, -⟩ := mem_dispatchCdc hd
      have har : w.Arrived d := arrived_of_tenant h.wired (by rw [tenantOf, hco, Option.map_some, hte, hsa])
      exact har
  | registryCall call => exact ⟨{ h.wired with }, h.indexed, h.valid, h.sent⟩

theorem Isolated.session_of (h : w.Isolated)
    (hsub : w.hub.Subscribed c tenantId topic) : ∃ session, w.sockets.lookup c = some session ∧ session.tenantId = tenantId := by
  have hof := hsub.tenant
  rw [h.wired.tenants] at hof
  exact Option.map_eq_some_iff.mp hof

theorem Isolated.cleared (h : w.Isolated) (hno : w.sockets = ∅) : w.hub.connections = ∅ ∧ w.hub.topicSubscribers = ∅ := by
  constructor
  · apply AList.ext
    rw [AList.empty_entries, eq_nil_iff_forall_not_mem]
    intro entry hen
    have hte := h.wired.tenants entry.1
    rw [tenantOf, AList.mem_lookup_iff.mpr hen, hno] at hte
    simp at hte
  · apply h.indexed.full.eq_empty
    intro key
    rw [eq_nil_iff_forall_not_mem]
    intro c hc
    obtain ⟨tenantId, topic, -, hsub⟩ := (h.indexed.exact key c).mp hc
    obtain ⟨session, hso, -⟩ := h.session_of hsub
    rw [hno] at hso
    simp at hso

end Gateway

end Supacloud.Realtime
