import Supacloud.Realtime.Lemmas.Gateway

/-!
# 登録簿の名

登録と取り消しの後に引ける設定と、どの名も最後の登録を引くための条件。
-/

namespace Supacloud.Realtime

open Library TenantRegistry Function Directory ChannelHub Option

variable {registry : TenantRegistry} {config tenant : TenantConfig} {id key candidate : Text} {d : Directory}

namespace TenantRegistry

theorem get_register : (registry.register config).get key =
    if key = config.id ∨ some key = config.externalId then some config else registry.get key := by
  unfold register get
  by_cases hid : key = config.id
  · subst hid
    simp
  · cases hext : config.externalId with
    | none => simp [hid]
    | some ext =>
      by_cases hkey : key = ext
      · subst hkey
        simp [AList.lookup_insert_ne hid]
      · simp [hid, hkey]

theorem remove_of_get (h : registry.get id = some tenant) : (registry.remove id).1 = some tenant := by
  unfold get at h
  rw [remove, h]

theorem get_remove (h : registry.get id = some tenant) : (registry.remove id).2.get key =
    if key = id ∨ some key = tenant.externalId then none else registry.get key := by
  unfold get at h
  unfold get
  rw [remove, h]
  simp only
  cases hext : tenant.externalId with
  | none =>
    by_cases hid : key = id
    · subst hid
      simp
    · simp [hid]
  | some ext =>
    by_cases hkey : key = ext
    · subst hkey
      simp
    · by_cases hid : key = id
      · subst hid
        simp [AList.lookup_erase_ne hkey]
      · simp [hkey, hid]

theorem get_of_resolve {jwt} (h : registry.resolveTenant jwt candidate = some config) : ∃ key, registry.get key = some config := by
  unfold resolveTenant at h
  split at h
  · cases h
  · rw [or_eq_some_iff, or_eq_some_iff, bind_eq_some_iff, bind_eq_some_iff] at h
    rcases h with h | ⟨-, ⟨name, -, h⟩ | ⟨-, name, -, h⟩⟩
    · exact ⟨candidate, h⟩
    · exact ⟨name, h⟩
    · exact ⟨name, h⟩

end TenantRegistry

namespace Directory

theorem Current.gone (h : d.Current) : d.Gone := by
  intro id hno jwt candidate config hget hid
  have hkey : ∃ key, d.registry.get key = some config := by
    rcases hget with hget | hget
    · exact ⟨candidate, hget⟩
    · exact get_of_resolve hget
  obtain ⟨key, hkey⟩ := hkey
  rw [← hid, (h key config hkey).2] at hno
  cases hno

theorem step_remove (h : d.registry.get id = some tenant) : d.step (.remove id) =
    { registry := (d.registry.remove id).2, latest := update d.latest tenant.id none } := by
  have hrm := remove_of_get h
  unfold step
  cases hrs : d.registry.remove id with
  | mk removed registry =>
    rw [hrs] at hrm
    simp only at hrm
    subst hrm
    simp [hrs]

theorem step_remove_none (h : d.registry.get id = none) : d.step (.remove id) = d := by
  unfold TenantRegistry.get at h
  simp [step, remove, h]

theorem covered_register (h : d.Current) : d.Covered (.register config) ↔ (d.step (.register config)).Current := by
  have hget : ∀ key, (d.step (.register config)).registry.get key =
      if key = config.id ∨ some key = config.externalId then some config else d.registry.get key := fun key => get_register
  constructor
  · intro hcos key found hfo
    rw [hget] at hfo
    split at hfo
    · rename_i hna
      cases hfo
      refine ⟨hna.imp Eq.symm Eq.symm, ?_⟩
      simp [step]
    · rename_i hna
      obtain ⟨hnas, hla⟩ := h key found hfo
      refine ⟨hnas, ?_⟩
      have hot : found.id ≠ config.id := fun hid => hna (hcos key found hfo hid)
      simp [step, update_of_ne hot, hla]
  · intro hcu key found hfo hid
    by_contra hna
    have hke : (d.step (.register config)).registry.get key = some found := by
      rw [hget, if_neg hna, hfo]
    obtain ⟨hnas, hla⟩ := hcu key found hke
    simp only [step, hid, update_self, some.injEq] at hla
    subst hla
    exact hna (hnas.imp Eq.symm Eq.symm)

theorem covered_remove (h : d.Current) : d.Covered (.remove id) ↔ (d.step (.remove id)).Current := by
  cases hid : d.registry.get id with
  | none =>
    rw [step_remove_none hid]
    refine ⟨fun _ => h, fun _ tenant hte => ?_⟩
    rw [hid] at hte
    cases hte
  | some tenant =>
    rw [step_remove hid]
    constructor
    · intro hcos key found hfo
      rw [get_remove hid] at hfo
      split at hfo
      · cases hfo
      · rename_i hna
        obtain ⟨hnas, hla⟩ := h key found hfo
        have hot : found.id ≠ tenant.id := fun heq => hna (hcos tenant hid key found hfo heq)
        exact ⟨hnas, by simp [update_of_ne hot, hla]⟩
    · intro hcu tenant' hte' key found hfo heq
      rw [hid, some.injEq] at hte'
      subst hte'
      by_contra hna
      have hke : (d.registry.remove id).2.get key = some found := by
        rw [get_remove hid, if_neg hna, hfo]
      obtain ⟨-, hla⟩ := hcu key found hke
      simp only [heq, update_self] at hla
      cases hla

theorem covered_iff {call} (h : d.Current) : d.Covered call ↔ (d.step call).Current := by
  cases call with
  | register config => exact covered_register h
  | remove id => exact covered_remove h

end Directory

end Supacloud.Realtime

/-! ## 購読と参加 -/

namespace Supacloud.Realtime

open Library

variable {F : Type} {serde : Serde F} {jwt : Jwt} {registry : TenantRegistry} {hub : ChannelHub F} {session : Session}
  {msg : PhoenixV2Message} {phxRef tenantId topic topic' : Text} {c c' : ConnectionId} {config : TopicSubscriptionConfig F}
  {change : PostgresChangeEvent} {item : Value × Nat} {payload : Value} {r : Recorded F} {e : Event}

/-! ## 項目と購読 -/

theorem selects_of_fits (h : itemFits serde change item) : (changeSubscription serde item).selects serde change := by
  simp only [itemFits, Bool.and_eq_true] at h
  obtain ⟨⟨⟨hev, hsc⟩, hta⟩, hfi⟩ := h
  simp only [PostgresChangeSubscription.selects, changeSubscription, Bool.and_eq_true]
  refine ⟨⟨⟨hev, hsc⟩, hta⟩, ?_⟩
  cases hst : itemText item.1 "filter" with
  | none => rfl
  | some filter =>
    rw [hst, Option.all_some] at hfi
    rw [Option.bind_some]
    cases hpr : ColumnFilter.parse serde filter with
    | none => rfl
    | some flt =>
      rw [hpr, Option.any_some] at hfi
      exact hfi

theorem fits_of_selects (hac : filterAccepted serde item) (h : (changeSubscription serde item).selects serde change) :
    itemFits serde change item := by
  simp only [PostgresChangeSubscription.selects, changeSubscription, Bool.and_eq_true] at h
  obtain ⟨⟨⟨hev, hsc⟩, hta⟩, hfi⟩ := h
  simp only [itemFits, Bool.and_eq_true]
  refine ⟨⟨⟨hev, hsc⟩, hta⟩, ?_⟩
  unfold filterAccepted at hac
  cases hst : itemText item.1 "filter" with
  | none => rfl
  | some filter =>
    rw [hst, Option.all_some] at hac
    obtain ⟨flt, hflt⟩ := Option.isSome_iff_exists.mp hac
    rw [hst, Option.bind_some, hflt, Option.all_some] at hfi
    rw [Option.all_some, hflt, Option.any_some]
    exact hfi

theorem matchedIds_changeSubscriptions (serde : Serde F) (change payload) : (matchedIds serde change (changeSubscriptions serde payload)).map Value.string =
    ((changeItems payload).filter fun item => (changeSubscription serde item).selects serde change).map
      fun item => .string (itemId serde item) := by
  simp only [matchedIds, changeSubscriptions, List.filter_map, List.map_map]
  rfl

def changeFor (item : Value) : PostgresChangeEvent where
  schema := (itemText item "schema").getD "public".toList
  table := (itemText item "table").getD []
  changeType := (itemText item "event").getD "*".toList
  record := .null
  oldRecord := none
  columns := none
  commitTimestamp := none

theorem selects_changeFor (h : filterAccepted serde item = false) :
    (changeSubscription serde item).selects serde (changeFor item.1) ∧ itemFits serde (changeFor item.1) item = false := by
  unfold filterAccepted at h
  cases hst : itemText item.1 "filter" with
  | none => simp [hst] at h
  | some filter =>
    rw [hst, Option.all_some] at h
    have hpr : ColumnFilter.parse serde filter = none := by simpa using h
    constructor
    · simp only [PostgresChangeSubscription.selects, changeSubscription, changeFor, hst, hpr, Bool.and_eq_true, Option.bind_some,
        Option.all_none, and_true, Bool.or_eq_true]
      refine ⟨⟨Or.inr (by simp [eqIgnoreAsciiCase]), Or.inr (by simp)⟩, ?_⟩
      rw [Option.all_eq_true]
      intro table hta
      simp [hta]
    · simp [itemFits, hst, hpr]

/-! ## 話題の購読 -/

namespace ChannelHub

def subscriptionOf (hub : ChannelHub F) (c : ConnectionId) (topic : Text) : Option (TopicSubscriptionConfig F) :=
  (hub.connections.lookup c).bind fun conn => conn.subscriptions.lookup topic

theorem subscriptionOf_subscribe (h : (hub.tenantOf c).isSome) : (hub.subscribe c tenantId topic config).subscriptionOf c' topic' =
    if c' = c ∧ topic' = topic then some config else hub.subscriptionOf c' topic' := by
  obtain ⟨conn, hco⟩ := Option.isSome_iff_exists.mp (Option.isSome_map ▸ h)
  simp only [subscriptionOf, subscribe, lookup_adjust]
  by_cases hc : c' = c
  · subst hc
    by_cases hto : topic' = topic
    · subst hto
      simp [hco]
    · simp [hco, hto]
  · simp [hc]

theorem subscriptionOf_unsubscribe : (hub.unsubscribe c tenantId topic).2.subscriptionOf c' topic' =
    if c' = c ∧ topic' = topic then none else hub.subscriptionOf c' topic' := by
  simp only [subscriptionOf, unsubscribe, lookup_adjust]
  by_cases hc : c' = c
  · subst hc
    cases hco : hub.connections.lookup c' with
    | none => simp
    | some conn =>
      by_cases hto : topic' = topic
      · subst hto
        simp
      · simp [hto]
  · simp [hc]

theorem subscriptionOf_addConnection {role} : (hub.addConnection c tenantId role).subscriptionOf c' topic =
    if c' = c then none else hub.subscriptionOf c' topic := by
  unfold subscriptionOf addConnection
  by_cases hc : c' = c
  · subst hc
    simp
  · simp [hc]

theorem subscriptionOf_removeConnection : (hub.removeConnection c).2.subscriptionOf c' topic =
    if c' = c then none else hub.subscriptionOf c' topic := by
  rw [subscriptionOf, lookup_removeConnection]
  split
  · rfl
  · rfl

end ChannelHub

/-! ## 伝言と参加 -/

theorem handle_accepted (h : Recorded.accepts serde session msg) : (handleClientMessage serde jwt registry hub session msg phxRef).1 =
    hub.subscribe session.connectionId session.tenantId msg.topic (subscriptionConfig serde msg.joinRef msg.payload) := by
  simp only [Recorded.accepts, Bool.and_eq_true, decide_eq_true_eq, Bool.not_eq_true'] at h
  obtain ⟨hev, hac⟩ := h
  have hbt : ¬ (msg.topic = "phoenix".toList ∧ msg.event = "heartbeat".toList) := by
    rintro ⟨-, hhe⟩
    rw [hev] at hhe
    exact absurd hhe (by decide)
  rw [handleClientMessage, if_neg hbt, if_pos hev, handleJoin, if_neg (Bool.eq_false_iff.mp hac)]

theorem connections_handlePresence : (handlePresence serde hub session msg phxRef).1.connections = hub.connections := by
  unfold handlePresence
  simp only
  split
  · rfl
  · split
    · rfl
    · rfl

theorem handle_other (h : Recorded.accepts serde session msg = false)
    (hsub : (handleClientMessage serde jwt registry hub session msg phxRef).1.subscriptionOf c topic = some config) :
    hub.subscriptionOf c topic = some config := by
  unfold handleClientMessage at hsub
  split at hsub
  · exact hsub
  · split at hsub
    · rename_i hev
      have hre : joinRefused serde session.role msg.payload := by simpa [Recorded.accepts, hev] using h
      rw [handleJoin, if_pos hre] at hsub
      exact hsub
    · split at hsub
      · rw [handleLeave, ChannelHub.subscriptionOf_unsubscribe] at hsub
        split at hsub
        · cases hsub
        · exact hsub
      · split at hsub
        · exact hsub
        · split at hsub
          · rw [ChannelHub.subscriptionOf, connections_handlePresence] at hsub
            exact hsub
          · split at hsub
            · exact hsub
            · exact hsub

/-! ## 記録の正しさ -/

namespace Recorded

structure Traced (serde : Serde F) (r : Recorded F) : Prop where
  wired : r.gateway.Wired
  traced : ∀ c topic config, r.gateway.hub.subscriptionOf c topic = some config →
    ∃ payload, r.joins.lookup (c, topic) = some payload ∧ config.postgresChanges = changeSubscriptions serde payload

def Sound (serde : Serde F) (r : Recorded F) : Prop :=
  ∀ c topic config, r.gateway.hub.subscriptionOf c topic = some config →
    ∀ payload, r.joins.lookup (c, topic) = some payload → ∀ item ∈ changeItems payload, filterAccepted serde item

theorem idsOf_changePayload {timestamp ids} : idsOf (changePayload change timestamp ids) = ids.map .string := by
  simp [idsOf, changePayload, Value.get, field, Value.asArray]

theorem subscription_of_lookup {conn} (hco : hub.connections.lookup c = some conn) (hto : conn.subscriptions.lookup topic = some config) : hub.subscriptionOf c topic = some config := by
  rw [ChannelHub.subscriptionOf, hco, Option.bind_some, hto]

theorem dispatchCdc_mem {conn now} (hco : hub.connections.lookup c = some conn) (hto : conn.subscriptions.lookup topic = some config)
    (hids : matchedIds serde change config.postgresChanges ≠ []) :
    { tenantId := conn.tenantId
      recipient := c
      message := .postgresChanges topic
        (changePayload change (change.commitTimestamp.getD now) (matchedIds serde change config.postgresChanges)) : Delivery } ∈
      hub.dispatchCdc serde conn.tenantId change now := by
  refine List.mem_flatMap.mpr ⟨⟨c, conn⟩, AList.mem_lookup_iff.mp hco, ?_⟩
  rw [if_neg (not_not.mpr rfl)]
  refine List.mem_filterMap.mpr ⟨⟨topic, config⟩, AList.mem_lookup_iff.mp hto, ?_⟩
  simp [hids]

theorem failsClosed_iff (h : r.Traced serde) : r.FailsClosed serde ↔ r.Sound serde := by
  constructor
  · intro hcl c topic config hsub payload hpa item hit
    by_contra hac
    obtain ⟨hses, hft⟩ := selects_changeFor (Bool.eq_false_iff.mpr hac)
    obtain ⟨conn, hco, hto⟩ := Option.bind_eq_some_iff.mp hsub
    obtain ⟨payload', hpa', hchs⟩ := h.traced c topic config hsub
    rw [hpa, Option.some.injEq] at hpa'
    subst hpa'
    have hids := matchedIds_changeSubscriptions serde (changeFor item.1) payload
    have hmem : item ∈ (changeItems payload).filter fun item' => (changeSubscription serde item').selects serde (changeFor item.1) :=
      List.mem_filter.mpr ⟨hit, hses⟩
    have hne : matchedIds serde (changeFor item.1) config.postgresChanges ≠ [] := by
      intro hnil
      rw [hchs] at hnil
      rw [hnil, List.map_nil, eq_comm, List.map_eq_nil_iff] at hids
      rw [hids] at hmem
      simp at hmem
    obtain ⟨payload', hpa', hsb⟩ := hcl _ _ [] _ (dispatchCdc_mem hco hto hne)
    have hsa : payload' = payload := Option.some.inj (hpa'.symm.trans hpa)
    subst hsa
    -- 当たる項目は選ばれる項目に含まれるので、数が同じなら、どちらも同じ項目である。
    have hle := hsb.length_le
    simp only [PhoenixV2Message.postgresChanges, idsOf_changePayload, hchs, hids, fittingIds, List.length_map] at hle
    have hsbs : ((changeItems payload').filter (itemFits serde (changeFor item.1))).Sublist
        ((changeItems payload').filter fun item' => (changeSubscription serde item').selects serde (changeFor item.1)) :=
      List.monotone_filter_right _ fun item' hfit => selects_of_fits hfit
    have heq := hsbs.eq_of_length_le hle
    rw [← heq, List.mem_filter, hft] at hmem
    exact absurd hmem.2 (by simp)
  · intro hsn tenantId change now d hd
    obtain ⟨-, conn, config, hco, -, hto, -, hme⟩ := Gateway.mem_dispatchCdc hd
    have hsub := subscription_of_lookup hco hto
    obtain ⟨payload, hpa, hchs⟩ := h.traced _ _ _ hsub
    have hac := hsn _ _ _ hsub payload hpa
    refine ⟨payload, hpa, ?_⟩
    rw [hme, idsOf_changePayload, hchs, matchedIds_changeSubscriptions, fittingIds]
    have hfi : (changeItems payload).filter (fun item => (changeSubscription serde item).selects serde change) =
        (changeItems payload).filter (itemFits serde change) :=
      List.filter_congr fun item hit => Bool.eq_iff_iff.mpr ⟨fits_of_selects (hac item hit), selects_of_fits⟩
    rw [hfi]

theorem traced_start (registry) : (start registry).Traced serde where
  wired := Gateway.wired_start
  traced c topic config hsub := by simp [start, Gateway.start, ChannelHub.new, ChannelHub.subscriptionOf] at hsub

theorem sound_start : (start registry).Sound serde := by
  intro c topic config hsub
  simp [start, Gateway.start, ChannelHub.new, ChannelHub.subscriptionOf] at hsub

theorem subscriptionOf_accepted (h : r.Traced serde) (hso : r.gateway.sockets.lookup c = some session)
    (hacs : accepts serde session msg) : (r.step serde jwt (.message c msg phxRef)).gateway.hub.subscriptionOf c' topic =
      (if c' = c ∧ topic = msg.topic then some (subscriptionConfig serde msg.joinRef msg.payload)
        else r.gateway.hub.subscriptionOf c' topic) ∧
    (r.step serde jwt (.message c msg phxRef)).joins = r.joins.insert (c, msg.topic) msg.payload := by
  have hli : (r.gateway.hub.tenantOf session.connectionId).isSome := by
    rw [h.wired.tenant hso]
    rfl
  have hse := (h.wired.known c session hso).1
  constructor
  · simp only [Recorded.step, Gateway.step, hso, Option.elim_some, Gateway.receive, handle_accepted hacs]
    rw [ChannelHub.subscriptionOf_subscribe hli, hse]
  · simp [Recorded.step, joinsAfter, hso, hacs]

theorem subscriptionOf_other (hso : r.gateway.sockets.lookup c = some session) (hacs : accepts serde session msg = false)
    (hsub : (r.step serde jwt (.message c msg phxRef)).gateway.hub.subscriptionOf c' topic = some config) :
    r.gateway.hub.subscriptionOf c' topic = some config ∧ (r.step serde jwt (.message c msg phxRef)).joins = r.joins := by
  constructor
  · simp only [Recorded.step, Gateway.step, hso, Option.elim_some, Gateway.receive] at hsub
    exact handle_other hacs hsub
  · simp [Recorded.step, joinsAfter, hso, hacs]

theorem subscriptionOf_kept (h : ∀ session msg phxRef c, e = .message c msg phxRef → r.gateway.sockets.lookup c = some session →
      accepts serde session msg = false) (hsub : (r.step serde jwt e).gateway.hub.subscriptionOf c topic = some config) :
    r.gateway.hub.subscriptionOf c topic = some config ∧ (r.step serde jwt e).joins = r.joins := by
  cases e with
  | connect tenantId role =>
    simp only [Recorded.step, Gateway.step, Gateway.connect, ChannelHub.subscriptionOf_addConnection] at hsub
    split at hsub
    · cases hsub
    · exact ⟨hsub, rfl⟩
  | message c' msg phxRef =>
    cases hso : r.gateway.sockets.lookup c' with
    | none =>
      simp only [Recorded.step, Gateway.step, hso, Option.elim_none, joinsAfter, and_true] at hsub ⊢
      exact hsub
    | some session => exact subscriptionOf_other hso (h session msg phxRef c' rfl hso) hsub
  | disconnect c' =>
    simp only [Recorded.step, Gateway.step] at hsub ⊢
    refine ⟨?_, rfl⟩
    cases hso : r.gateway.sockets.lookup c' with
    | none =>
      rw [hso] at hsub
      exact hsub
    | some session =>
      simp only [hso, Option.elim_some, Gateway.disconnect, handleDisconnect, ChannelHub.subscriptionOf_removeConnection] at hsub
      split at hsub
      · cases hsub
      · exact hsub
  | apiBroadcast tenantId topic payload | ingestCdc tenantId change now | registryCall call => exact ⟨hsub, rfl⟩

theorem accepting_or (serde : Serde F) (r : Recorded F) (e : Event) :
    (∃ session msg phxRef c, e = .message c msg phxRef ∧ r.gateway.sockets.lookup c = some session ∧ accepts serde session msg) ∨
      ∀ session msg phxRef c, e = .message c msg phxRef → r.gateway.sockets.lookup c = some session → accepts serde session msg = false := by
  by_cases h : ∃ session msg phxRef c, e = .message c msg phxRef ∧ r.gateway.sockets.lookup c = some session ∧ accepts serde session msg
  · exact Or.inl h
  · grind

theorem Traced.step (h : r.Traced serde) : (r.step serde jwt e).Traced serde := by
  refine ⟨h.wired.step, fun c topic config hsub => ?_⟩
  rcases accepting_or serde r e with ⟨session, msg, phxRef, c', rfl, hso, hacs⟩ | hot
  · rw [(subscriptionOf_accepted h hso hacs).1] at hsub
    rw [(@subscriptionOf_accepted F serde jwt session msg phxRef topic c' c r h hso hacs).2]
    by_cases hkey : c = c' ∧ topic = msg.topic
    · obtain ⟨rfl, rfl⟩ := hkey
      rw [if_pos ⟨rfl, rfl⟩] at hsub
      cases hsub
      exact ⟨msg.payload, AList.lookup_insert _, rfl⟩
    · rw [if_neg hkey] at hsub
      rw [AList.lookup_insert_ne fun heq => hkey (Prod.mk.inj heq)]
      exact h.traced c topic config hsub
  · grind [→ h.traced, → subscriptionOf_kept]

theorem items_accepted (hacs : accepts serde session msg) (h : privileged session.role → ∀ item ∈ changeItems msg.payload,
    filterAccepted serde item) : ∀ item ∈ changeItems msg.payload, filterAccepted serde item := by
  intro item hit
  by_cases hro : privileged session.role
  · exact h hro item hit
  · have hno : changeSubscriptions serde msg.payload = [] := by
      simpa [joinRefused, hro] using (Bool.and_eq_true_iff.mp hacs).2
    rw [changeSubscriptions, List.map_eq_nil_iff] at hno
    rw [hno] at hit
    simp at hit

theorem filtersAccepted_iff (h : r.Traced serde) (hsn : r.Sound serde) :
    r.FiltersAccepted serde e ↔ (r.step serde jwt e).Sound serde := by
  rcases accepting_or serde r e with ⟨session, msg, phxRef, c, rfl, hso, hacs⟩ | hot
  · have hsu := fun c' topic => @subscriptionOf_accepted F serde jwt session msg phxRef topic c c' r h hso hacs
    constructor
    · intro hfis c' topic config hsub payload hpa
      rw [(hsu c' topic).1] at hsub
      rw [(hsu c' topic).2] at hpa
      by_cases hkey : c' = c ∧ topic = msg.topic
      · obtain ⟨rfl, rfl⟩ := hkey
        rw [AList.lookup_insert, Option.some.injEq] at hpa
        subst hpa
        have hev : msg.event = "phx_join".toList := of_decide_eq_true (Bool.and_eq_true_iff.mp hacs).1
        exact items_accepted hacs (hfis hev session hso)
      · rw [if_neg hkey] at hsub
        rw [AList.lookup_insert_ne fun heq => hkey (Prod.mk.inj heq)] at hpa
        exact hsn c' topic config hsub payload hpa
    · intro haf _ session' hso' _
      have hsub := (hsu c msg.topic).1
      rw [if_pos ⟨rfl, rfl⟩] at hsub
      exact haf c msg.topic _ hsub msg.payload (by rw [(hsu c msg.topic).2, AList.lookup_insert])
  · refine iff_of_true ?_ fun c topic config hsub payload hpa => ?_
    · cases e with
      | message c msg phxRef =>
        intro hev session hso hro
        have hre := hot session msg phxRef c rfl hso
        rw [accepts, decide_eq_true hev, joinRefused, hro] at hre
        simp at hre
      | _ => trivial
    · obtain ⟨hbe, hjos⟩ := subscriptionOf_kept hot hsub
      rw [hjos] at hpa
      exact hsn c topic config hbe payload hpa

end Recorded

end Supacloud.Realtime
