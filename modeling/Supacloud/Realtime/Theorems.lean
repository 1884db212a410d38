import Supacloud.Realtime.Lemmas.Ghosts
import Supacloud.Realtime.Lemmas.Joins

/-!
# Realtime の門の性質
-/

namespace Supacloud.Realtime

open Library Directory Watched Gateway List Option

variable {F : Type}

def AliasesCurrent (secret : Option Text) (calls : List RegistryCall) : Prop :=
  ∀ before after, calls = before ++ after →
    (run Directory.step (.new secret) before).Current ∧ (run Directory.step (.new secret) before).Gone

/-- どの名も最後の登録を引くのは、登録と取り消しのたびに、そのテナントの名がすべて改まるときに限る。 -/
theorem aliases_current (secret : Option Text) (calls : List RegistryCall) :
    AliasesCurrent secret calls ↔ Along Directory.step Directory.Covered (.new secret) calls := by
  have hnew : (new secret).Current := by
    intro key config hget
    simp [new, TenantRegistry.new, TenantRegistry.get] at hget
  have hiff := along_iff_forall step calls (C := Covered) (I := Current) (J := fun _ => True)
    (fun _ _ _ => trivial) (fun _ _ _ hcu => covered_iff hcu) trivial hnew
  rw [hiff]
  constructor
  · exact fun h before after hsp => (h before after hsp).1
  · exact fun h before after hsp => ⟨h before after hsp, (h before after hsp).gone⟩

def sampleTenant (externalId secret : String) : TenantConfig where
  id := "a".toList
  externalId := some externalId.toList
  jwtSecret := secret.toList
  dbHost := "db".toList
  dbPort := 5432
  dbName := "postgres".toList
  dbUser := "postgres".toList
  dbPassword := []
  slotName := none

/-- `external_id` で取り消したテナントも、`external_id` を変えたテナントの前の設定も、残った名で引ける。 -/
theorem stale_alias_resolved : ¬ AliasesCurrent none [.register (sampleTenant "x" "s"), .remove "x".toList] ∧
      ¬ AliasesCurrent none [.register (sampleTenant "x" "s"), .register (sampleTenant "y" "t")] := by
  constructor
  · intro h
    have hke := (h _ [] (append_nil _).symm).1 "a".toList (sampleTenant "x" "s") (by decide)
    exact absurd hke.2 (by decide)
  · intro h
    have hke := (h _ [] (append_nil _).symm).1 "x".toList (sampleTenant "x" "s") (by decide)
    exact absurd hke.2 (by decide)

def DiffsMirror (serde : Serde F) (tenantId topic : Text) (calls : List PresenceCall) : Prop :=
  ∀ before after, calls = before ++ after → (run (Watched.step serde tenantId topic) .start before).Mirrored tenantId topic

/-- 差分から作った在席が同じであり続けるのは、取り消す接続の在席の鍵が、いつも重ならないときに限る。 -/
theorem diffs_mirror (serde : Serde F) (tenantId topic : Text) (calls : List PresenceCall)
    (h : (calls.filterMap PresenceCall.phxRef?).Nodup) : DiffsMirror serde tenantId topic calls ↔
      Along (Watched.step serde tenantId topic) (Watched.SingleKeys tenantId topic) .start calls := by
  have hst : start.Mirrored tenantId topic := by
    rw [mirrored_iff linked_start]
    intro key
    rfl
  have hfr : Along (step serde tenantId topic) Fresh .start calls :=
    along_fresh h fun _ _ => not_mem_nil
  exact (along_iff_forall_of (J := Linked tenantId topic) (fun _ _ hli hnew => linked_step hli hnew)
    (fun _ _ hli hmi hnew => single_iff hli hmi hnew) hfr linked_start hst).symm

def plainSerde : Serde Nat where
  display _ := []
  parseF64 _ := none
  asF64 _ := none
  lt a b := a < b
  le a b := a ≤ b

def trackedTwice : List PresenceCall :=
  [.track 1 none (.object [field "key" (.string "u".toList)]) "F1".toList,
    .track 1 none (.object [field "key" (.string "u".toList)]) "F2".toList, .untrack 1]

theorem diffs_mirror_two : (trackedTwice.filterMap PresenceCall.phxRef?).Nodup ∧
    (DiffsMirror plainSerde "t".toList "room".toList trackedTwice ↔
      Along (Watched.step plainSerde "t".toList "room".toList) (Watched.SingleKeys "t".toList "room".toList) .start trackedTwice) :=
  ⟨by decide, diffs_mirror plainSerde "t".toList "room".toList trackedTwice (by decide)⟩

/-- 在席は空なのに、客には一つ目の在席が残る。 -/
theorem dropped_leave_shown : ¬ DiffsMirror plainSerde "t".toList "room".toList trackedTwice := by
  intro h
  have hla := h trackedTwice [] (append_nil _).symm "u".toList
  exact absurd (congrArg isSome hla) (by decide)

/-! ## 在席の片付け -/

def NeverGhost (serde : Serde F) (jwt : Jwt) (registry : TenantRegistry) (events : List Event) : Prop :=
  ∀ before after, events = before ++ after → (run (Gateway.step serde jwt) (.start registry) before).NoGhost

/-- 切れた接続の在席が残らないのは、切れる接続が、在席のある話題をすべて購読しているときに限る。 -/
theorem never_ghost (serde : Serde F) (jwt : Jwt) (registry : TenantRegistry) (events : List Event) :
    NeverGhost serde jwt registry events ↔ Along (Gateway.step serde jwt) Gateway.CleansUp (.start registry) events := by
  have hst : (start registry : Gateway F).hub.Settled := fun c _ scopedTopic => rfl
  have hiff := along_iff_forall (step serde jwt) events (C := CleansUp) (I := fun w => w.hub.Settled)
    (J := Kept) (fun _ _ hke => hke.step) (fun _ _ hke hse => cleansUp_iff hke hse)
    kept_start hst
  rw [hiff]
  refine forall_congr' fun before => forall_congr' fun after => forall_congr' fun _ => ?_
  have hke : (run (Gateway.step serde jwt) (.start registry) before).Kept :=
    run_invariant (fun _ _ hke => hke.step) kept_start
  exact noGhost_iff hke.owned

def closedJwt : Jwt where
  decodeClaims _ := none
  verifySlice _ _ _ := false
  now := 0

def frame (topic event : String) (payload : Value) : PhoenixV2Message where
  joinRef := none
  reference := none
  topic := topic.toList
  event := event.toList
  payload

def trackedUnjoined : List Event :=
  [.connect "t".toList "anon".toList,
    .message 1 (frame "room" "presence" (.object [field "event" (.string "track".toList)])) "F1".toList, .disconnect 1]

theorem ghost_shown : ¬ NeverGhost plainSerde closedJwt (.new none) trackedUnjoined := by
  intro h
  have hgo := (h trackedUnjoined [] (append_nil _).symm).2 1 (by decide) (topicKey "t".toList "room".toList)
  exact absurd (congrArg length hgo) (by decide)

/-! ## 索引とテナントの隔たり -/

/-- テナントの話題の購読者は、その話題を購読している、つながった接続のちょうど全部で、空の集合はない。伝言はそのテナントの接続にだけ
届き、接続がなくなれば、どちらの表も空である。 -/
structure Gateway.Separated (w : Gateway F) : Prop where
  subscribers : ∀ tenantId topic c, ValidTenant tenantId → (c ∈ (w.hub.topicSubscribers.lookup (topicKey tenantId topic)).getD [] ↔
    ∃ session conn, w.sockets.lookup c = some session ∧ session.tenantId = tenantId ∧ w.hub.connections.lookup c = some conn ∧
      topic ∈ conn.subscriptions)
  nonempty : ∀ key subscribers, w.hub.topicSubscribers.lookup key = some subscribers → subscribers ≠ [] ∧
    ∃ tenantId topic, ValidTenant tenantId ∧ key = topicKey tenantId topic
  delivered : ∀ d ∈ w.sent, ∃ session, w.opened.lookup d.recipient = some session ∧ session.tenantId = d.tenantId
  cleared : w.sockets = ∅ → w.hub.connections = ∅ ∧ w.hub.topicSubscribers = ∅

theorem gateway_separated (serde : Serde F) (jwt : Jwt) (registry : TenantRegistry) (events : List Event) (h : ∀ e ∈ events, e.Valid) :
    (run (Gateway.step serde jwt) (.start registry) events).Separated := by
  have hal : Along (Gateway.step serde jwt) (fun _ e => e.Valid) (.start registry) events :=
    along_iff.mpr fun before e after hsp => h e (by rw [hsp]; exact mem_append_right _ mem_cons_self)
  have his := hal.invariant (fun _ _ hw hva => hw.step hva) Gateway.isolated_start
  generalize run (Gateway.step serde jwt) (.start registry) events = w at his
  refine ⟨fun tenantId topic c hva => ?_, fun key subscribers hkey => ?_, his.sent, his.cleared⟩
  · constructor
    · intro hc
      have hsub := Gateway.subscriber_tenant his.wired his.indexed his.valid hva hc
      obtain ⟨session, hso, hsa⟩ := his.session_of hsub
      obtain ⟨conn, hco, -, hto⟩ := hsub
      exact ⟨session, conn, hso, hsa, hco, hto⟩
    · rintro ⟨session, conn, hso, hsa, hco, hto⟩
      have hte := his.wired.tenants c
      rw [ChannelHub.tenantOf, hco, hso, map_some, map_some, some.injEq, hsa] at hte
      exact (his.indexed.exact _ c).mpr ⟨tenantId, topic, rfl, conn, hco, hte, hto⟩
  · have hne : subscribers ≠ [] := fun hnil => his.indexed.full key (by rw [hkey, hnil])
    refine ⟨hne, ?_⟩
    obtain ⟨c, hc⟩ := exists_mem_of_ne_nil _ hne
    have hmem : c ∈ w.hub.subscribersOf key := by
      simpa [ChannelHub.subscribersOf, Lists.listAt, hkey] using hc
    obtain ⟨tenantId, topic, hsa, hsub⟩ := (his.indexed.exact key c).mp hmem
    obtain ⟨session, hso, hte⟩ := his.session_of hsub
    exact ⟨tenantId, topic, hte ▸ his.valid c session (his.wired.known c session hso).2, hsa⟩

def twoTenants : List Event :=
  [.connect "a".toList "anon".toList, .connect "b".toList "anon".toList, .connect "a".toList "anon".toList,
    .message 1 (frame "room" "phx_join" emptyObject) [], .message 2 (frame "room" "phx_join" emptyObject) [],
    .message 3 (frame "room" "phx_join" emptyObject) [], .message 1 (frame "room" "broadcast" emptyObject) [],
    .disconnect 1, .disconnect 2, .disconnect 3]

theorem gateway_separated_two : (∀ e ∈ twoTenants, e.Valid) ∧
    ((run (Gateway.step plainSerde closedJwt) (.start (.new none)) twoTenants).sent.map fun d => (d.tenantId, d.recipient)) =
      [("a".toList, 1), ("b".toList, 2), ("a".toList, 3), ("a".toList, 3)] ∧
    (run (Gateway.step plainSerde closedJwt) (.start (.new none)) twoTenants).Separated :=
  ⟨by decide, by decide, gateway_separated plainSerde closedJwt (.new none) twoTenants (by decide)⟩

/-! ## 絞り込み -/

def FiltersFailClosed (serde : Serde F) (jwt : Jwt) (registry : TenantRegistry) (events : List Event) : Prop :=
  ∀ before after, events = before ++ after → (run (Recorded.step serde jwt) (.start registry) before).FailsClosed serde

/-- 変更に当たる項目だけが載るのは、受け入れる参加の絞り込みの文字列が、どれも受け付けられるときに限る。 -/
theorem filters_fail_closed (serde : Serde F) (jwt : Jwt) (registry : TenantRegistry) (events : List Event) :
    FiltersFailClosed serde jwt registry events ↔
      Along (Recorded.step serde jwt) (Recorded.FiltersAccepted serde) (.start registry) events := by
  have hiff := along_iff_forall (Recorded.step serde jwt) events (C := Recorded.FiltersAccepted serde) (I := Recorded.Sound serde)
    (J := Recorded.Traced serde) (fun _ _ htr => htr.step)
    (fun _ _ htr hsn => Recorded.filtersAccepted_iff htr hsn) (Recorded.traced_start registry)
    Recorded.sound_start
  rw [hiff]
  refine forall_congr' fun before => forall_congr' fun after => forall_congr' fun _ => ?_
  have htr : (run (Recorded.step serde jwt) (.start registry) before).Traced serde :=
    run_invariant (fun _ _ htr => htr.step) (Recorded.traced_start registry)
  exact Recorded.failsClosed_iff htr

def unparsedJoin : List Event :=
  [.connect "t".toList "service_role".toList,
    .message 1 (frame "room" "phx_join" (.object [field "config" (.object [field "postgres_changes" (.array [.object [
      field "event" (.string "*".toList), field "table" (.string "m".toList), field "filter" (.string "id=42".toList)]])])])) []]

def insertedRow : PostgresChangeEvent where
  schema := "public".toList
  table := "m".toList
  changeType := "INSERT".toList
  record := .object [field "id" (.number "7".toList)]
  oldRecord := none
  columns := none
  commitTimestamp := none

/-- 受け付けられない絞り込みの項目が、どの行の変更にも載る。 -/
theorem unparsed_filter_listed : ¬ FiltersFailClosed plainSerde closedJwt (.new none) unparsedJoin := by
  intro h
  have hcl := h unparsedJoin [] (append_nil _).symm "t".toList insertedRow []
  generalize hrun : run (Recorded.step plainSerde closedJwt) (.start (.new none)) unparsedJoin = r at hcl
  have hlo : ∃ d ∈ r.gateway.hub.dispatchCdc plainSerde "t".toList insertedRow [],
      ((r.joins.lookup (d.recipient, d.message.topic)).elim 0 fun payload => (fittingIds plainSerde insertedRow payload).length) <
        (idsOf d.message.payload).length := by
    subst hrun
    decide
  obtain ⟨d, hd, hlt⟩ := hlo
  obtain ⟨payload, hpa, hsu⟩ := hcl d hd
  rw [hpa, elim_some] at hlt
  exact absurd hsu.length_le (Nat.not_le_of_lt hlt)

/-! ## 在席の記録 -/

/-- `phx_ref` が重ならなければ、どの呼び出しの列の後も、話題の列と接続ごとの記録は、同じ在席をちょうど持つ。 -/
theorem presence_represented (serde : Serde F) (calls : List StoreCall) (h : (calls.filterMap StoreCall.phxRef?).Nodup) :
    (run (PresenceManager.step serde) .new calls).Represented :=
  PresenceManager.stored_new.run h (by simp)

def sharedKey : List StoreCall :=
  [.track "t".toList 1 "room".toList (some "k".toList) emptyObject "F1".toList,
    .track "t".toList 2 "room".toList (some "k".toList) emptyObject "F2".toList, .untrackAll "t".toList 1 id]

theorem presence_represented_shared : (run (PresenceManager.step plainSerde) .new sharedKey).Represented :=
  presence_represented plainSerde sharedKey (by decide)

end Supacloud.Realtime
