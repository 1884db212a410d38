import Supacloud.RealtimeProxy.Lemmas.Changes
import Supacloud.RealtimeProxy.Lemmas.Delivery
import Supacloud.RealtimeProxy.Lemmas.Turns
import Supacloud.RealtimeProxy.Lemmas.Wired

/-!
# 実時間の中継の主定理
-/

namespace Supacloud.RealtimeProxy

open Contracts (JsString)

open Vectors (js)

/-! ## 二つの経路 -/

/-- 二つの経路が一致するのは、当てはまる購読の呼び名とサーバーの識別子がそろい、どの購読も列を落とさないとき、ちょうどそのときである。 -/
theorem native_agrees_iff (filters : Filters) (channel : NativeChannel filters) (before after : List Registration) (change : RealtimeChange)
    (hvisible : change.type ≠ .delete) :
    Agrees channel (registered (before ++ (channel.nativeId, announcedIds channel) :: after)) change ↔
      Aligned channel (registered (before ++ (channel.nativeId, announcedIds channel) :: after)) change := by
  generalize registered (before ++ (channel.nativeId, announcedIds channel) :: after) = map
  obtain ⟨hbn, _⟩ := bindRealtimeSubscriptionIds_inv channel.bound
  constructor
  · intro h
    refine ⟨?_, ?_, ?_⟩
    · intro i sub name hsub hma hca
      exact (h.exact _).mp ((mem_nativeFrames hvisible).mpr ⟨i, sub, name, hsub, hma, hca, rfl⟩)
    · intro id hid
      exact (mem_nativeFrames hvisible).mp ((h.exact id).mpr hid)
    · intro sub hsub hma
      obtain ⟨b, hb, hsuB⟩ := bound_of_mem hbn hsub
      obtain ⟨id, hbid⟩ := exists_id_of_mem hbn hb
      have hmaB : matchesChange filters change b = true := by rw [hsuB.matchesChange, hma]
      obtain ⟨frame, hframe, hid⟩ := (h.exact id).mpr (mem_matchingServerIds.mpr ⟨b, hb, hmaB, hbid⟩)
      obtain ⟨projected, hpr, hidP, hda⟩ := h.data frame hframe id hid
      rw [data_of_mem_nativeFrames hframe, delegated_data hpr hidP hb hbid, sameData_projectData] at hda
      rwa [hsuB.same_select] at hda
  · intro h
    have hex : ∀ id, (∃ frame ∈ nativeFrames channel map change, id ∈ frame.ids) ↔ id ∈ matchingServerIds channel change := by
      intro id
      rw [mem_nativeFrames hvisible]
      constructor
      · rintro ⟨i, sub, name, hsub, hma, hca, rfl⟩
        exact h.called i sub name hsub hma hca
      · exact h.served id
    refine ⟨?_, hex, ?_⟩
    · intro frame hframe id hid
      obtain ⟨b, hb, _, hbid⟩ := mem_matchingServerIds.mp ((hex id).mp ⟨frame, hframe, hid⟩)
      exact List.mem_filterMap.mpr ⟨b, hb, hbid⟩
    · intro frame hframe id hid
      obtain ⟨b, hb, hma, hbid⟩ := mem_matchingServerIds.mp ((hex id).mp ⟨frame, hframe, hid⟩)
      obtain ⟨projected, hpr, hidP⟩ := exists_delegated hb hma hbid
      refine ⟨projected, hpr, hidP, ?_⟩
      obtain ⟨sub, hsub, hsuB⟩ := exists_sub_of_mem hbn hb
      rw [hsuB.matchesChange] at hma
      rw [data_of_mem_nativeFrames hframe, delegated_data hpr hidP hb hbid, sameData_projectData, hsuB.same_select]
      exact h.covered sub hsub hma

def plainFilters : Filters := { parses := fun _ => false, native := fun filter => filter == none, holds := fun _ _ => false }

def ordersSubscription (id : Option SubscriptionId) : PostgresChangeConfig :=
  { id, event := some .insert, schema := js "public", table := some (js "orders"), filter := none, select := none }

def ordersMapping (id : Json) : Json :=
  .array [.object [(js "event", .string (js "INSERT")), (js "schema", .string (js "public")), (js "table", .string (js "orders")), (js "id", id)]]

def numberedChannel : NativeChannel plainFilters where
  changes := [ordersSubscription none]
  native := by decide
  value := ordersMapping (.number 7)
  bindings := [ordersSubscription (some (.number 7))]
  bound := by decide
  nativeId := js "p:1"

def namedChannel : NativeChannel plainFilters where
  changes := [ordersSubscription (some (.text (js "a")))]
  native := by decide
  value := ordersMapping (.string (js "a"))
  bindings := [ordersSubscription (some (.text (js "a")))]
  bound := by decide
  nativeId := js "p:1"

def ordersChange : RealtimeChange :=
  { columns := [⟨js "id", js "int4"⟩], commitTimestamp := js "2024-01-01T00:00:00Z", record := [(js "id", .number 1)], oldRecord := none,
    schema := js "public", table := js "orders", type := .insert }

theorem native_agrees_named :
    Agrees namedChannel (registered ([] ++ (namedChannel.nativeId, announcedIds namedChannel) :: [])) ordersChange ↔
      Aligned namedChannel (registered ([] ++ (namedChannel.nativeId, announcedIds namedChannel) :: [])) ordersChange :=
  native_agrees_iff plainFilters namedChannel [] [] ordersChange (by decide)

theorem native_ids_unannounced : ordersChange.type ≠ .delete ∧
      ¬ Agrees numberedChannel (registered ([] ++ (numberedChannel.nativeId, announcedIds numberedChannel) :: [])) ordersChange := by
  refine ⟨by decide, fun h => ?_⟩
  have hmem := h.announced (formatEvent ordersChange [js "0"]) (by decide) (.text (js "0")) (by decide)
  exact absurd hmem (by decide)

/-! ## 漏れと重なり -/

open Library List

/-- 取り消しが、まだ調べていない購読状態を飛ばさせない走行では、登録されていて見える購読状態に、ちょうど一つずつ出る。 -/
theorem native_exactly_once (filters : Filters) (visible : Nat → Nat → Nat → Bool) (projectRef : JsString) (events : List ServiceEvent)
    (hkeep : Along (step filters visible) (KeepsPlace filters visible) (.empty projectRef) events) :
    (∀ f ∈ (run (step filters visible) (.empty projectRef) events).finished, ∀ state ∈ f.kept,
        state.matchesChange filters f.change = true → visible f.task f.offset state.id = true →
          (run (step filters visible) (.empty projectRef) events).emittedTo f.task f.offset state.id = 1) ∧
      (∀ e ∈ (run (step filters visible) (.empty projectRef) events).log, e.registered = true) ∧
      ∀ k i id, (run (step filters visible) (.empty projectRef) events).emittedTo k i id ≤ 1 := by
  have hbo : Inv visible (run (step filters visible) (.empty projectRef) events) ∧
      Complete filters visible (run (step filters visible) (.empty projectRef) events) := by
    refine Along.invariant (I := fun w => Inv visible w ∧ Complete filters visible w) ?_ hkeep ⟨inv_empty projectRef, complete_empty projectRef⟩
    intro w e hw hk
    exact ⟨step_inv hw.1 e, step_complete hw.1 hw.2 e hk⟩
  obtain ⟨hinv, hco⟩ := hbo
  exact ⟨hco.finished, fun e he => (hinv.logged.entries e he).1, hinv.logged.atMostOnce⟩

def quietEvents : List ServiceEvent :=
  [.subscribe 0 [ordersSubscription none] (js "t"), .subscribe 0 [{ ordersSubscription none with table := some (js "users") }] (js "t"),
    .subscribe 0 [ordersSubscription none] (js "t"), .deliver [ordersChange], .start 0, .unsubscribe 1, .resolve 0, .resolve 0]

def skippingEvents : List ServiceEvent :=
  [.subscribe 0 [ordersSubscription none] (js "t"), .subscribe 0 [ordersSubscription none] (js "t"), .deliver [ordersChange], .start 0,
    .unsubscribe 1, .resolve 0]

def overtakingEvents : List ServiceEvent :=
  [.subscribe 0 [ordersSubscription none] (js "t"), .deliver [ordersChange], .start 0, .deliver [ordersChange], .start 1, .resolve 1, .resolve 0]

def seenRun (events : List ServiceEvent) : Tenant := run (step plainFilters fun _ _ _ => true) (.empty (js "p")) events

theorem native_exactly_once_quiet : (seenRun quietEvents).finished.map (fun f => f.kept.map (·.id)) = [[2, 3]] ∧
      (seenRun quietEvents).emittedTo 0 0 3 = 1 := by
  refine ⟨by decide, ?_⟩
  have hkeep : Along (step plainFilters fun _ _ _ => true) (KeepsPlace plainFilters fun _ _ _ => true) (.empty (js "p")) quietEvents := by
    refine ⟨trivial, trivial, trivial, trivial, trivial, ?_, trivial, trivial, trivial⟩
    intro k task scan htask hscan _ _ state hstate _ hmatch
    cases k with
    | zero =>
      cases Option.some.inj htask
      cases Option.some.inj hscan
      cases Option.some.inj hstate
      exact absurd hmatch (by decide)
    | succ k => cases htask
  exact (native_exactly_once plainFilters (fun _ _ _ => true) (js "p") quietEvents hkeep).1
    { task := 0, offset := 0, change := ordersChange
      kept := [⟨2, [{ ordersSubscription none with table := some (js "users") }], some (js "t")⟩, ⟨3, [ordersSubscription none], some (js "t")⟩] }
    (by decide) ⟨3, [ordersSubscription none], some (js "t")⟩ (by decide) (by decide) rfl

/-- 検査の途中で前の購読状態が抜かれると、次の購読状態は、登録されたままなのに飛ばされる。 -/
theorem native_skips_next : ∃ f ∈ (seenRun skippingEvents).finished, ∃ state ∈ f.kept, state.matchesChange plainFilters f.change = true ∧
      (seenRun skippingEvents).emittedTo f.task f.offset state.id = 0 :=
  ⟨{ task := 0, offset := 0, change := ordersChange, kept := [⟨2, [ordersSubscription none], some (js "t")⟩] }, by decide,
    ⟨2, [ordersSubscription none], some (js "t")⟩, by decide, by decide, by decide⟩

/-- 見えた検査がより古い変更を追い越さない走行では、一つの購読状態に出る変更は、届いた変更の部分列である。 -/
theorem native_in_order (filters : Filters) (visible : Nat → Nat → Nat → Bool) (projectRef : JsString) (events : List ServiceEvent)
    (hturn : Along (step filters visible) (InTurn filters visible) (.empty projectRef) events) (id : Nat) :
    (emittedFor (run (step filters visible) (.empty projectRef) events) id).Sublist
      (produced (run (step filters visible) (.empty projectRef) events)) := by
  have hbo : Inv visible (run (step filters visible) (.empty projectRef) events) ∧
      Sorted filters visible (run (step filters visible) (.empty projectRef) events) := by
    refine Along.invariant (I := fun w => Inv visible w ∧ Sorted filters visible w) ?_ hturn ⟨inv_empty projectRef, ?_⟩
    · intro w e hw ht
      exact ⟨step_inv hw.1 e, step_sorted hw.1 hw.2 e ht⟩
    · exact ⟨fun e he => (nomatch he), List.Pairwise.nil⟩
  exact emittedFor_sublist hbo.1.logged hbo.2 id

/-- 一まとまりの二つの変更と、次の通知の検査が、重なりながら順に終わる。 -/
def overlappingEvents : List ServiceEvent :=
  [.subscribe 0 [ordersSubscription none] (js "t"), .deliver [ordersChange, ordersChange], .start 0, .deliver [ordersChange], .start 1,
    .resolve 0, .start 0, .resolve 0, .resolve 1]

theorem native_in_order_quiet : emittedFor (seenRun overlappingEvents) 1 = [(0, 0, ordersChange), (0, 1, ordersChange), (1, 0, ordersChange)] ∧
      (emittedFor (seenRun overlappingEvents) 1).Sublist (produced (seenRun overlappingEvents)) := by
  refine ⟨by decide, native_in_order plainFilters (fun _ _ _ => true) (js "p") overlappingEvents ?_ 1⟩
  have hfirst (w : Tenant) : InTurn plainFilters (fun _ _ _ => true) w (.resolve 0) :=
    fun _ _ _ _ _ k' hk => absurd hk (Nat.not_lt_zero k')
  refine ⟨trivial, trivial, trivial, trivial, trivial, hfirst _, trivial, hfirst _, ?_, trivial⟩
  rintro task scan - - - k' hk i ⟨-, task', htask, ⟨scan', hscan, -⟩ | ⟨hle, change, hchange, -⟩⟩
  · obtain rfl := Nat.lt_one_iff.mp hk
    cases Option.some.inj htask
    cases hscan
  · obtain rfl := Nat.lt_one_iff.mp hk
    cases Option.some.inj htask
    exact absurd (List.getElem?_eq_some_iff.mp hchange).1 (Nat.not_lt_of_le hle)

/-- 二つの通知の検査が重なると、後の変更が先に出る。 -/
theorem native_overtakes : ¬ (emittedFor (seenRun overtakingEvents) 1).Sublist (produced (seenRun overtakingEvents)) := by
  have hem : emittedFor (seenRun overtakingEvents) 1 = [(1, 0, ordersChange), (0, 0, ordersChange)] := by decide
  have hpro : produced (seenRun overtakingEvents) = [(0, 0, ordersChange), (1, 0, ordersChange)] := by decide
  rw [hem, hpro]
  decide

/-- 接続の数は、結び付いていて閉じていない接続の数で、上限を超えない。変更のフレームは、参加が認められていて、
更新の途中でないチャネルにだけ送る。 -/
theorem connections_accounted (transports : Nat → Transport) (events : List ProxyEvent) :
    let p := run (proxyStep transports) .initial events
    (∀ ref, p.counts ref = (p.sessions.filter (·.boundTo ref)).length ∧ p.counts ref ≤ maxConnectionsPerProject) ∧
      (∀ s ∈ p.sessions, s.Quiet → s.Owns) ∧
      ∀ s ∈ p.sessions, ∀ x ∈ s.sent, x.frame.isChange → ∃ standing, x.standing = some standing ∧ standing.Open := by
  intro p
  have hba : Balanced p := balanced_run transports events
  refine ⟨fun ref => ⟨?_, hba.bounded ref⟩, fun s hs hqu => (hba.placed s hs).owns hqu, fun s hs => (hba.placed s hs).sound.sent⟩
  rw [hba.counts, countP_eq_length_filter]

/-! ## クライアントの順 -/

/-- 同じ話題の前のフレームを待たせたまま後のフレームを送らない走行では、どの話題のフレームも、届いた順に上流に送られる。 -/
theorem client_order_kept (transport : Transport) (events : List ((JsString → Nat) × SessionEvent))
    (hturn : Along (clientStep transport) (fun s e => KeepsTurn transport s e.2) .initial events) (topic : JsString) :
    ((run (clientStep transport) .initial events).forwardedOn topic).Pairwise (· < ·) := by
  have hbo : (run (clientStep transport) .initial events).Placed ∧ (run (clientStep transport) .initial events).InLine := by
    refine Along.invariant (I := fun s => s.Placed ∧ s.InLine) ?_ hturn ⟨Session.placed_initial, Session.inLine_initial⟩
    intro s e hs hkes
    exact ⟨(Session.sessionStep_spec transport e.1 e.2 hs.1).1, Session.sessionStep_inLine e.1 e.2 hs.1 hs.2 hkes⟩
  exact hbo.2.forwarded topic

def plainTransport : Transport :=
  { filters := plainFilters, bytes := fun _ => 10, fails := fun _ => false, isClientBroadcast := fun _ => true, isServerBroadcast := fun _ => true
    parseChange := fun _ => none }

def roomMessage (event : EventName) (payload : Payload) : PhoenixMessage :=
  { joinRef := some (js "1"), ref := some (js "1"), topic := js "t", event, payload }

def ordersChanges : Json :=
  .array [.object [(js "event", .string (js "INSERT")), (js "schema", .string (js "public")), (js "table", .string (js "orders"))]]

def began : SessionEvent := .begin (some { apiKey := js "k", requested := [] })

def resolved (readyState : ReadyState) : SessionEvent := .keyResolved (.resolved (js "p") (js "up")) (some readyState)

def joinRoom : SessionEvent := .message (.text (roomMessage .join [(js "config", .object [(js "postgres_changes", ordersChanges)])]))

def newToken : SessionEvent := .message (.text (roomMessage .accessToken [(js "access_token", .string (js "new"))]))

def talk : SessionEvent := .message (.text (roomMessage (.other (js "b")) []))

/-- 参加は早く届き、札が認められた後に、次のフレームが届く。 -/
def talkingRoom : List SessionEvent :=
  [began, joinRoom, resolved .connecting, .replay, .upstreamOpen, .created 0 5, newToken, .startSettled 0, .readySettled 0 true,
    .refreshChecked 0, .refreshSettled 0 false, talk]

def refreshingRoom : List SessionEvent :=
  [began, resolved .opened, joinRoom, newToken, talk, .created 0 5, .startSettled 0, .readySettled 0 true, .refreshChecked 0,
    .refreshSettled 0 false]

def clientRun (events : List SessionEvent) : Session := run (clientStep plainTransport) .initial (events.map fun e => (fun _ => 0, e))

theorem client_order_kept_joined : ((clientRun talkingRoom).forwardedOn (js "t")).Pairwise (· < ·) ∧
    (clientRun talkingRoom).forwardedOn (js "t") = [0, 1, 2] := by
  refine ⟨client_order_kept plainTransport (talkingRoom.map fun e => (fun _ => 0, e)) ⟨trivial, fun _ hpr => absurd rfl hpr, trivial,
    fun received stamp rest heq _ => ?_, trivial, trivial, fun _ _ hpa => absurd hpa (by decide), trivial, trivial, trivial,
    fun _ _ _ _ ⟨_, hframe, _⟩ => (nomatch hframe),
    fun _ _ _ => ⟨fun ⟨_, hframe, _⟩ => (nomatch hframe), fun _ _ ⟨_, hrefresh, _⟩ => (nomatch hrefresh)⟩, trivial⟩ (js "t"), by decide⟩
  cases heq
  exact ⟨fun ⟨_, _, n, _, hlt⟩ => Nat.not_lt_zero n hlt, fun _ _ ⟨_, hrefresh, _⟩ => (nomatch hrefresh)⟩

/-- 札のフレームは、後から届いたフレームの後に上流に送られる。 -/
theorem client_order_refreshing : ¬ ((clientRun refreshingRoom).forwardedOn (js "t")).Pairwise (· < ·) := by
  have hfo : (clientRun refreshingRoom).forwardedOn (js "t") = [0, 2, 1] := by decide
  rw [hfo]
  decide

/-! ## 札の移り変わり -/

/-- 札が認められるときにほかの札の検査が残っていない走行では、送られるどの変更も、最後に認められた札で検査されている。 -/
theorem delivered_with_accepted_token (transport : Transport) (visible : Nat → Nat → Nat → Bool) (projectRef : JsString) (events : List WiredEvent)
    (hstale : Along (wiredStep transport visible) (NoStaleCheck visible) (.initial projectRef) events) :
    ∀ d ∈ (run (wiredStep transport visible) (.initial projectRef) events).delivered, d.Current :=
  (Along.invariant (I := Wired.Aligned visible) (fun _ e h hstale => h.step transport e hstale) hstale (Wired.aligned_initial projectRef)).delivered

def told (e : SessionEvent) : WiredEvent := .session (fun _ => 0) e

def subscribedRoom : List WiredEvent :=
  [told began, told (resolved .opened), told joinRoom, .subscribed 0 0 [] [], told (.startSettled 0), told (.readySettled 0 true),
    told (.upstreamMessage (.text (roomMessage .reply
      [(js "status", .string (js "ok")), (js "response", .object [(js "postgres_changes", ordersMapping (.number 7))])]))),
    told (.ackSettled 0)]

def rotationAsked : List WiredEvent := [told newToken, told (.refreshChecked 0)]

def rotationAccepted : WiredEvent := told (.refreshSettled 0 false)

def wiredRun (events : List WiredEvent) : Wired := run (wiredStep plainTransport fun _ _ _ => true) (.initial (js "p")) events

def keepsToken : WiredEvent → Bool
  | .session _ (.refreshSettled _ false) => false
  | _ => true

theorem noStaleCheck_of {visible w e} (h : keepsToken e = true) : NoStaleCheck visible w e := by
  cases e with
  | session count e =>
    cases e with
    | refreshSettled i rejected =>
      cases rejected with
      | false => cases h
      | true => trivial
    | _ => trivial
  | _ => trivial

theorem along_keepsToken {transport visible w events}
    (h : events.all keepsToken = true) : Along (wiredStep transport visible) (NoStaleCheck visible) w events := by
  rw [all_eq_true] at h
  refine along_iff.mpr fun before e after hsp => noStaleCheck_of (h e ?_)
  rw [hsp]
  exact mem_append_right _ mem_cons_self

theorem delivered_with_accepted_token_rotated : ¬ ∃ d ∈ (wiredRun ((subscribedRoom ++ rotationAsked) ++ rotationAccepted ::
      [.service (.deliver [ordersChange]), .service (.start 0), .service (.resolve 0)])).delivered, ¬ d.Current := by
  have htas : (wiredRun (subscribedRoom ++ rotationAsked)).tenant.tasks = [] := by decide
  have hstale : NoStaleCheck (fun _ _ _ => true) (wiredRun (subscribedRoom ++ rotationAsked)) rotationAccepted := by
    intro _ _ _ _ _ _ _ _ k task scan hta
    rw [htas] at hta
    cases hta
  have hkes : Along (wiredStep plainTransport fun _ _ _ => true) (NoStaleCheck fun _ _ _ => true) (Wired.initial (js "p"))
      ((subscribedRoom ++ rotationAsked) ++ rotationAccepted ::
        [.service (.deliver [ordersChange]), .service (.start 0), .service (.resolve 0)]) :=
    Along.append.mpr ⟨along_keepsToken (by decide), hstale, along_keepsToken (by decide)⟩
  rintro ⟨d, hd, hre⟩
  exact hre (delivered_with_accepted_token plainTransport (fun _ _ _ => true) (js "p") _ hkes d hd)

/-- 札が新しくなる前に始まった検査が、後で終わる。 -/
theorem delivered_with_replaced_token :
    ¬ ∀ d ∈ (wiredRun (subscribedRoom ++ [.service (.deliver [ordersChange]), .service (.start 0)] ++ rotationAsked ++
      [rotationAccepted, .service (.resolve 0)])).delivered, d.Current := by
  have hde : (wiredRun (subscribedRoom ++ [.service (.deliver [ordersChange]), .service (.start 0)] ++ rotationAsked ++
      [rotationAccepted, .service (.resolve 0)])).delivered = [{ checked := some (js "up"), accepted := some (js "new") }] := by decide
  rw [hde]
  intro h
  have hcu := h _ (mem_singleton_self _) (js "new") rfl
  exact absurd hcu (by decide)

/-- どの走行でも、出た出来事は、届いた変更をそのまま運び、出すときに登録のある購読状態に、変更ごとに高々一度だけ渡る。 -/
theorem native_faithful (filters : Filters) (visible : Nat → Nat → Nat → Bool) (projectRef : JsString) (events : List ServiceEvent) :
    Logged (run (step filters visible) (.empty projectRef) events) :=
  (run_invariant (I := Inv visible) (fun _ e hw => step_inv hw e) (inv_empty projectRef)).logged

/-- 呼び出しを待つ間も、接続の持つ購読は、今のチャネルか、始めている途中の呼び出しの、ちょうど一つが持つ。 -/
theorem subscriptions_held (transports : Nat → Transport) (events : List ProxyEvent) :
    let p := run (proxyStep transports) .initial events
    (∀ s ∈ p.sessions, s.owned.Nodup ∧ ∀ id, id ∈ s.owned ↔ ∃ holder, s.Holds holder id) ∧
      ∀ s ∈ p.sessions, ∀ holder holder' id, s.Holds holder id → s.Holds holder' id → holder = holder' := by
  intro p
  have hba : Balanced p := balanced_run transports events
  exact ⟨fun s hs => ⟨(hba.placed s hs).sound.owned_nodup, (hba.placed s hs).sound.owned⟩, fun s hs => (hba.placed s hs).sound.single⟩

end Supacloud.RealtimeProxy
