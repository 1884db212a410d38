import Supacloud.Library.Table
import Supacloud.RealtimeProxy.Session

/-! # 接続の一歩を作る動き -/

namespace Supacloud.RealtimeProxy

open Contracts (JsString)

open Vectors (js)

open Library

abbrev Channel.renewed (channel : Channel) (refresh : Refresh) : Channel := { channel with token := refresh.token, refreshing := false }

namespace Session

variable {transport : Transport} {s s' : Session} {topic : JsString} {channel channel' : Channel} {frame : Frame} {message : PhoenixMessage}

def core (s : Session) :=
  (s.closed, s.projectRef, s.channels, s.starts, s.refreshes, s.generations, s.owned, s.lastId, s.listeners, s.acknowledged, s.acks, s.sent)

def queue (s : Session) := (s.opening, s.upstream, s.buffered, s.early, s.replay, s.arrivals, s.forwarded)

structure Update (s : Session) (topic : JsString) (channel channel' : Channel) : Prop where
  current : s.channel topic = some channel
  generation : channel'.generation = channel.generation
  join : channel'.join = channel.join
  nativeId : channel'.nativeId = channel.nativeId
  native : channel'.native = channel.native
  version : channel'.refreshVersion = channel.refreshVersion ∨ (channel.refreshVersion < channel'.refreshVersion ∧ channel'.refreshing = true)
  joined : channel'.joined = true → channel.joined = true ∨ channel.generation ∈ s.acknowledged
  refreshing : channel'.refreshing = false → channel.refreshing = false ∨
    ∀ r ∈ s.refreshes, r.generation = channel.generation → r.version ≠ channel.refreshVersion

structure Plain (channel channel' : Channel) : Prop where
  ready : channel'.ready = channel.ready
  refreshing : channel'.refreshing = channel.refreshing
  version : channel'.refreshVersion = channel.refreshVersion

structure Fresh (s : Session) (channel : Channel) : Prop where
  closed : s.closed = false
  bound : s.projectRef ≠ none
  topic : s.channel channel.join.topic = none
  generation : channel.generation = s.generations
  nativeId : channel.nativeId = none
  joined : channel.joined = false
  ready : channel.native = true → channel.ready ≠ some true

def Tame (s s' : Session) : Prop := ∀ id token, BackendCall.updateToken id token ∈ s'.backend → BackendCall.updateToken id token ∈ s.backend

def Deliverable (s : Session) (frame : Frame) : Prop :=
  frame.isChange → s.closed = false → ∃ channel, s.channel (frameTopic frame) = some channel ∧ channel.joined = true ∧ channel.refreshing = false

inductive Move (transport : Transport) (s : Session) : Session → Prop where
  | tweak {s' : Session} (hcore : s'.core = s.core) (hqueue : s'.queue = s.queue) (hcounting : s'.counting = s.counting) (htame : Tame s s') :
      Move transport s s'
  | close : Move transport s s.close
  | forward (frame : Frame) (topic : Option JsString) (hstamp : frame.stamp = none) : Move transport s (s.forward transport frame topic)
  | sendFrame (frame : Frame) (hopen : s.Deliverable frame) : Move transport s (s.sendFrame transport frame)
  | remove (topic : JsString) : Move transport s (s.removeChannel topic)
  | drop (topic : JsString) : Move transport s (s.dropBuffered topic)
  | update (topic : JsString) (channel channel' : Channel) (h : s.Update topic channel channel') (hplain : Plain channel channel') :
      Move transport s (s.setChannel topic channel')
  | ready (topic : JsString) (channel : Channel) (ok : Bool) (h : s.channel topic = some channel)
      (hok : ok = true → ∃ start ∈ s.starts, start.generation = channel.generation ∧ start.stage = .settled true) :
      Move transport s (s.setChannel topic { channel with ready := some ok })
  | add (channel : Channel) (h : s.Fresh channel) : Move transport s (s.addChannel channel)
  | resolve (i : Nat) (start : Start) (h : s.starts[i]? = some start) :
      Move transport s { s with starts := s.starts.set i { start with resolved := true } }
  | deny (i : Nat) (refresh : Refresh) (h : s.refreshes[i]? = some refresh) :
      Move transport s { s with refreshes := s.refreshes.set i { refresh with allowed := some false } }
  | settle (i : Nat) : Move transport s { s with refreshes := s.refreshes.eraseIdx i }
  | acknowledge (generation : Nat) : Move transport s { s with acknowledged := generation :: s.acknowledged }
  | awaitAck (ack : Ack) (h : ack.generation ∈ s.acknowledged) : Move transport s { s with acks := s.acks ++ [ack] }
  | dropAck (i : Nat) : Move transport s { s with acks := s.acks.eraseIdx i }

abbrev Path (transport : Transport) : Session → Session → Prop := Relation.ReflTransGen (Move transport)

theorem Move.path (h : Move transport s s') : Path transport s s' := .single h

theorem path_tweak (hcore : s'.core = s.core) (hqueue : s'.queue = s.queue) (hcounting : s'.counting = s.counting) (htame : Tame s s') :
    Path transport s s' := (Move.tweak hcore hqueue hcounting htame).path

/-! ## 送信と失敗 -/

theorem path_send (h : message.event ≠ .postgresChanges) : Path transport s (s.send transport message) :=
  (Move.sendFrame (.text message none) fun hcha => absurd hcha h).path

theorem path_reply {ok reason} : Path transport s (s.reply transport message ok reason) :=
  path_send (by simp)

theorem path_leave {topic} : Path transport s (s.forward transport (leaveFrame message) topic) :=
  (Move.forward _ _ rfl).path

theorem current_some (h : s.current topic n = some channel) : s.closed = false ∧ s.channel topic = some channel ∧ channel.generation = n := by
  unfold current at h
  split at h
  · cases h
  · rename_i hcl
    rw [Option.filter_eq_some_iff] at h
    exact ⟨by simpa using hcl, h.1, by simpa using h.2⟩

theorem path_update (h : s.Update topic channel channel') (hplain : Plain channel channel') : Path transport s (s.setChannel topic channel') :=
  (Move.update _ _ _ h hplain).path

theorem path_ite {c} [Decidable c] {a b} (ha : Path transport s a) (hb : Path transport s b) : Path transport s (if c then a else b) := by
  split
  · exact ha
  · exact hb

theorem path_failChannel {reason} : Path transport s (s.failChannel transport channel reason) := by
  unfold failChannel
  split
  · exact .refl
  · rename_i found hfn
    have hre : Path transport s (s.removeChannel found.join.topic) := (Move.remove _).path
    have hsn : Path transport s (if found.joined then
        (s.removeChannel found.join.topic).send transport
          { found.join with ref := none, event := .error, payload := [(js "reason", .string (js reason))] }
        else (s.removeChannel found.join.topic).reply transport found.join false (some reason)) :=
      path_ite (hre.trans (path_send (by simp))) (hre.trans path_reply)
    have hdr := hsn.trans (Move.drop found.join.topic).path
    exact path_ite (hdr.trans path_leave) hdr

theorem path_rejectJoin {reason} : Path transport s (s.rejectJoin transport channel reason) := by
  have hre : Path transport s (s.removeChannel channel.join.topic) := (Move.remove _).path
  exact (hre.trans path_reply).trans path_leave

/-! ## 取り外しと終わり -/

theorem removeChannel_eq (s : Session) (topic) : ∃ listeners owned backend,
    s.removeChannel topic = { s with channels := s.channels.filter fun entry => entry.1 ≠ topic, listeners, owned, backend } := by
  unfold removeChannel
  split
  · rename_i hno
    refine ⟨s.listeners, s.owned, s.backend, ?_⟩
    have hfl : (s.channels.filter fun entry => entry.1 ≠ topic) = s.channels := by
      rw [List.filter_eq_self]
      intro entry hen
      refine decide_eq_true fun heq => ?_
      exact lookup_eq_none_iff.mp hno entry.2 (heq ▸ hen)
    rw [hfl]
  · unfold release
    split
    · exact ⟨_, _, _, rfl⟩
    · exact ⟨_, _, _, rfl⟩

theorem removeAll_eq (s) (topics : List JsString) : ∃ listeners owned backend,
    topics.foldl removeChannel s = { s with channels := s.channels.filter fun entry => entry.1 ∉ topics, listeners, owned, backend } := by
  induction topics generalizing s with
  | nil => exact ⟨s.listeners, s.owned, s.backend, by simp⟩
  | cons topic topics ih =>
    obtain ⟨listeners, owned, backend, hfi⟩ := removeChannel_eq s topic
    obtain ⟨listeners', owned', backend', hrst⟩ := ih (s.removeChannel topic)
    refine ⟨listeners', owned', backend', ?_⟩
    rw [List.foldl_cons, hrst, hfi]
    simp [Bool.and_comm]

theorem close_eq (h : s.closed = false) : ∃ listeners owned backend, s.close = { s with
      closed := true, connectionTimer := false, channels := [], listeners, owned, backend, buffered := [], early := []
      counting := s.counting ++ (s.projectRef.map CountCall.release).toList } := by
  obtain ⟨listeners, owned, backend, hall⟩ := removeAll_eq { s with closed := true, connectionTimer := false } (s.channels.map (·.1))
  refine ⟨listeners, owned, backend, ?_⟩
  have hno : (s.channels.filter fun entry => entry.1 ∉ s.channels.map (·.1)) = [] := by
    rw [List.filter_eq_nil_iff]
    intro entry hen
    simpa using ⟨entry.2, hen⟩
  unfold close
  simp only [h, Bool.false_eq_true, if_false, hall, hno]
  split
  · rename_i href
    simp [href]
  · rename_i ref href
    simp [href]

abbrev renewed (s : Session) (i : Nat) (refresh : Refresh) (channel : Channel) : Session :=
  setChannel { s with refreshes := s.refreshes.eraseIdx i } refresh.message.topic (channel.renewed refresh)

abbrev adopted (s : Session) (i id : Nat) (start : Start) (channel : Channel) : Session :=
  { s.setChannel start.topic { channel with nativeId := some id } with
    starts := s.starts.set i { start with stage := .settled true }, listeners := s.listeners ++ [(id, start.topic, start.generation)] }

abbrev counted (s : Session) (params : Params) (ref apiKey : JsString) (n : Nat) : Session :=
  { s with
    opening := .done, projectRef := some ref, apiKey, presentedApiKey := params.apiKey
    counting := s.counting ++ [CountCall.set ref (n + 1)], connectionTimer := true }

theorem close_of_closed (h : s.closed = true) : s.close = s := by
  rw [close, if_pos h]

theorem close_closed : s.close.closed = true := by
  cases h : s.closed with
  | true => rw [close_of_closed h, h]
  | false =>
    obtain ⟨_, _, _, heq⟩ := close_eq h
    rw [heq]

theorem sendFrame_cases (transport) (s : Session) (frame) : (∃ n, s.sendFrame transport frame = close { s with calls := n }) ∨
      (s.closed = false ∧ s.sendFrame transport frame =
        { s with calls := s.calls + 1, sent := s.sent ++ [{ frame, standing := s.standing (frameTopic frame) }] }) := by
  unfold sendFrame
  by_cases hcl : s.closed = true
  · rw [if_pos hcl]
    exact .inl ⟨s.calls, (close_of_closed hcl).symm⟩
  · rw [if_neg hcl]
    split
    · exact .inl ⟨s.calls, rfl⟩
    · split
      · exact .inl ⟨s.calls + 1, rfl⟩
      · exact .inr ⟨by simpa using hcl, rfl⟩

theorem forward_cases (transport) (s : Session) (frame topic) : (∃ n, s.forward transport frame topic = close { s with calls := n }) ∨
      (s.closed = false ∧ s.upstream = some .opened ∧
        s.forward transport frame topic = { s with calls := s.calls + 1, forwarded := s.forwarded ++ [frame] }) ∨
      (s.closed = false ∧ s.upstream = some .connecting ∧ s.forward transport frame topic = { s with buffered := s.buffered ++ [(frame, topic)] }) ∨
      (s.closed = false ∧ s.forward transport frame topic = s) := by
  unfold forward
  by_cases hcl : s.closed = true
  · rw [if_pos hcl]
    exact .inl ⟨s.calls, (close_of_closed hcl).symm⟩
  · rw [if_neg hcl]
    have hopen : s.closed = false := by simpa using hcl
    split
    · exact .inl ⟨s.calls, rfl⟩
    · split
      · grind
      · rename_i hup
        split
        · exact .inl ⟨s.calls, rfl⟩
        · exact .inr (.inr (.inl ⟨hopen, hup, rfl⟩))
      · exact .inr (.inr (.inr ⟨hopen, rfl⟩))

/-! ## 上流のフレーム -/

def Delivers (s : Session) (topic : JsString) : Prop :=
  s.closed = false → ∃ channel, s.channel topic = some channel ∧ channel.joined = true ∧ channel.refreshing = false

theorem Delivers.sendFrame (h : s.Delivers topic) : (s.sendFrame transport frame).Delivers topic := by
  intro hcl
  rcases sendFrame_cases transport s frame with ⟨n, heq⟩ | ⟨hopen, heq⟩
  · rw [heq, close_closed] at hcl
    cases hcl
  · rw [heq]
    exact h hopen

theorem path_changes (events : List ChangeEvent) (payload : ChangeEvent → Payload) (h : s.Delivers message.topic) :
    Path transport s (events.foldl (fun s event => s.send transport { message with payload := payload event }) s) := by
  induction events generalizing s with
  | nil => exact .refl
  | cons event events ih =>
    have hfi : Path transport s (s.send transport { message with payload := payload event }) :=
      (Move.sendFrame (.text { message with payload := payload event } none) fun _ => h).path
    exact hfi.trans (ih h.sendFrame)

theorem path_upstreamChange (hch : s.channel message.topic = some channel) : Path transport s (s.upstreamChange transport message channel) := by
  unfold upstreamChange
  by_cases hrd : (!channel.joined || channel.refreshing) = true
  · rw [if_pos hrd]
  · rw [if_neg hrd]
    have hdes : s.Delivers message.topic := by
      intro _
      refine ⟨channel, hch, ?_⟩
      simpa using hrd
    refine path_ite .refl ?_
    dsimp only
    split
    · split
      · refine path_ite .refl ?_
        exact path_changes _ eventPayload hdes
      · exact Move.close.path
    · exact Move.close.path

theorem path_upstreamReply (hch : s.channel message.topic = some channel) (hev : message.event ≠ .postgresChanges) :
    Path transport s (s.upstreamReply transport message channel) := by
  unfold upstreamReply
  split
  · exact (Move.remove _).path.trans (path_send hev)
  · have hag : Path transport s { s with acknowledged := channel.generation :: s.acknowledged } := (Move.acknowledge _).path
    dsimp only
    split
    · have haw : Path transport { s with acknowledged := channel.generation :: s.acknowledged }
          { s with acknowledged := channel.generation :: s.acknowledged, acks := s.acks ++ [{ generation := channel.generation, message }] } :=
        (Move.awaitAck _ List.mem_cons_self).path
      exact hag.trans haw
    · have hupd : Update { s with acknowledged := channel.generation :: s.acknowledged } message.topic channel
          { channel with joined := true, joinTimer := false } :=
        ⟨hch, rfl, rfl, rfl, rfl, .inl rfl, fun _ => .inr List.mem_cons_self, fun h => .inl h⟩
      exact (hag.trans (path_update hupd ⟨rfl, rfl, rfl⟩)).trans (path_send hev)

theorem path_receiveText : Path transport s (s.receiveText transport message) := by
  unfold receiveText
  dsimp only
  split
  · exact .refl
  · split
    · exact .refl
    · rename_i channel _ hch
      exact path_upstreamChange hch
    · grind [path_upstreamReply, path_send]
    · rename_i channel hev hch
      exact path_ite .refl ((Move.remove _).path.trans (path_send (by rw [hev]; simp)))
    · rename_i channel hev hch
      exact path_ite .refl ((Move.remove _).path.trans (path_send (by rw [hev]; simp)))
    · rename_i hno hso _ _ _
      refine path_send fun hev => ?_
      cases hch : s.channel message.topic with
      | none => exact hno hev hch
      | some channel => exact hso channel hev hch

variable {raw : Raw}

theorem path_receiveUpstream : Path transport s (s.receiveUpstream transport raw) := by
  unfold receiveUpstream
  refine path_ite .refl ?_
  split
  · exact Move.close.path
  · exact path_ite Move.close.path (Move.sendFrame _ fun hcha => absurd hcha id).path
  · exact path_receiveText

/-! ## 待ちの続き -/

theorem path_ackSettled {i} (hacs : ∀ ack ∈ s.acks, ack.generation ∈ s.acknowledged) : Path transport s (s.ackSettled transport i) := by
  unfold ackSettled
  split
  · exact .refl
  · rename_i ack hack
    have hrst : Path transport s { s with acks := s.acks.eraseIdx i } := (Move.dropAck i).path
    dsimp only
    split
    · exact hrst
    · rename_i channel hcu
      split
      · exact .refl
      · exact hrst.trans path_rejectJoin
      · split
        · rename_i response bindings hres _
          refine path_ite (hrst.trans path_rejectJoin) ?_
          obtain ⟨_, hch, hge⟩ := current_some hcu
          have hac : channel.generation ∈ s.acknowledged := hge ▸ hacs ack (List.mem_of_getElem? hack)
          have hjo : ∀ rest, Path transport s rest → rest.channel ack.message.topic = some channel →
              channel.generation ∈ rest.acknowledged → Path transport s (rest.setChannel ack.message.topic
                { channel with bindings, serverIds := bindings.filterMap (·.id), joined := true, joinTimer := false }) := by
            intro rest hpa hcu hmem
            exact hpa.trans (path_update ⟨hcu, rfl, rfl, rfl, rfl, .inl rfl, fun _ => .inr hmem, fun h => .inl h⟩ ⟨rfl, rfl, rfl⟩)
          refine Relation.ReflTransGen.trans ?_ (path_send (by simp))
          split
          · refine hjo _ (hrst.trans (path_tweak rfl rfl rfl fun id token hca => ?_)) hch hac
            simpa using hca
          · exact hjo _ hrst hch hac
        · exact hrst.trans path_rejectJoin

theorem path_readySettled {i ok} : Path transport s (s.readySettled transport i ok) := by
  unfold readySettled
  split
  · exact .refl
  · rename_i start hst
    split
    · exact .refl
    · have hrs : Path transport s { s with starts := s.starts.set i { start with resolved := true } } := (Move.resolve i start hst).path
      dsimp only
      split
      · exact hrs
      · rename_i hdo _ channel hcu
        obtain ⟨_, hch, hge⟩ := current_some hcu
        have hrd : Path transport s
            (setChannel { s with starts := s.starts.set i { start with resolved := true } } start.topic { channel with ready := some ok }) := by
          refine hrs.trans (Move.ready _ channel ok hch fun hok => ?_).path
          obtain ⟨_, hse⟩ := not_or.mp hdo
          have hsta : start.stage = .settled true := by
            by_contra hne
            exact hse ⟨hok, hne⟩
          have hlt := (List.getElem?_eq_some_iff.mp hst).1
          exact ⟨{ start with resolved := true }, List.mem_set hlt _, hge.symm, hsta⟩
        exact path_ite hrd (hrd.trans path_failChannel)

theorem refreshChecked_cases (transport s i) : Path transport s (s.refreshChecked i) ∨
      ∃ refresh channel, s.refreshes[i]? = some refresh ∧ s.current refresh.message.topic refresh.generation = some channel ∧
        channel.ready = some true ∧ channel.refreshVersion = refresh.version ∧
        ((channel.nativeId = none ∧ s.refreshChecked i = { s with refreshes := s.refreshes.set i { refresh with allowed := some true } }) ∨
          ∃ id, channel.nativeId = some id ∧ s.refreshChecked i = { s with
              backend := s.backend ++ [.updateToken id refresh.token], refreshes := s.refreshes.set i { refresh with allowed := some true } }) := by
  unfold refreshChecked
  split
  · exact .inl .refl
  · rename_i refresh hrf
    have hde : Path transport s { s with refreshes := s.refreshes.set i { refresh with allowed := some false } } := (Move.deny i refresh hrf).path
    split
    · exact .inl .refl
    · dsimp only
      split
      · exact .inl hde
      · rename_i channel hcu
        split
        · exact .inl .refl
        · grind

theorem refreshSettled_cases (transport s i rejected) : Path transport s (s.refreshSettled transport i rejected) ∨
      ∃ refresh channel, s.refreshes[i]? = some refresh ∧ s.current refresh.message.topic refresh.generation = some channel ∧
        channel.refreshVersion = refresh.version ∧ rejected = false ∧ refresh.allowed = some true ∧
        s.refreshSettled transport i rejected =
          (s.renewed i refresh channel).forward transport (.text refresh.message (some refresh.stamp)) (some refresh.message.topic) := by
  unfold refreshSettled
  split
  · exact .inl .refl
  · rename_i refresh hrf
    have hrst : Path transport s { s with refreshes := s.refreshes.eraseIdx i } := (Move.settle i).path
    dsimp only
    split
    · exact .inl (path_ite hrst .refl)
    · rename_i channel hcu
      split
      · exact .inl (path_ite (hrst.trans path_failChannel) hrst)
      · rename_i hrj
        split
        · exact .inl .refl
        · rename_i allowed hal
          split
          · exact .inl hrst
          · rename_i hve
            split
            · refine .inl ?_
              have hre := hrst.trans (Move.remove refresh.message.topic).path
              exact (hre.trans (path_send (by simp))).trans path_leave
            · grind

theorem path_nativeEvent {id event} (htos : ∀ entry ∈ s.channels, entry.2.join.topic = entry.1) : Path transport s (s.nativeEvent transport id event) := by
  unfold nativeEvent
  split
  · exact .refl
  · split
    · exact .refl
    · rename_i channel hcu
      split
      · rename_i hopen
        obtain ⟨_, hch, _⟩ := current_some hcu
        have hto := htos _ (mem_of_lookup hch)
        refine (Move.sendFrame _ fun _ _ => ⟨channel, ?_, hopen.2.1, by simpa using hopen.2.2⟩).path
        show s.channel channel.join.topic = some channel
        rw [hto]
        exact hch
      · exact .refl

theorem path_joinTimeout : Path transport s (s.joinTimeout transport topic) := by
  unfold joinTimeout
  split
  · exact .refl
  · exact path_ite path_failChannel .refl

theorem path_connectTimeout : Path transport s s.connectTimeout := path_ite Move.close.path .refl

/-! ## クライアントのフレーム -/

inductive Handled (transport : Transport) (s : Session) (message : PhoenixMessage) (stamp : Stamp) (replaying : Bool) : Session → Prop where
  | moved {s' : Session} (h : Path transport s s') : Handled transport s message stamp replaying s'
  | sent (mid : Session) (h : Path transport s mid) (hpasses : s.passes transport message = true)
      (hmid : (mid = s ∧ message.event ≠ .join ∧ message.event ≠ .leave) ∨ ∀ c, mid.channel message.topic = some c → c.generation = s.generations) :
      Handled transport s message stamp replaying (mid.forward transport (.text message (some stamp)) (some message.topic))
  | awaited (c : Channel) (token : JsString) (hc : s.channel message.topic = some c) :
      Handled transport s message stamp replaying (s.awaitRefresh c message token stamp replaying)

variable {stamp : Stamp} {replaying : Bool}

theorem channel_remove_self : (s.removeChannel topic).channel topic = none := by
  obtain ⟨_, _, _, heq⟩ := removeChannel_eq s topic
  rw [heq]
  refine lookup_eq_none_iff.mpr fun v hv => ?_
  simp at hv

theorem handled_leave (hev : message.event = .leave) : Handled transport s message stamp replaying (s.handleLeave transport message stamp) := by
  have hre : Path transport s (s.removeChannel message.topic) := (Move.remove _).path
  obtain ⟨_, _, _, heq⟩ := removeChannel_eq s message.topic
  have hup : (s.removeChannel message.topic).upstream = s.upstream := by rw [heq]
  unfold handleLeave
  dsimp only
  split
  · exact .moved ((hre.trans (Move.drop _).path).trans path_reply)
  · rename_i hopen
    rw [hup, not_not] at hopen
    refine .sent _ hre ?_ (.inr fun c hc => ?_)
    · rw [passes, hev, hopen]
      rfl
    · rw [channel_remove_self] at hc
      cases hc

theorem handled_join (hcl : s.closed = false) (hbo : s.projectRef ≠ none) (hev : message.event = .join) :
    Handled transport s message stamp replaying (s.handleJoin transport message stamp) := by
  unfold handleJoin
  split
  · exact .moved path_reply
  · rename_i changes token hrq
    have hre : Path transport s (s.removeChannel message.topic) := (Move.remove _).path
    obtain ⟨_, _, _, heq⟩ := removeChannel_eq s message.topic
    have hclR : (s.removeChannel message.topic).closed = false := by rw [heq]; exact hcl
    have hboR : (s.removeChannel message.topic).projectRef ≠ none := by rw [heq]; exact hbo
    have hges : (s.removeChannel message.topic).generations = s.generations := by rw [heq]
    have hadd : ∀ mid, Path transport s mid → mid.closed = false → mid.projectRef ≠ none → mid.channel message.topic = none →
        mid.generations = s.generations → Handled transport s message stamp replaying
            ((mid.addChannel (mid.newChannel transport message changes token)).forward transport (.text message (some stamp)) (some message.topic)) := by
      intro mid hpa hmiC hmiB hno hmiG
      have hfr : mid.Fresh (mid.newChannel transport message changes token) := by
        refine ⟨hmiC, hmiB, hno, rfl, rfl, rfl, fun hna => ?_⟩
        simp only [newChannel] at hna ⊢
        rw [hna]
        simp
      refine .sent _ (hpa.trans (Move.add _ hfr).path) ?_ (.inr fun c hc => ?_)
      · rw [passes, hev]
        simp only [hrq]
        rfl
      · have hlo : (mid.channels ++ [(message.topic, mid.newChannel transport message changes token)]).lookup message.topic = some c := hc
        have hem : mid.channels.lookup message.topic = none := hno
        rw [List.lookup_append, hem] at hlo
        simp only [Option.none_or, List.lookup_cons, beq_self_eq_true, Option.some.injEq] at hlo
        rw [← hlo]
        exact hmiG
    dsimp only
    split
    · exact hadd _ (hre.trans (Move.drop _).path) hclR hboR channel_remove_self hges
    · exact hadd _ hre hclR hboR channel_remove_self hges

theorem handled_accessToken : Handled transport s message stamp replaying (s.handleAccessToken transport message stamp replaying) := by
  unfold handleAccessToken
  split
  · exact .moved path_reply
  · exact .moved (((Move.remove _).path.trans path_leave).trans path_reply)
  · rename_i channel token hch _
    exact .awaited channel token hch

theorem handled_text {received} (hcl : s.closed = false) (hbo : s.projectRef ≠ none) :
    Handled transport s (s.translate received) stamp replaying (s.handleFrame transport (.text received) stamp replaying) := by
  unfold handleFrame
  dsimp only
  split
  · exact .moved Move.close.path
  · split
    · rename_i hev
      split
      · exact .moved path_reply
      · rename_i hopen
        refine .sent s .refl ?_ (.inl ⟨rfl, by rw [hev]; simp, by rw [hev]; simp⟩)
        rw [passes, hev, not_not.mp hopen]
        rfl
    · exact handled_leave (by assumption)
    · exact handled_join hcl hbo (by assumption)
    · exact handled_accessToken
    · rename_i hhe hle hjo htk
      refine .sent s .refl ?_ (.inl ⟨rfl, hjo, hle⟩)
      unfold passes
      split
      · exact absurd ‹_› hhe
      · exact absurd ‹_› hle
      · exact absurd ‹_› hjo
      · exact absurd ‹_› htk
      · rfl

theorem path_binary {bytes} : Path transport s (s.handleFrame transport (.binary bytes) stamp replaying) := by
  unfold handleFrame
  exact path_ite Move.close.path (path_ite Move.close.path (Move.forward _ _ rfl).path)

/-! ## 一歩の道筋 -/

inductive Act (transport : Transport) (s : Session) : Session → Prop where
  | move {s' : Session} (h : Move transport s s') : Act transport s s'
  | forward (frame : Frame) (topic : Option JsString) : Act transport s (s.forward transport frame topic)
  | awaitRefresh (c : Channel) (message : PhoenixMessage) (token : JsString) (stamp : Stamp) (replaying : Bool)
      (hc : s.channel message.topic = some c) : Act transport s (s.awaitRefresh c message token stamp replaying)
  | queue {s' : Session} (hcore : s'.core = s.core) (hopening : s'.opening = s.opening) (hreplay : s'.replay <:+ s.replay)
      (hcounting : s'.counting = s.counting) (hbackend : s'.backend = s.backend) : Act transport s s'

abbrev Route (transport : Transport) : Session → Session → Prop := Relation.ReflTransGen (Act transport)

theorem Move.route (h : Move transport s s') : Route transport s s' := .single (.move h)

theorem route_path (h : Path transport s s') : Route transport s s' := by
  induction h with
  | refl => exact .refl
  | tail _ hmo ih => exact ih.tail (.move hmo)

theorem route_forward {topic} : Route transport s (s.forward transport frame topic) := .single (.forward frame topic)

theorem route_queue (hcore : s'.core = s.core) (hopening : s'.opening = s.opening) (hreplay : s'.replay <:+ s.replay)
    (hcounting : s'.counting = s.counting) (hbackend : s'.backend = s.backend) : Route transport s s' :=
  .single (.queue hcore hopening hreplay hcounting hbackend)

theorem Handled.route (h : Handled transport s message stamp replaying s') : Route transport s s' := by
  cases h with
  | moved h => exact route_path h
  | sent mid h => exact (route_path h).trans route_forward
  | awaited c token hc => exact .single (.awaitRefresh c message token stamp replaying hc)

theorem route_handleFrame (hcl : s.closed = false) (hbo : s.projectRef ≠ none) :
    Route transport s (s.handleFrame transport raw stamp replaying) := by
  cases raw with
  | invalid => exact Move.close.route
  | binary bytes => exact route_path path_binary
  | text received => exact (handled_text hcl hbo).route

theorem route_queueEarly : Route transport s (s.queueEarly transport frame) := by
  unfold queueEarly
  dsimp only
  split
  · exact Move.close.route
  · exact route_queue rfl rfl List.suffix_rfl rfl rfl

theorem route_message : Route transport s (s.message transport raw) := by
  unfold Session.message
  split
  · exact .refl
  · rename_i hopen
    have hcl : s.closed = false := by simpa using hopen
    have hco : Route transport s { s with arrivals := s.arrivals + 1 } := route_queue rfl rfl List.suffix_rfl rfl rfl
    dsimp only
    split
    · rename_i ref href
      exact hco.trans (route_handleFrame hcl (by rw [href]; simp))
    · split
      · exact hco.trans Move.close.route
      · exact hco.trans route_queueEarly
      · exact hco.trans route_queueEarly

theorem route_replayNext (hbo : s.replay ≠ [] → s.projectRef ≠ none) : Route transport s (s.replayNext transport) := by
  unfold replayNext
  split
  · exact .refl
  · rename_i frame rest hreplay
    have hnx : Route transport s { s with replay := rest } := route_queue rfl rfl ⟨[frame], hreplay.symm⟩ rfl rfl
    split
    · exact .refl
    · split
      · exact hnx
      · rename_i hopen
        exact hnx.trans (route_handleFrame (by simpa using hopen) (hbo (by rw [hreplay]; simp)))

theorem route_flush : Route transport s (s.flush transport) := by
  have hfo : ∀ (entries : List (Frame × Option JsString)) (s),
      Route transport s (entries.foldl (fun s entry => s.forward transport entry.1 entry.2) s) := by
    intro entries
    induction entries with
    | nil => exact fun _ => .refl
    | cons entry entries ih => exact fun s => route_forward.trans (ih _)
  have hem : Route transport s { s with buffered := [] } := route_queue rfl rfl List.suffix_rfl rfl rfl
  exact hem.trans (hfo s.buffered _)

theorem route_upstreamOpen : Route transport s (s.upstreamOpen transport) := by
  unfold upstreamOpen
  split
  · have hopen : Route transport s { s with upstream := some .opened, connectionTimer := false } := route_queue rfl rfl List.suffix_rfl rfl rfl
    exact hopen.trans route_flush
  · exact .refl

theorem route_upstreamEnding {readyState} : Route transport s (s.upstreamEnding readyState) := by
  unfold upstreamEnding
  split
  · exact route_queue rfl rfl List.suffix_rfl rfl rfl
  · exact route_queue rfl rfl List.suffix_rfl rfl rfl
  · exact .refl

end Session

end Supacloud.RealtimeProxy
