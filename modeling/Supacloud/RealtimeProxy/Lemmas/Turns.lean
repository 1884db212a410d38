import Supacloud.RealtimeProxy.Lemmas.Accounts

/-!
# クライアントの順

上流に送ったフレームと、ためてあるフレームの番号の列は、話題ごとに増える。
-/

namespace Supacloud.RealtimeProxy

open Contracts (JsString)

open Library List

def Frame.seq (frame : Frame) : Option Nat := frame.stamp.map Stamp.seq

theorem Frame.seqOn_some {frame : Frame} {topic n} (h : frame.seqOn topic = some n) :
    ∃ message stamp, frame = .text message (some stamp) ∧ message.topic = topic ∧ stamp.seq = n := by
  unfold seqOn at h
  split at h
  · grind
  · cases h

theorem Frame.seq_of_seqOn {frame : Frame} {topic n} (h : frame.seqOn topic = some n) : frame.seq = some n := by
  obtain ⟨message, stamp, rfl, _, rfl⟩ := seqOn_some h
  rfl

namespace Session

variable {transport : Transport} {s s' s'' : Session} {topic : JsString} {c channel channel' : Channel} {frame : Frame}
  {message : PhoenixMessage}
  {stamp : Stamp} {replaying : Bool}

def lane (s : Session) (topic : JsString) : List Nat := (s.forwarded ++ s.buffered.map Prod.fst).filterMap (Frame.seqOn topic)

structure Fades (s s' : Session) : Prop where
  upstream : s'.upstream = s.upstream
  buffered : s.upstream ≠ some .connecting → s'.buffered.Sublist s.buffered
  lane : ∀ topic, (s'.lane topic).Sublist (s.lane topic)
  replay : s'.replay = s.replay
  early : s'.early.Sublist s.early
  arrivals : s'.arrivals = s.arrivals
  refreshes : ∀ r' ∈ s'.refreshes, ∃ r ∈ s.refreshes, r.stamp = r'.stamp ∧ r.message.topic = r'.message.topic ∧
      r.generation = r'.generation ∧
    (s'.Live r' → s.Live r)

theorem Fades.refl : Fades s s :=
  ⟨rfl, fun _ => List.Sublist.refl _, fun _ => List.Sublist.refl _, rfl, List.Sublist.refl _, rfl,
    fun r hr => ⟨r, hr, rfl, rfl, rfl, id⟩⟩

theorem Fades.trans (h : Fades s s') (h' : Fades s' s'') : Fades s s'' := by
  refine ⟨h'.upstream.trans h.upstream, fun hne => (h'.buffered (h.upstream ▸ hne)).trans (h.buffered hne),
    fun topic => (h'.lane topic).trans (h.lane topic), h'.replay.trans h.replay, h'.early.trans h.early,
        h'.arrivals.trans h.arrivals, ?_⟩
  intro r'' hr''
  obtain ⟨r', hr', hst', hto', hge', hli'⟩ := h'.refreshes r'' hr''
  obtain ⟨r, hr, hsta, hto, hge, hliv⟩ := h.refreshes r' hr'
  exact ⟨r, hr, hsta.trans hst', hto.trans hto', hge.trans hge', fun h => hliv (hli' h)⟩

theorem lane_sublist (hfo : s'.forwarded = s.forwarded) (hbu : s'.buffered.Sublist s.buffered) (topic) :
    (s'.lane topic).Sublist (s.lane topic) := by
  unfold lane
  rw [hfo]
  exact ((List.Sublist.refl _).append (hbu.map _)).filterMap _

def Older (s s' : Session) : Prop :=
  ∀ topic c', s'.channel topic = some c' → ∃ c, s.channel topic = some c ∧ c.generation = c'.generation ∧
      c.refreshVersion = c'.refreshVersion

theorem Older.live {r r'} (h : Older s s') (hto : r.message.topic = r'.message.topic) (hge : r.generation = r'.generation)
    (hvr : r.version = r'.version) (hliv : s'.Live r') : s.Live r := by
  obtain ⟨c', hc', hge', hve'⟩ := hliv
  obtain ⟨c, hc, hg, hv⟩ := h _ c' hc'
  exact ⟨c, by rw [hto]; exact hc, by rw [hg, hge', hge], by rw [hv, hve', hvr]⟩

theorem older_of_channels (h : s'.channels = s.channels) : Older s s' := by
  intro topic c' hc'
  refine ⟨c', ?_, rfl, rfl⟩
  rw [channel, ← h]
  exact hc'

section

variable (hup : s'.upstream = s.upstream) (hfo : s'.forwarded = s.forwarded) (hbu : s'.buffered.Sublist s.buffered)
  (hrp : s'.replay = s.replay) (hea : s'.early.Sublist s.early) (hars : s'.arrivals = s.arrivals)
  (hres : s'.refreshes = s.refreshes)

include hup hfo hbu hrp hea hars hres

theorem fades_of (hliv : ∀ r ∈ s.refreshes, s'.Live r → s.Live r) : Fades s s' := by
  refine ⟨hup, fun _ => hbu, lane_sublist hfo hbu, hrp, hea, hars, fun r hr => ?_⟩
  rw [hres] at hr
  exact ⟨r, hr, rfl, rfl, rfl, hliv r hr⟩

theorem fades_older (holder : Older s s') : Fades s s' :=
  fades_of hup hfo hbu hrp hea hars hres fun _ _ => holder.live rfl rfl rfl

end

theorem fades_close : Fades s s.close := by
  cases hcl : s.closed with
  | true =>
    rw [close_of_closed hcl]
    exact .refl
  | false =>
    obtain ⟨_, _, _, heq⟩ := close_eq hcl
    rw [heq]
    exact fades_older rfl rfl (nil_sublist _) rfl (nil_sublist _) rfl rfl fun _ _ hc => (nomatch hc)

theorem fades_close_calls (n) : Fades s (close { s with calls := n }) := by
  have htw : Fades s { s with calls := n } :=
      fades_older rfl rfl (List.Sublist.refl _) rfl (List.Sublist.refl _) rfl rfl (older_of_channels rfl)
  exact htw.trans fades_close

theorem fades_remove (h : Sound s) : Fades s (s.removeChannel topic) := by
  have holder : Older s (s.removeChannel topic) := by
    intro topic' c' hc'
    rw [channel_remove h.keys] at hc'
    split at hc'
    · cases hc'
    · exact ⟨c', hc', rfl, rfl⟩
  obtain ⟨_, _, _, heq⟩ := removeChannel_eq s topic
  rw [heq] at holder ⊢
  exact fades_older rfl rfl (List.Sublist.refl _) rfl (List.Sublist.refl _) rfl rfl holder

theorem older_setChannel (hc : s.channel topic = some channel) (hge : channel'.generation = channel.generation)
    (hvr : channel'.refreshVersion = channel.refreshVersion) : Older s (s.setChannel topic channel') := by
  intro topic' c' hc'
  rw [channel_set hc] at hc'
  split at hc'
  · rename_i heq
    subst heq
    cases hc'
    exact ⟨channel, hc, hge.symm, hvr.symm⟩
  · exact ⟨c', hc', rfl, rfl⟩

theorem fades_update (h : Sound s) (hu : s.Update topic channel channel') : Fades s (s.setChannel topic channel') := by
  refine fades_of rfl rfl (List.Sublist.refl _) rfl (List.Sublist.refl _) rfl rfl fun r hr hliv => ?_
  rcases hu.version with hsa | ⟨hlt, _⟩
  · exact (older_setChannel hu.current hu.generation hsa).live rfl rfl rfl hliv
  · obtain ⟨c', hc', hge, hvr⟩ := hliv
    rw [channel_set hu.current] at hc'
    split at hc'
    · cases hc'
      have hle := (h.refreshing r hr topic channel hu.current (hu.generation.symm.trans hge)).1
      omega
    · exact ⟨c', hc', hge, hvr⟩

theorem fades_add (h : Sound s) (hf : s.Fresh channel) : Fades s (s.addChannel channel) := by
  refine fades_of rfl rfl (List.Sublist.refl _) rfl (List.Sublist.refl _) rfl rfl fun r hr hliv => ?_
  obtain ⟨c', hc', hge, hvr⟩ := hliv
  have hch : (s.addChannel channel).channel r.message.topic = if r.message.topic = channel.join.topic then some channel else
      s.channel r.message.topic :=
    lookup_concat_key h.keys hf.topic
  rw [hch] at hc'
  split at hc'
  · cases hc'
    have hlt := h.refresh_lt r hr
    rw [← hge, hf.generation] at hlt
    exact absurd hlt (Nat.lt_irrefl _)
  · exact ⟨c', hc', hge, hvr⟩

theorem fades_sendFrame : Fades s (s.sendFrame transport frame) := by
  rcases sendFrame_cases transport s frame with ⟨n, heq⟩ | ⟨_, heq⟩
  · rw [heq]
    exact fades_close_calls n
  · grind [fades_older, older_of_channels]

theorem seqOn_unstamped (h : frame.stamp = none) : frame.seqOn topic = none := by
  cases frame with
  | text message stamp =>
    cases h
    rfl
  | binary bytes => rfl

theorem fades_forward {topic} (hsta : frame.stamp = none) : Fades s (s.forward transport frame topic) := by
  have hno : ∀ topic', [frame].filterMap (Frame.seqOn topic') = [] := by
    intro topic'
    rw [filterMap_cons_none (seqOn_unstamped hsta), filterMap_nil]
  have hke : ∀ {s'}, s'.upstream = s.upstream → (s.upstream ≠ some .connecting → s'.buffered = s.buffered) →
      (∀ topic', s'.lane topic' = s.lane topic') → s'.replay = s.replay → s'.early = s.early →
      s'.arrivals = s.arrivals → s'.refreshes = s.refreshes → s'.channels = s.channels → Fades s s' := by
    intro s' hup hbu hla hrp hea hars hres hchs
    refine ⟨hup, fun hne => hbu hne ▸ List.Sublist.refl _, fun topic' => hla topic' ▸ List.Sublist.refl _, hrp,
        hea ▸ List.Sublist.refl _, hars, fun r hr => ?_⟩
    rw [hres] at hr
    exact ⟨r, hr, rfl, rfl, rfl, (older_of_channels hchs).live rfl rfl rfl⟩
  rcases forward_cases transport s frame topic with ⟨n, heq⟩ | ⟨_, _, heq⟩ | ⟨_, hco, heq⟩ | ⟨_, heq⟩
  · rw [heq]
    exact fades_close_calls n
  · grind [lane]
  · grind [lane]
  · rw [heq]
    exact .refl

theorem fades_created {i id} : Fades s (s.created i id) := by
  unfold created
  split
  · exact .refl
  · grind [fades_older, older_of_channels]

theorem fades_startSettled {i} : Fades s (s.startSettled i) := by
  unfold startSettled
  split
  · exact .refl
  · split
    · exact .refl
    · exact fades_older rfl rfl (List.Sublist.refl _) rfl (List.Sublist.refl _) rfl rfl (older_of_channels rfl)
    · split
      · exact fades_older rfl rfl (List.Sublist.refl _) rfl (List.Sublist.refl _) rfl rfl (older_of_channels rfl)
      · rename_i id _ _ channel hcu
        obtain ⟨_, hch, _⟩ := current_some hcu
        have holder : Older s (s.setChannel _ { channel with nativeId := some id }) := older_setChannel hch rfl rfl
        exact fades_older rfl rfl (List.Sublist.refl _) rfl (List.Sublist.refl _) rfl rfl holder

theorem fades_answered {i refresh} (hre : s.refreshes[i]? = some refresh) (allowed) :
    Fades s { s with refreshes := s.refreshes.set i { refresh with allowed := some allowed } } := by
  refine ⟨rfl, fun _ => List.Sublist.refl _, fun _ => List.Sublist.refl _, rfl, List.Sublist.refl _, rfl, fun r' hr' => ?_⟩
  rcases mem_or_eq_of_mem_set hr' with hr | rfl
  · exact ⟨r', hr, rfl, rfl, rfl, id⟩
  · exact ⟨refresh, mem_of_getElem? hre, rfl, rfl, rfl, id⟩

theorem Move.fades (hmo : Move transport s s') (h : Sound s) : Fades s s' := by
  have hsa : ∀ {s'}, s'.upstream = s.upstream → s'.forwarded = s.forwarded → s'.buffered.Sublist s.buffered →
      s'.replay = s.replay → s'.early = s.early →
      s'.arrivals = s.arrivals → s'.refreshes = s.refreshes → s'.channels = s.channels → Fades s s' := by
    intro s' hup hfo hbu hrp hea hars hres hchs
    exact fades_older hup hfo hbu hrp (hea ▸ List.Sublist.refl _) hars hres (older_of_channels hchs)
  cases hmo with
  | tweak hcr hqu _ _ => grind [core, queue]
  | close => exact fades_close
  | forward _ _ hsta => exact fades_forward hsta
  | sendFrame => exact fades_sendFrame
  | remove => exact fades_remove h
  | drop => exact hsa rfl rfl filter_sublist rfl rfl rfl rfl rfl
  | update _ _ _ hu _ => exact fades_update h hu
  | add _ hf => exact fades_add h hf
  | resolve | acknowledge | awaitAck | dropAck => exact hsa rfl rfl (List.Sublist.refl _) rfl rfl rfl rfl rfl
  | ready _ _ ok hc _ => exact fades_update h (update_ready hc ok)
  | deny i refresh hre => exact fades_answered hre false
  | settle i =>
    refine ⟨rfl, fun _ => List.Sublist.refl _, fun _ => List.Sublist.refl _, rfl, List.Sublist.refl _, rfl, fun r hr => ?_⟩
    exact ⟨r, mem_of_mem_eraseIdx hr, rfl, rfl, rfl, id⟩

theorem fades_path (h : Sound s) (hpa : Path transport s s') : Fades s s' := by
  induction hpa with
  | refl => exact .refl
  | tail hpa hmo ih => exact ih.trans (hmo.fades (h.path hpa))

/-! ## 並びの不変条件 -/

structure Lined (s : Session) : Prop where
  lane : ∀ topic, (s.lane topic).Pairwise (· < ·)
  lane_lt : ∀ topic, ∀ n ∈ s.lane topic, n < s.arrivals
  unread : ((s.replay ++ s.early).filterMap Frame.seq).Pairwise (· < ·)
  unread_lt : ∀ frame ∈ s.replay ++ s.early, ∀ n, frame.seq = some n → n < s.arrivals
  ahead : ∀ frame ∈ s.replay ++ s.early, ∀ topic n, frame.seqOn topic = some n → ∀ k ∈ s.lane topic, k < n
  refresh_lt : ∀ r ∈ s.refreshes, r.stamp.seq < s.arrivals
  refresh_ne : ∀ r ∈ s.refreshes, ∀ frame ∈ s.replay ++ s.early, frame.seq ≠ some r.stamp.seq
  refreshes : ∀ r ∈ s.refreshes, s.Live r → ∀ k ∈ s.lane r.message.topic, k < r.stamp.seq
  stamped : ∀ frame ∈ s.replay ++ s.early, ∀ message stamp, frame = .text message stamp → stamp ≠ none
  bound : s.projectRef ≠ none → s.early = []
  unbound : s.projectRef = none → s.upstream = none

structure InLine (s : Session) : Prop extends Lined s where
  clear : s.upstream = some .opened ∨ s.upstream = none → s.buffered = []

theorem inLine_initial : InLine .initial := by
  refine { toLined := ?_, clear := fun _ => rfl }
  constructor
  case lane => exact fun _ => List.Pairwise.nil
  case unread => exact List.Pairwise.nil
  case bound => exact fun _ => rfl
  case unbound => exact fun _ => rfl
  all_goals simp [initial, lane]

theorem Lined.fades (h : Lined s) (hf : Fades s s') (hpro : s'.projectRef = s.projectRef) : Lined s' := by
  have hunr : (s'.replay ++ s'.early).Sublist (s.replay ++ s.early) := by
    rw [hf.replay]
    exact (List.Sublist.refl _).append hf.early
  constructor
  · exact fun topic => (h.lane topic).sublist (hf.lane topic)
  · intro topic n hn
    rw [hf.arrivals]
    exact h.lane_lt topic n ((hf.lane topic).subset hn)
  · exact h.unread.sublist (hunr.filterMap _)
  · intro frame hfr
    rw [hf.arrivals]
    exact h.unread_lt frame (hunr.subset hfr)
  · exact fun frame hfr topic n hn k hk => h.ahead frame (hunr.subset hfr) topic n hn k ((hf.lane topic).subset hk)
  · intro r' hr'
    obtain ⟨r, hr, hsta, _⟩ := hf.refreshes r' hr'
    rw [hf.arrivals, ← hsta]
    exact h.refresh_lt r hr
  · grind [hf.refreshes, h.refresh_ne, hunr.subset]
  · intro r' hr' hliv k hk
    obtain ⟨r, hr, hsta, hto, _, hba⟩ := hf.refreshes r' hr'
    rw [← hsta]
    rw [← hto] at hk
    exact h.refreshes r hr (hba hliv) k ((hf.lane _).subset hk)
  · exact fun frame hfr => h.stamped frame (hunr.subset hfr)
  · grind [hf.early, h.bound]
  · rw [hpro, hf.upstream]
    exact h.unbound

section

variable (h : InLine s)

include h

theorem InLine.fades (hf : Fades s s') (hpro : s'.projectRef = s.projectRef) : InLine s' := by
  refine { h.toLined.fades hf hpro with clear := fun hup => ?_ }
  rw [hf.upstream] at hup
  have hne : s.upstream ≠ some .connecting := by
    rcases hup with heq | heq
    · rw [heq]; simp
    · rw [heq]; simp
  have hsub := hf.buffered hne
  rw [h.clear hup] at hsub
  exact sublist_nil.mp hsub

theorem InLine.path (hs : Sound s) (hpa : Path transport s s') : InLine s' := h.fades (fades_path hs hpa) (steady_path hpa).project

theorem InLine.extend {fresh} (hla : ∀ topic, s'.lane topic = s.lane topic ++ [fresh].filterMap (Frame.seqOn topic))
    (hrp : s'.replay = s.replay) (hea : s'.early = s.early) (hars : s'.arrivals = s.arrivals) (hres : s'.refreshes = s.refreshes)
    (hchs : s'.channels = s.channels) (hpro : s'.projectRef = s.projectRef)
    (hup : s'.upstream = s.upstream) (hcle : s'.upstream = some .opened ∨ s'.upstream = none → s'.buffered = [])
    (hah : ∀ topic n, fresh.seqOn topic = some n → (∀ k ∈ s.lane topic, k < n) ∧ n < s.arrivals ∧
      (∀ frame ∈ s.replay ++ s.early, ∀ m, frame.seqOn topic = some m → n < m) ∧
      ∀ r ∈ s.refreshes, s.Live r → r.message.topic = topic → n < r.stamp.seq) : InLine s' := by
  have hunr : s'.replay ++ s'.early = s.replay ++ s.early := by rw [hrp, hea]
  have hmem : ∀ topic n, n ∈ s'.lane topic → n ∈ s.lane topic ∨ fresh.seqOn topic = some n := by simp [hla]
  refine { toLined := ?_, clear := hcle }
  constructor
  · grind [h.lane]
  · grind [h.lane_lt]
  · rw [hunr]
    exact h.unread
  · rw [hunr, hars]
    exact h.unread_lt
  · grind [h.ahead]
  · rw [hres, hars]
    exact h.refresh_lt
  · rw [hres, hunr]
    exact h.refresh_ne
  · rw [hres]
    intro r hr hliv k hk
    have hbe : s.Live r := (older_of_channels hchs).live rfl rfl rfl hliv
    rcases hmem _ k hk with hold | hseq
    · exact h.refreshes r hr hbe k hold
    · exact (hah _ k hseq).2.2.2 r hr hbe rfl
  · rw [hunr]
    exact h.stamped
  · rw [hpro, hea]
    exact h.bound
  · rw [hpro, hup]
    exact h.unbound

theorem InLine.close : InLine s.close := h.fades fades_close steady_close.project

theorem InLine.forward {sender} (hla : ∀ k ∈ s.lane message.topic, k < stamp.seq) (hlt : stamp.seq < s.arrivals)
    (hunr : ∀ frame ∈ s.replay ++ s.early, ∀ n, frame.seqOn message.topic = some n → stamp.seq < n)
    (hliv : ∀ r ∈ s.refreshes, s.Live r → r.message.topic = message.topic → stamp.seq < r.stamp.seq) :
    InLine (s.forward transport (.text message (some stamp)) sender) := by
  have hah : ∀ topic n, Frame.seqOn topic (.text message (some stamp)) = some n → (∀ k ∈ s.lane topic, k < n) ∧ n < s.arrivals ∧
      (∀ frame ∈ s.replay ++ s.early, ∀ m, frame.seqOn topic = some m → n < m) ∧
      ∀ r ∈ s.refreshes, s.Live r → r.message.topic = topic → n < r.stamp.seq := by
    intro topic n hseq
    obtain ⟨_, _, heq, rfl, rfl⟩ := Frame.seqOn_some hseq
    cases heq
    exact ⟨hla, hlt, hunr, hliv⟩
  rcases forward_cases transport s (.text message (some stamp)) sender with ⟨n, heq⟩ | ⟨_, hop, heq⟩ | ⟨_, hco, heq⟩ | ⟨_, heq⟩
  · rw [heq]
    exact h.fades (fades_close_calls n) (steady_close_calls n).project
  · rw [heq]
    have hem := h.clear (.inl hop)
    refine h.extend (fun topic => ?_) rfl rfl rfl rfl rfl rfl rfl (fun _ => hem) hah
    simp [Session.lane, hem]
  · rw [heq]
    refine h.extend (fun topic => ?_) rfl rfl rfl rfl rfl rfl rfl (fun hope => ?_) hah
    · simp [Session.lane]
    · grind
  · rw [heq]
    exact h

/-! ## クライアントのフレームの扱い -/

theorem InLine.awaitRefresh (hs : Sound s) (hc : s.channel message.topic = some c) (token)
    (hla : ∀ k ∈ s.lane message.topic, k < stamp.seq) (hlt : stamp.seq < s.arrivals)
    (hne : ∀ frame ∈ s.replay ++ s.early, frame.seq ≠ some stamp.seq) :
    InLine (s.awaitRefresh c message token stamp replaying) := by
  have hset := h.fades (fades_update hs (update_awaiting hc)) rfl
  refine { hset with refresh_lt := ?_, refresh_ne := ?_, refreshes := ?_ }
  · intro r hr
    rcases mem_append.mp hr with hr | hr
    · exact h.refresh_lt r hr
    · rw [mem_singleton.mp hr]
      exact hlt
  · intro r hr
    rcases mem_append.mp hr with hr | hr
    · exact h.refresh_ne r hr
    · rw [mem_singleton.mp hr]
      exact hne
  · intro r hr hliv
    rcases mem_append.mp hr with hr | hr
    · exact hset.refreshes r hr hliv
    · rw [mem_singleton.mp hr]
      exact hla

theorem InLine.handled (hs : Sound s) (hha : Handled transport s message stamp replaying s')
    (hla : ∀ k ∈ s.lane message.topic, k < stamp.seq) (hlt : stamp.seq < s.arrivals)
    (hne : ∀ frame ∈ s.replay ++ s.early, frame.seq ≠ some stamp.seq) (hre : ∀ r ∈ s.refreshes, r.stamp.seq ≠ stamp.seq)
    (hea : s.early = []) (htu : s.Unhindered transport message stamp.seq) : InLine s' := by
  cases hha with
  | moved hpa => exact h.path hs hpa
  | awaited c token hc => exact h.awaitRefresh hs hc token hla hlt hne
  | sent mid hpa hpas hmid =>
    obtain ⟨hunr, hve⟩ := htu hpas
    have hf := fades_path hs hpa
    refine (h.path hs hpa).forward (fun k hk => hla k ((hf.lane _).subset hk)) (by rw [hf.arrivals]; exact hlt) ?_ ?_
    · intro frame hfr n hn
      rw [hf.replay] at hfr
      have hold : frame ∈ s.replay ++ s.early := ((List.Sublist.refl _).append hf.early).subset hfr
      have hdi := hne frame hold
      rw [Frame.seq_of_seqOn hn] at hdi
      rw [hea, append_nil] at hold
      have hle : ¬ n < stamp.seq := fun hn' => hunr ⟨frame, hold, n, hn, hn'⟩
      have hneq : n ≠ stamp.seq := fun heq => hdi (congrArg some heq)
      omega
    · intro r' hr' hliv hto
      obtain ⟨r, hr, hsta, hto', hge, hba⟩ := hf.refreshes r' hr'
      rcases hmid with ⟨rfl, hjo, hlv⟩ | hfre
      · have hneq := hre r' hr'
        have hle : ¬ r'.stamp.seq < stamp.seq := fun hn' => hve hjo hlv ⟨r', hr', hliv, hto, hn'⟩
        omega
      · -- 送る話題のチャネルは、あれば新しいので、前の待ちは有効でない
        obtain ⟨c, hc, hg, _⟩ := hliv
        rw [hto] at hc
        have hlt' := hs.refresh_lt r hr
        rw [hge, ← hg, hfre c hc] at hlt'
        exact absurd hlt' (Nat.lt_irrefl _)

theorem InLine.arrive : InLine { s with arrivals := s.arrivals + 1 } :=
  { h with
    lane_lt := fun topic n hn => (h.lane_lt topic n hn).trans (Nat.lt_succ_self _)
    unread_lt := fun frame hfr n hn => (h.unread_lt frame hfr n hn).trans (Nat.lt_succ_self _)
    refresh_lt := fun r hr => (h.refresh_lt r hr).trans (Nat.lt_succ_self _) }

theorem InLine.queueEarly (hpro : s.projectRef = none) (hseq : frame.seq = some s.arrivals ∨ ∃ bytes, frame = .binary bytes) :
    InLine (queueEarly transport { s with arrivals := s.arrivals + 1 } frame) := by
  unfold Session.queueEarly
  dsimp only
  split
  · exact h.arrive.close
  · have hls : ∀ n, frame.seq = some n → n = s.arrivals := by
      intro n hn
      rcases hseq with hseq | ⟨_, rfl⟩
      · exact Option.some.inj (hn.symm.trans hseq)
      · cases hn
    have hmem : ∀ x ∈ s.replay ++ (s.early ++ [frame]), x ∈ s.replay ++ s.early ∨ x = frame := by
      intro x hx
      rw [← append_assoc, mem_append, mem_singleton] at hx
      exact hx
    refine { h.arrive with unread := ?_, unread_lt := ?_, ahead := ?_, refresh_ne := ?_, stamped := ?_, bound := ?_ }
    · grind [h.unread, h.unread_lt]
    · grind [→ h.arrive.unread_lt]
    · intro x hx topic n hn k hk
      rcases hmem x hx with hold | rfl
      · exact h.ahead x hold topic n hn k hk
      · rw [hls n (Frame.seq_of_seqOn hn)]
        exact h.lane_lt topic k hk
    · grind [→ h.refresh_ne, → h.refresh_lt]
    · intro x hx message stamp heq
      rcases hmem x hx with hold | rfl
      · exact h.stamped x hold message stamp heq
      · rintro rfl
        subst heq
        rcases hseq with hseq | ⟨_, hseq⟩
        · cases hseq
        · cases hseq
    · exact fun hbo => absurd hpro hbo

end

theorem translate_topic {received} : (s.translate received).topic = received.topic := by
  unfold translate
  split
  · rfl
  · rfl

section

variable (h : InLine s) (hs : Sound s)

include h hs

theorem InLine.receive {raw} (htu : KeepsTurn transport s (.message raw)) : InLine (s.message transport raw) := by
  unfold Session.message
  split
  · exact h
  · rename_i hope
    have hcl : s.closed = false := by simpa using hope
    have hso : Sound { s with arrivals := s.arrivals + 1 } := hs.congr rfl
    dsimp only
    split
    · rename_i ref href
      have hbo : s.projectRef ≠ none := by rw [href]; simp
      cases raw with
      | invalid => exact h.arrive.close
      | binary bytes => exact h.arrive.path hso path_binary
      | text received =>
        refine h.arrive.handled hso (handled_text hcl hbo) ?_ (Nat.lt_succ_self _) ?_ ?_ (h.bound hbo) ?_
        · exact fun k hk => h.lane_lt _ k hk
        · exact fun frame hfr heq => absurd (h.unread_lt frame hfr _ heq) (Nat.lt_irrefl _)
        · exact fun r hr => Nat.ne_of_lt (h.refresh_lt r hr)
        · exact fun hpas => htu hcl hbo hpas
    · rename_i hno
      split
      · exact h.arrive.close
      · exact h.queueEarly hno (.inr ⟨_, rfl⟩)
      · exact h.queueEarly hno (.inl rfl)

theorem InLine.replayNext (hbo : s.replay ≠ [] → s.projectRef ≠ none) (htu : KeepsTurn transport s .replay) :
    InLine (s.replayNext transport) := by
  unfold Session.replayNext
  split
  · exact h
  · rename_i frame rest hrp
    have hpro := hbo (by rw [hrp]; simp)
    have hmem : ∀ x ∈ rest ++ s.early, x ∈ s.replay ++ s.early := by
      intro x hx
      rw [hrp]
      exact mem_cons_of_mem _ hx
    have hhe : frame ∈ s.replay ++ s.early := by
      rw [hrp]
      exact mem_cons_self
    have hunr := h.unread
    rw [hrp, cons_append] at hunr
    have hsk : InLine { s with replay := rest } :=
      { h with
        unread := hunr.sublist ((sublist_cons_self _ _).filterMap _)
        unread_lt := fun x hx => h.unread_lt x (hmem x hx)
        ahead := fun x hx => h.ahead x (hmem x hx)
        refresh_ne := fun r hr x hx => h.refresh_ne r hr x (hmem x hx)
        stamped := fun x hx => h.stamped x (hmem x hx) }
    have hso : Sound { s with replay := rest } := hs.congr rfl
    split
    · exact h
    · split
      · exact hsk
      · rename_i hope
        have hcl : s.closed = false := by simpa using hope
        cases frame with
        | binary bytes => exact hsk.path hso path_binary
        | text received stamp =>
          obtain ⟨stamp, rfl⟩ := Option.ne_none_iff_exists'.mp (h.stamped _ hhe received stamp rfl)
          have hlat : ∀ x ∈ rest ++ s.early, ∀ n, x.seq = some n → stamp.seq < n := by
            intro x hx n hn
            have hseq : Frame.seq (.text received (some stamp)) = some stamp.seq := rfl
            rw [filterMap_cons_some hseq, pairwise_cons] at hunr
            exact hunr.1 n (mem_filterMap.mpr ⟨x, hx, hn⟩)
          refine hsk.handled hso (handled_text hcl hpro) ?_ (h.unread_lt _ hhe _ rfl) ?_ ?_ (h.bound hpro) ?_
          · intro k hk
            rw [translate_topic] at hk
            exact h.ahead _ hhe received.topic stamp.seq (if_pos rfl) k hk
          · exact fun x hx heq => absurd (hlat x hx _ heq) (Nat.lt_irrefl _)
          · exact fun r hr heq => h.refresh_ne r hr _ hhe (congrArg some heq.symm)
          · intro hpas
            obtain ⟨hbe, hve⟩ := htu received stamp rest hrp hpas
            refine ⟨?_, hve⟩
            rintro ⟨x, hx, n, hn, hlt⟩
            exact hbe ⟨x, by rw [hrp]; exact mem_cons_of_mem _ hx, n, hn, hlt⟩

theorem InLine.refreshSettled {i rejected} (htu : KeepsTurn transport s (.refreshSettled i rejected)) :
    InLine (s.refreshSettled transport i rejected) := by
  rcases refreshSettled_cases transport s i rejected with hpa | ⟨refresh, channel, hre, hcu, hvr, rfl, hal, heq⟩
  · exact h.path hs hpa
  · rw [heq]
    obtain ⟨_, hch, hge⟩ := current_some hcu
    have hmem := mem_of_getElem? hre
    have hliv : s.Live refresh := ⟨channel, hch, hge, hvr⟩
    have hrs : Path transport s { s with refreshes := s.refreshes.eraseIdx i } := (Move.settle i).path
    have hupd := hs.accepted hre hcu hvr
    have hf := (fades_path hs hrs).trans (fades_update (hs.path hrs) hupd)
    have hbo : s.projectRef ≠ none := fun hno => by
      rw [hs.unbound hno] at hch
      cases hch
    refine (h.fades hf rfl).forward (fun k hk => h.refreshes refresh hmem hliv k ((hf.lane _).subset hk))
      (by rw [hf.arrivals]; exact h.refresh_lt refresh hmem) ?_ ?_
    · intro frame hfr n hn
      have hold : frame ∈ s.replay ++ s.early := hfr
      have hdi := h.refresh_ne refresh hmem frame hold
      rw [Frame.seq_of_seqOn hn] at hdi
      rw [h.bound hbo, append_nil] at hold
      have hle : ¬ n < refresh.stamp.seq := fun hlt => htu refresh hre hliv hal ⟨frame, hold, n, hn, hlt⟩
      have hneq : n ≠ refresh.stamp.seq := fun heq => hdi (congrArg some heq)
      omega
    · intro r hr hli' hto
      -- 同じ話題の有効な待ちは、同じ版なので、この待ちだけである
      obtain ⟨c, hc, hg, hv⟩ := hli'
      rw [hto] at hc
      have hset : (s.renewed i refresh channel).channel refresh.message.topic = some (channel.renewed refresh) := by
        rw [channel_set hupd.current, if_pos rfl]
      cases hset.symm.trans hc
      exact (hs.refresh_alone hre hr (hg.symm.trans hge) (hv.symm.trans hvr)).elim

theorem InLine.refreshChecked (transport : Transport) {i} : InLine (s.refreshChecked i) := by
  rcases refreshChecked_cases transport s i with hpa | ⟨refresh, channel, hre, _, _, _, ⟨_, heq⟩ | ⟨id, _, heq⟩⟩
  · exact h.path hs hpa
  · rw [heq]
    exact h.fades (fades_answered hre true) rfl
  · rw [heq]
    have han := h.fades (fades_answered hre true) rfl
    exact { han with lane := han.lane }

end

/-! ## 接続の始まりと、上流の様子 -/

theorem close_forwarded : s.close.forwarded = s.forwarded ∧ (s.buffered = [] → s.close.buffered = []) := by
  cases hcl : s.closed with
  | true =>
    rw [close_of_closed hcl]
    exact ⟨rfl, id⟩
  | false =>
    obtain ⟨_, _, _, heq⟩ := close_eq hcl
    rw [heq]
    exact ⟨rfl, fun _ => rfl⟩

section

variable (entries : List (Frame × Option JsString)) (hem : s.buffered = []) (hope : s.closed = true ∨ s.upstream = some .opened)

include entries hem hope

theorem fades_flush : Fades { s with buffered := entries }
    (entries.foldl (fun s entry => s.forward transport entry.1 entry.2) s) := by
  induction entries generalizing s with
  | nil => grind [fades_older, older_of_channels]
  | cons entry entries ih =>
    rw [foldl_cons]
    rcases forward_cases transport s entry.1 entry.2 with ⟨n, heq⟩ | ⟨_, _, heq⟩ | ⟨hcl, hco, _⟩ | ⟨_, heq⟩
    · have hclo := fades_close_calls (s := s) n
      obtain ⟨hfo, hbu⟩ := close_forwarded (s := { s with calls := n })
      have hfi : Fades { s with buffered := entry :: entries } { close { s with calls := n } with buffered := entries } := by
        have hla : ∀ topic, (lane { close { s with calls := n } with buffered := entries } topic).Sublist
            (lane { s with buffered := entry :: entries } topic) := lane_sublist hfo (sublist_cons_self _ _)
        exact ⟨hclo.upstream, fun _ => sublist_cons_self _ _, hla, hclo.replay, hclo.early, hclo.arrivals, hclo.refreshes⟩
      rw [heq]
      exact hfi.trans (ih (hbu hem) (.inl close_closed))
    · have hfi : Fades { s with buffered := entry :: entries }
          { s with calls := s.calls + 1, forwarded := s.forwarded ++ [entry.1], buffered := entries } := by
        refine ⟨rfl, fun _ => sublist_cons_self _ _, fun topic => ?_, rfl, List.Sublist.refl _, rfl,
            fun r hr => ⟨r, hr, rfl, rfl, rfl, id⟩⟩
        simp [lane, List.Sublist.refl]
      rw [heq]
      exact hfi.trans (ih (s := { s with calls := s.calls + 1, forwarded := s.forwarded ++ [entry.1] }) hem hope)
    · grind
    · have hfi : Fades { s with buffered := entry :: entries } { s with buffered := entries } :=
        fades_older rfl rfl (sublist_cons_self _ _) rfl (List.Sublist.refl _) rfl rfl (older_of_channels rfl)
      rw [heq]
      exact hfi.trans (ih hem hope)

theorem flush_buffered : (entries.foldl (fun s entry => s.forward transport entry.1 entry.2) s).buffered = [] := by
  induction entries generalizing s with
  | nil => exact hem
  | cons entry entries ih =>
    rw [foldl_cons]
    rcases forward_cases transport s entry.1 entry.2 with ⟨n, heq⟩ | ⟨_, _, heq⟩ | ⟨hcl, hco, _⟩ | ⟨_, heq⟩
    · rw [heq]
      exact ih ((close_forwarded (s := { s with calls := n })).2 hem) (.inl close_closed)
    · rw [heq]
      exact ih hem hope
    · grind
    · rw [heq]
      exact ih hem hope

end

theorem InLine.upstreamOpen (h : InLine s) (hs : Sound s) : InLine (s.upstreamOpen transport) := by
  have hro : Route transport s (s.upstreamOpen transport) := route_upstreamOpen
  have hst := (keeps_route hro hs).2
  unfold Session.upstreamOpen at hst ⊢
  split
  · rename_i hco
    rw [if_pos hco] at hst
    have hpro : s.projectRef ≠ none := fun hno => by
      rw [h.unbound hno] at hco
      cases hco
    have hope : Lined { s with upstream := some .opened, connectionTimer := false } :=
        { h.toLined with unbound := fun hno => absurd hno hpro }
    have hfl : Fades { s with upstream := some .opened, connectionTimer := false }
        (flush transport { s with upstream := some .opened, connectionTimer := false }) :=
      fades_flush (s := { s with upstream := some .opened, connectionTimer := false, buffered := [] }) s.buffered rfl (.inr rfl)
    refine { hope.fades hfl hst.project with clear := fun _ => ?_ }
    exact flush_buffered (s := { s with upstream := some .opened, connectionTimer := false, buffered := [] })
        s.buffered rfl (.inr rfl)
  · exact h

theorem InLine.upstreamEnding (h : InLine s) {readyState} : InLine (s.upstreamEnding readyState) := by
  have hen : ∀ upstream, s.upstream = some upstream → readyState ≠ .opened → InLine { s with upstream := some readyState } := by
    intro upstream hup hne
    refine { h with unbound := ?_, clear := ?_ }
    · intro hno
      rw [h.unbound hno] at hup
      cases hup
    · rintro (hope | hope)
      · exact absurd (Option.some.inj hope) hne
      · cases hope
  unfold Session.upstreamEnding
  split
  · exact hen _ (by assumption) (by simp)
  · exact hen _ (by assumption) (by simp)
  · exact h

theorem InLine.begin (h : InLine s) {params} : InLine (s.begin params) := by
  have hdo : InLine { s with opening := .done } := { h with lane := h.lane }
  unfold Session.begin
  split
  · split
    · exact hdo.close
    · split
      · exact hdo
      · exact { h with lane := h.lane }
  · exact h

theorem InLine.bindProject (h : InLine s) (hs : Placed s) {result n connected} : InLine (s.bindProject result n connected) := by
  have hdo : InLine { s with opening := .done } := { h with lane := h.lane }
  unfold Session.bindProject
  split
  · rename_i params hopn
    have hunb : s.projectRef = none := hs.unbound (by rw [hopn]; simp)
    have hnil : s.replay = [] := by
      by_contra hne
      exact hs.replay hne hunb
    dsimp only
    split
    · exact hdo
    · rename_i hope
      split
      · exact hdo.close
      · exact hdo.close
      · rename_i ref upstreamKey
        split
        · exact hdo.close
        · split
          · exact hdo.close
          · split
            · exact hdo.close
            · have hbo : InLine { s.counted params ref upstreamKey n with early := [] } :=
                { h with
                  unread := by rw [hnil]; exact List.Pairwise.nil
                  unread_lt := by rw [hnil]; exact fun _ hx => (nomatch hx)
                  ahead := by rw [hnil]; exact fun _ hx => (nomatch hx)
                  refresh_ne := by rw [hnil]; exact fun _ _ _ hx => (nomatch hx)
                  stamped := by rw [hnil]; exact fun _ hx => (nomatch hx)
                  bound := fun _ => rfl
                  unbound := fun hno => (nomatch hno) }
              split
              · obtain ⟨listeners, owned, backend, heq⟩ := close_eq (s := s.counted params ref upstreamKey n) (by simpa using hope)
                rw [heq]
                refine hbo.fades (fades_older rfl rfl (nil_sublist _) rfl (List.Sublist.refl _) rfl rfl ?_) rfl
                exact fun _ _ hc => (nomatch hc)
              · have hunr : s.replay ++ s.early = s.early ++ [] := by rw [hnil, append_nil, nil_append]
                refine { h with
                  unread := hunr ▸ h.unread, unread_lt := hunr ▸ h.unread_lt, ahead := hunr ▸ h.ahead,
                  refresh_ne := hunr ▸ h.refresh_ne
                  stamped := hunr ▸ h.stamped, bound := fun _ => rfl, unbound := fun hno => (nomatch hno)
                  clear := fun _ => h.clear (.inr (h.unbound hunb)) }
  · exact h

/-! ## 一歩 -/

theorem sessionStep_inLine (count e) (hs : Placed s) (h : InLine s) (htu : KeepsTurn transport s e) :
    InLine (sessionStep transport count s e) := by
  have hpl := hs.reset
  have hli : InLine { s with counting := [], backend := [], sent := [] } := { h with lane := h.lane }
  have hkes : KeepsTurn transport { s with counting := [], backend := [], sent := [] } e := by
    cases e with
    | message raw => cases raw <;> exact htu
    | refreshSettled i rejected => cases rejected <;> exact htu
    | _ => exact htu
  unfold sessionStep
  generalize { s with counting := [], backend := [], sent := [] } = r at hpl hli hkes
  have hpa : ∀ {s'}, Path transport r s' → InLine s' := fun hpa => hli.path hpl.sound hpa
  cases e with
  | begin params => exact hli.begin
  | keyResolved result connected =>
    dsimp only
    split
    · exact hli.bindProject hpl
    · exact hli.bindProject hpl
  | replay => exact hli.replayNext hpl.sound hpl.replay hkes
  | message raw => exact hli.receive hpl.sound hkes
  | created i id => exact hli.fades fades_created steady_created.project
  | startSettled i => exact hli.fades fades_startSettled steady_startSettled.project
  | readySettled i ok => exact hpa path_readySettled
  | refreshChecked i => exact hli.refreshChecked hpl.sound transport
  | refreshSettled i rejected => exact hli.refreshSettled hpl.sound hkes
  | ackSettled i => exact hpa (path_ackSettled hpl.sound.acks)
  | upstreamMessage raw => exact hpa path_receiveUpstream
  | upstreamOpen => exact hli.upstreamOpen hpl.sound
  | upstreamEnding readyState => exact hli.upstreamEnding
  | upstreamGone | close => exact hli.close
  | joinTimeout topic => exact hpa path_joinTimeout
  | connectTimeout => exact hpa path_connectTimeout
  | nativeEvent id event => exact hpa (path_nativeEvent hpl.sound.topics)

theorem InLine.forwarded (h : InLine s) (topic) : (s.forwardedOn topic).Pairwise (· < ·) := by
  have hpr : (s.forwardedOn topic).Sublist (s.lane topic) := by
    rw [Session.lane, filterMap_append]
    exact sublist_append_left _ _
  exact (h.lane topic).sublist hpr

end Session

end Supacloud.RealtimeProxy
