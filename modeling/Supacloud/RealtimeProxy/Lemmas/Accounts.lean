import Supacloud.RealtimeProxy.Lemmas.Ownership

/-!
# 接続の数

プロジェクトに結び付くときに数を一つ増やし、閉じるときに一つ戻す。
-/

namespace Supacloud.RealtimeProxy

open Contracts (JsString)

open Library List

namespace Session

variable {transport : Transport} {s s' s'' : Session} {c channel : Channel} {frame : Frame} {ref : JsString}

/-! ## 閉じるときだけ、数を戻す -/

structure Steady (s s' : Session) : Prop where
  project : s'.projectRef = s.projectRef
  opening : s'.opening = s.opening
  replay : s'.replay <:+ s.replay
  calls : (s'.closed = s.closed ∧ s'.counting = s.counting) ∨
    (s.closed = false ∧ s'.closed = true ∧ s'.counting = s.counting ++ (s.projectRef.map CountCall.release).toList)

theorem Steady.refl : Steady s s := ⟨rfl, rfl, suffix_rfl, .inl ⟨rfl, rfl⟩⟩

theorem Steady.trans (h : Steady s s') (h' : Steady s' s'') : Steady s s'' := by
  refine ⟨h'.project.trans h.project, h'.opening.trans h.opening, h'.replay.trans h.replay, ?_⟩
  rcases h.calls with ⟨hcl, hcou⟩ | ⟨hope, hcl, hcou⟩
  · grind [h'.calls, h.project]
  · grind [h'.calls]

theorem Steady.congr (hproject : s'.projectRef = s.projectRef) (hop : s'.opening = s.opening) (hrp : s'.replay = s.replay)
    (hcl : s'.closed = s.closed) (hcou : s'.counting = s.counting) : Steady s s' :=
  ⟨hproject, hop, hrp ▸ suffix_rfl, .inl ⟨hcl, hcou⟩⟩

theorem steady_close : Steady s s.close := by
  cases hcl : s.closed with
  | true =>
    rw [close_of_closed hcl]
    exact .refl
  | false =>
    obtain ⟨_, _, _, heq⟩ := close_eq hcl
    rw [heq]
    exact ⟨rfl, rfl, suffix_rfl, .inr ⟨hcl, rfl, rfl⟩⟩

theorem steady_close_calls (n) : Steady s (close { s with calls := n }) := by
  have htw : Steady s { s with calls := n } := .congr rfl rfl rfl rfl rfl
  exact htw.trans steady_close

theorem steady_remove {topic} : Steady s (s.removeChannel topic) := by
  obtain ⟨_, _, _, heq⟩ := removeChannel_eq s topic
  rw [heq]
  exact .congr rfl rfl rfl rfl rfl

theorem steady_sendFrame : Steady s (s.sendFrame transport frame) := by
  rcases sendFrame_cases transport s frame with ⟨n, heq⟩ | ⟨_, heq⟩
  · rw [heq]
    exact steady_close_calls n
  · rw [heq]
    exact .congr rfl rfl rfl rfl rfl

theorem steady_forward {topic} : Steady s (s.forward transport frame topic) := by
  rcases forward_cases transport s frame topic with ⟨n, heq⟩ | ⟨_, _, heq⟩ | ⟨_, _, heq⟩ | ⟨_, heq⟩
  · rw [heq]
    exact steady_close_calls n
  · rw [heq]
    exact .congr rfl rfl rfl rfl rfl
  · rw [heq]
    exact .congr rfl rfl rfl rfl rfl
  · rw [heq]
    exact .refl

variable {i : Nat}

theorem steady_created {id} : Steady s (s.created i id) := by
  unfold created
  split
  · exact .refl
  · split
    · exact .congr rfl rfl rfl rfl rfl
    · exact .refl

theorem steady_startSettled : Steady s (s.startSettled i) := by
  unfold startSettled
  split
  · exact .refl
  · split
    · exact .refl
    · exact .congr rfl rfl rfl rfl rfl
    · split
      · exact .congr rfl rfl rfl rfl rfl
      · exact .congr rfl rfl rfl rfl rfl

theorem Move.steady (h : Move transport s s') : Steady s s' := by
  cases h with
  | tweak hcor hque hcou =>
    simp only [core, Prod.mk.injEq] at hcor
    simp only [queue, Prod.mk.injEq] at hque
    exact .congr hcor.2.1 hque.1 hque.2.2.2.2.1 hcor.1 hcou
  | close => exact steady_close
  | forward => exact steady_forward
  | sendFrame => exact steady_sendFrame
  | remove => exact steady_remove
  | _ => exact .congr rfl rfl rfl rfl rfl

theorem steady_path (h : Path transport s s') : Steady s s' := by
  induction h with
  | refl => exact .refl
  | tail _ hmo ih => exact ih.trans hmo.steady

/-! ## 一歩 -/

def Keeps (s s' : Session) : Prop := Sound s → Sound s' ∧ Steady s s'

theorem Keeps.refl : Keeps s s := fun h => ⟨h, .refl⟩

theorem Keeps.trans (h : Keeps s s') (h' : Keeps s' s'') : Keeps s s'' := by
  intro hs
  obtain ⟨hs', hst⟩ := h hs
  obtain ⟨hs'', hst'⟩ := h' hs'
  exact ⟨hs'', hst.trans hst'⟩

theorem keeps_path (h : Path transport s s') : Keeps s s' := fun hs => ⟨hs.path h, steady_path h⟩

theorem keeps_close : Keeps s s.close := fun hs => ⟨hs.close, steady_close⟩

theorem keeps_forward {topic} : Keeps s (s.forward transport frame topic) := fun hs => ⟨hs.forward topic, steady_forward⟩

theorem Act.keeps (h : Act transport s s') : Keeps s s' := by
  cases h with
  | move h => exact keeps_path h.path
  | forward => exact keeps_forward
  | awaitRefresh c message token stamp replaying hc => exact fun hs => ⟨hs.awaitRefresh hc token stamp replaying, .congr rfl rfl rfl rfl rfl⟩
  | queue hcor hop hrp hcou _ =>
    intro hs
    refine ⟨hs.congr hcor, ?_⟩
    simp only [core, Prod.mk.injEq] at hcor
    exact ⟨hcor.2.1, hop, hrp, .inl ⟨hcor.1, hcou⟩⟩

theorem keeps_route (h : Route transport s s') : Keeps s s' := by
  induction h with
  | refl => exact .refl
  | tail _ hact ih => exact ih.trans hact.keeps

theorem Sound.refresh_alone (h : Sound s) {refresh r} (hre : s.refreshes[i]? = some refresh) (hr : r ∈ s.refreshes.eraseIdx i)
    (hge : r.generation = refresh.generation) (hve : r.version = refresh.version) : False := by
  have hves := h.versions
  obtain ⟨hlt, hget⟩ := List.getElem?_eq_some_iff.mp hre
  rw [← take_append_drop i s.refreshes, drop_eq_getElem_cons hlt, hget, map_append, map_cons] at hves
  rw [eraseIdx_eq_take_drop_succ, mem_append] at hr
  have hmi := (nodup_middle.mp hves)
  rw [nodup_cons, ← map_append] at hmi
  refine hmi.1 (mem_map.mpr ⟨r, mem_append.mpr hr, ?_⟩)
  rw [hge, hve]

theorem Sound.accepted (h : Sound s) {refresh} (hre : s.refreshes[i]? = some refresh)
    (hcu : s.current refresh.message.topic refresh.generation = some channel) (hve : channel.refreshVersion = refresh.version) :
    Update { s with refreshes := s.refreshes.eraseIdx i } refresh.message.topic channel (channel.renewed refresh) := by
  obtain ⟨_, hch, hge⟩ := current_some hcu
  refine ⟨hch, rfl, rfl, rfl, rfl, .inl rfl, fun hj => .inl hj, fun _ => .inr fun r hr hg hv => ?_⟩
  exact h.refresh_alone hre hr (hg.trans hge) (hv.trans hve)

theorem keeps_refreshSettled {rejected} : Keeps s (s.refreshSettled transport i rejected) := by
  rcases refreshSettled_cases transport s i rejected with hpa | ⟨refresh, channel, hre, hcu, hve, _, _, heq⟩
  · exact keeps_path hpa
  · rw [heq]
    intro hs
    have hres : Keeps s { s with refreshes := s.refreshes.eraseIdx i } := keeps_path (Move.settle i : Move transport s _).path
    have hac : Keeps { s with refreshes := s.refreshes.eraseIdx i } (s.renewed i refresh channel) :=
      fun hres => ⟨hres.update (hs.accepted hre hcu hve), .congr rfl rfl rfl rfl rfl⟩
    exact ((hres.trans hac).trans keeps_forward) hs

theorem keeps_refreshChecked (transport : Transport) : Keeps s (s.refreshChecked i) := by
  rcases refreshChecked_cases transport s i with hpa | ⟨refresh, channel, hre, _, _, _, ⟨_, heq⟩ | ⟨id, _, heq⟩⟩
  · exact keeps_path hpa
  · rw [heq]
    exact fun hs => ⟨hs.answered hre true, .congr rfl rfl rfl rfl rfl⟩
  · rw [heq]
    exact fun hs => ⟨(hs.answered hre true).congr rfl, .congr rfl rfl rfl rfl rfl⟩

theorem Sound.topics (h : Sound s) : ∀ entry ∈ s.channels, entry.2.join.topic = entry.1 := by
  intro entry hen
  exact h.topic entry.1 entry.2 ((lookup_eq_some_iff h.keys).mpr hen)

structure Placed (s : Session) : Prop where
  sound : Sound s
  unbound : s.opening ≠ .done → s.projectRef = none
  replay : s.replay ≠ [] → s.projectRef ≠ none

theorem placed_initial : Placed .initial := ⟨sound_initial, fun _ => rfl, fun h => absurd rfl h⟩

theorem Placed.keeps (h : Placed s) (hkes : Keeps s s') : Placed s' := by
  obtain ⟨hso, hst⟩ := hkes h.sound
  refine ⟨hso, fun hop => ?_, fun hrp => ?_⟩
  · rw [hst.project]
    exact h.unbound (hst.opening ▸ hop)
  · grind [hst.project, h.replay, hst.replay]

inductive Counted (count : JsString → Nat) (s s' : Session) : Prop where
  | kept (hproject : s'.projectRef = s.projectRef) (hcalls : (s'.closed = s.closed ∧ s'.counting = s.counting) ∨
      (s.closed = false ∧ s'.closed = true ∧ s'.counting = s.counting ++ (s.projectRef.map CountCall.release).toList))
  | bound (ref : JsString) (hs : s.projectRef = none) (hcount : count ref < maxConnectionsPerProject) (hs' : s'.projectRef = some ref)
      (hcalls : (s'.closed = false ∧ s'.counting = s.counting ++ [.set ref (count ref + 1)]) ∨
        (s'.closed = true ∧ s'.counting = s.counting ++ [.set ref (count ref + 1), .release ref]))

variable {count : JsString → Nat}

theorem Steady.counted {opening} (h : Steady { s with opening } s') : Counted count s s' := .kept h.project h.calls

theorem Placed.done (h : Placed s) : Placed { s with opening := .done } := ⟨h.sound.congr rfl, fun hne => absurd rfl hne, h.replay⟩

theorem Placed.close (h : Placed s) : Placed s.close := h.keeps keeps_close

theorem begin_spec {params} (h : Placed s) : Placed (s.begin params) ∧ Counted count s (s.begin params) := by
  have hsa : Counted count s s := Steady.refl.counted
  unfold begin
  split
  · rename_i hop
    split
    · exact ⟨h.done.close, steady_close.counted⟩
    · split
      · exact ⟨h.done, Steady.refl.counted⟩
      · exact ⟨⟨h.sound.congr rfl, fun _ => h.unbound (by rw [hop]; simp), h.replay⟩, Steady.refl.counted⟩
  · exact ⟨h, hsa⟩

theorem Sound.bind (h : Sound s) (hs : s.projectRef = none) : Sound { s with projectRef := some ref } := by
  have hno := h.unbound hs
  exact { h with unbound := fun h => (nomatch h), listeners := h.listeners }

theorem bindProject_spec {result connected} (h : Placed s) (n) (hn : ∀ ref key, result = .resolved ref key → n = count ref) :
    Placed (s.bindProject result n connected) ∧ Counted count s (s.bindProject result n connected) := by
  have hsa : Counted count s s := Steady.refl.counted
  have hdo : Placed { s with opening := .done } ∧ Counted count s { s with opening := .done } := ⟨h.done, Steady.refl.counted⟩
  have hsh : Placed (close { s with opening := .done }) ∧ Counted count s (close { s with opening := .done }) := ⟨h.done.close, steady_close.counted⟩
  unfold bindProject
  split
  · rename_i params hop
    have hunb : s.projectRef = none := h.unbound (by rw [hop]; simp)
    dsimp only
    split
    · exact hdo
    · rename_i hope
      have hcl : s.closed = false := by simpa using hope
      split
      · exact hsh
      · exact hsh
      · rename_i ref upstreamKey
        split
        · exact hsh
        · split
          · exact hsh
          · split
            · exact hsh
            · rename_i hli
              have hcount : n = count ref := hn ref upstreamKey rfl
              have hro : count ref < maxConnectionsPerProject := by omega
              have hbn : Sound { s with projectRef := some ref } := h.sound.bind hunb
              split
              · have hpl : Placed (s.counted params ref upstreamKey n) := ⟨hbn.congr rfl, fun hne => absurd rfl hne, fun _ => by simp⟩
                obtain ⟨_, _, _, heq⟩ := close_eq (s := s.counted params ref upstreamKey n) hcl
                refine ⟨hpl.close, .bound ref hunb hro ?_ (.inr ⟨close_closed, ?_⟩)⟩
                · rw [heq]
                · rw [heq, hcount]
                  simp
              · refine ⟨⟨hbn.congr rfl, fun hne => absurd rfl hne, fun _ => by simp⟩, .bound ref hunb hro rfl (.inl ⟨hcl, ?_⟩)⟩
                rw [hcount]
  · exact ⟨h, hsa⟩

theorem Placed.reset (h : Placed s) : Placed { s with counting := [], backend := [], sent := [] } := by
  refine ⟨?_, h.unbound, h.replay⟩
  exact { h.sound with sent := fun x hx => (nomatch hx) }

theorem sessionStep_spec (transport : Transport) (count e) (h : Placed s) : Placed (sessionStep transport count s e) ∧
      Counted count { s with counting := [], backend := [], sent := [] } (sessionStep transport count s e) := by
  have hrs := h.reset
  unfold sessionStep
  generalize { s with counting := [], backend := [], sent := [] } = r at hrs
  have hkes : ∀ {s'}, Keeps r s' → Placed s' ∧ Counted count r s' :=
    fun hkes => ⟨hrs.keeps hkes, (hkes hrs.sound).2.counted⟩
  have hcr : ∀ i id, Keeps r (r.created i id) := fun i id hs => ⟨hs.created i id, steady_created⟩
  have hse : ∀ i, Keeps r (r.startSettled i) := fun i hs => ⟨hs.startSettled i, steady_startSettled⟩
  have hco : Keeps r r.connectTimeout := keeps_path (path_connectTimeout : Path transport r _)
  cases e with
  | begin params => exact begin_spec hrs
  | keyResolved result connected => grind [bindProject_spec]
  | replay => exact hkes (keeps_route (route_replayNext hrs.replay))
  | message raw => exact hkes (keeps_route route_message)
  | created i id => exact hkes (hcr i id)
  | startSettled i => exact hkes (hse i)
  | readySettled i ok => exact hkes (keeps_path path_readySettled)
  | refreshChecked i => exact hkes (keeps_refreshChecked transport)
  | refreshSettled i rejected => exact hkes keeps_refreshSettled
  | ackSettled i => exact hkes (keeps_path (path_ackSettled hrs.sound.acks))
  | upstreamMessage raw => exact hkes (keeps_path path_receiveUpstream)
  | upstreamOpen => exact hkes (keeps_route route_upstreamOpen)
  | upstreamEnding readyState => exact hkes (keeps_route (route_upstreamEnding : Route transport r _))
  | upstreamGone | close => exact hkes keeps_close
  | joinTimeout topic => exact hkes (keeps_path path_joinTimeout)
  | connectTimeout => exact hkes hco
  | nativeEvent id event => exact hkes (keeps_path (path_nativeEvent hrs.sound.topics))

theorem Placed.owns (h : Placed s) (hqu : s.Quiet) : s.Owns := by
  refine ⟨h.sound.owned_nodup, h.sound.listeners_nodup, fun id => (h.sound.owned id).trans ?_, h.sound.listeners⟩
  constructor
  · rintro ⟨holder, hhe⟩
    cases holder with
    | channel topic =>
      obtain ⟨c, hc, hid⟩ := hhe
      exact ⟨topic, c, hc, hid⟩
    | start generation =>
      obtain ⟨start, hsta, _, hcr⟩ := hhe
      obtain ⟨ok, hse⟩ := hqu start hsta
      rw [hse] at hcr
      cases hcr
  · rintro ⟨topic, c, hc, hid⟩
    exact ⟨.channel topic, c, hc, hid⟩

end Session

/-! ## 中継の全体 -/

variable {transports : Nat → Transport} {p : Proxy} {s s' : Session}

structure Balanced (p : Proxy) : Prop where
  placed : ∀ s ∈ p.sessions, s.Placed
  counts : ∀ ref, p.counts ref = p.sessions.countP (·.boundTo ref)
  bounded : ∀ ref, p.counts ref ≤ maxConnectionsPerProject

theorem applyCount_release {counts ref ref'} :
    applyCount counts (.release ref) ref' = if ref' = ref then counts ref - 1 else counts ref' := by
  simp only [applyCount]
  refine if_congr Iff.rfl ?_ rfl
  split
  · rfl
  · omega

theorem applyCounts {counts r} (h : Session.Counted counts r s') (hr : r.counting = [])
    (hpo : ∀ ref, r.boundTo ref = true → 0 < counts ref) (hbo : ∀ ref, counts ref ≤ maxConnectionsPerProject) (ref) :
    s'.counting.foldl applyCount counts ref + (if r.boundTo ref then 1 else 0) = counts ref + (if s'.boundTo ref then 1 else 0) ∧
      s'.counting.foldl applyCount counts ref ≤ maxConnectionsPerProject := by
  have hle := hbo ref
  cases h with
  | kept hproject hcalls =>
    rcases hcalls with ⟨hcl, hcou⟩ | ⟨hope, hcl, hcou⟩
    · have hsa : s'.boundTo ref = r.boundTo ref := by rw [Session.boundTo, Session.boundTo, hproject, hcl]
      rw [hcou, hr, hsa]
      exact ⟨rfl, hle⟩
    · have hgo : s'.boundTo ref = false := by rw [Session.boundTo, hcl]; simp
      rw [hcou, hr, hgo]
      cases hbn : r.projectRef with
      | none =>
        have hfr : r.boundTo ref = false := by rw [Session.boundTo, hbn]; simp
        rw [hfr]
        exact ⟨rfl, hle⟩
      | some bound =>
        simp only [Option.map_some, Option.toList_some, nil_append, foldl_cons, foldl_nil, applyCount_release]
        by_cases href : ref = bound
        · grind [Session.boundTo]
        · grind [Session.boundTo]
  | bound bound hs hcount hs' hcalls =>
    have hfr : r.boundTo ref = false := by rw [Session.boundTo, hs]; simp
    rw [hfr]
    rcases hcalls with ⟨hope, hcou⟩ | ⟨hcl, hcou⟩
    · rw [hcou, hr]
      simp only [nil_append, foldl_cons, foldl_nil, applyCount]
      by_cases href : ref = bound
      · grind [Session.boundTo]
      · grind [Session.boundTo]
    · have hgo : s'.boundTo ref = false := by rw [Session.boundTo, hcl]; simp
      rw [hcou, hr, hgo]
      simp only [nil_append, foldl_cons, foldl_nil, applyCount_release]
      by_cases href : ref = bound
      · subst href
        rw [if_pos rfl]
        simp only [applyCount, if_true, Nat.add_sub_cancel]
        exact ⟨trivial, hle⟩
      · rw [if_neg href]
        simp only [applyCount, if_neg href]
        exact ⟨trivial, hle⟩

theorem balanced_initial : Balanced .initial :=
  ⟨fun _ hs => (nomatch hs), fun _ => rfl, fun _ => Nat.zero_le _⟩

theorem Balanced.step (h : Balanced p) (e) : Balanced (proxyStep transports p e) := by
  cases e with
  | connect =>
    refine ⟨fun s hs => ?_, fun ref => ?_, h.bounded⟩
    · rcases mem_append.mp hs with hs | hs
      · exact h.placed s hs
      · rw [mem_singleton.mp hs]
        exact Session.placed_initial
    · show p.counts ref = (p.sessions ++ [Session.initial]).countP (·.boundTo ref)
      rw [countP_append, h.counts]
      rfl
  | session i e =>
    simp only [proxyStep]
    split
    · exact h
    · rename_i s hs
      have hmem := mem_of_getElem? hs
      obtain ⟨hpl, hcn⟩ := Session.sessionStep_spec (transports i) p.counts e (h.placed s hmem)
      have hpo : ∀ ref, s.boundTo ref = true → 0 < p.counts ref := by
        intro ref hbn
        rw [h.counts, countP_pos_iff]
        exact ⟨s, hmem, hbn⟩
      have hcos := applyCounts hcn rfl hpo h.bounded
      refine ⟨forall_mem_set h.placed hpl, fun ref => ?_, fun ref => (hcos ref).2⟩
      have hset := countP_set_add (p := fun s : Session => s.boundTo ref) (b := sessionStep (transports i) p.counts s e) hs
      have hth : _ + (if s.boundTo ref then 1 else 0) = _ := (hcos ref).1
      rw [h.counts] at hth
      dsimp only at hset ⊢
      omega

theorem balanced_run (transports events) : Balanced (run (proxyStep transports) .initial events) :=
  run_invariant (fun _ e h => h.step e) balanced_initial

end Supacloud.RealtimeProxy
