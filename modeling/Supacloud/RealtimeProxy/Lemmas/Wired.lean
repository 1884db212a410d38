import Supacloud.RealtimeProxy.Lemmas.Accounts
import Supacloud.RealtimeProxy.Lemmas.Service

/-!
# 札の移り変わり

検査が認めた札は、バックエンドに渡してある。
-/

namespace Supacloud.RealtimeProxy

open Contracts (JsString)

open Library Session Wired Option

namespace Session

variable {transport : Transport} {s s' s'' : Session} {topic : JsString} {c c' channel channel' : Channel} {frame : Frame}
  {message : PhoenixMessage}

/-! ## 札に触れない動き -/

structure Primed (s : Session) : Prop where
  ready : ∀ topic c, s.channel topic = some c → c.native = true → c.nativeId = none → c.ready ≠ some true
  unanswered : ∀ topic c, s.channel topic = some c → c.native = true → c.nativeId = none →
    ∀ r ∈ s.refreshes, r.generation = c.generation → r.allowed ≠ some true
  starts : ∀ start ∈ s.starts, ∀ topic c, s.channel topic = some c → c.generation = start.generation → c.native = true
  settled : ∀ start ∈ s.starts, start.stage = .settled true → ∀ topic c, s.channel topic = some c →
      c.generation = start.generation → c.nativeId ≠ none

structure Alike (c c' : Channel) : Prop where
  generation : c'.generation = c.generation
  native : c'.native = c.native
  nativeId : c'.nativeId = c.nativeId

structure Kept (c c' : Channel) : Prop extends Alike c c' where
  refreshing : c'.refreshing = false → c.refreshing = false
  version : c.refreshVersion ≤ c'.refreshVersion

structure Waited (r r' : Refresh) : Prop where
  message : r'.message = r.message
  generation : r'.generation = r.generation
  version : r'.version = r.version
  token : r'.token = r.token
  allowed : r.allowed = some true

structure Tracks (s s' : Session) : Prop where
  generations : s.generations ≤ s'.generations
  lastId : s'.lastId = s.lastId
  channels : ∀ topic c', s'.channel topic = some c' → (∃ c, s.channel topic = some c ∧ Kept c c') ∨
      (s.generations ≤ c'.generation ∧ c'.nativeId = none)
  refreshes : ∀ r' ∈ s'.refreshes, r'.allowed = some true → ∃ r ∈ s.refreshes, Waited r r'
  tame : Tame s s'

theorem Kept.refl : Kept c c := ⟨⟨rfl, rfl, rfl⟩, id, le_refl _⟩

theorem Kept.trans (h : Kept c c') (h' : Kept c' channel) : Kept c channel :=
  ⟨⟨h'.generation.trans h.generation, h'.native.trans h.native, h'.nativeId.trans h.nativeId⟩,
    fun hr => h.refreshing (h'.refreshing hr), h.version.trans h'.version⟩

theorem Waited.trans {r r' r''} (h : Waited r r') (h' : Waited r' r'') : Waited r r'' :=
  ⟨h'.message.trans h.message, h'.generation.trans h.generation, h'.version.trans h.version, h'.token.trans h.token, h.allowed⟩

theorem waited_self {r} (h : r.allowed = some true) : Waited r r := ⟨rfl, rfl, rfl, rfl, h⟩

theorem Tracks.trans (h : Tracks s s') (h' : Tracks s' s'') : Tracks s s'' := by
  refine ⟨h.generations.trans h'.generations, h'.lastId.trans h.lastId, ?_, ?_,
      fun id token hcal => h.tame id token (h'.tame id token hcal)⟩
  · intro topic c'' hc''
    rcases h'.channels topic c'' hc'' with ⟨c', hc', hke'⟩ | ⟨hgn, hna⟩
    · rcases h.channels topic c' hc' with ⟨c, hc, hke⟩ | ⟨hgn, hna⟩
      · exact .inl ⟨c, hc, hke.trans hke'⟩
      · exact .inr ⟨hke'.generation ▸ hgn, hke'.nativeId.trans hna⟩
    · exact .inr ⟨h.generations.trans hgn, hna⟩
  · intro r'' hr'' hal
    obtain ⟨r', hr', hwa'⟩ := h'.refreshes r'' hr'' hal
    obtain ⟨r, hr, hwa⟩ := h.refreshes r' hr' hwa'.allowed
    exact ⟨r, hr, hwa.trans hwa'⟩

theorem Primed.narrow (h : Primed s) (hchs : ∀ topic c, s'.channel topic = some c → s.channel topic = some c)
    (hsts : ∀ start' ∈ s'.starts, ∃ start ∈ s.starts, start'.generation = start.generation ∧
    (start'.stage = .settled true → start.stage = .settled true))
    (hres : ∀ r' ∈ s'.refreshes, r'.allowed = some true → ∃ r ∈ s.refreshes, Waited r r') : Primed s' := by
  refine ⟨fun topic c hc => h.ready topic c (hchs topic c hc), ?_, ?_, ?_⟩
  · intro topic c hc hna hid r' hr' hgn hal
    obtain ⟨r, hr, hwa⟩ := hres r' hr' hal
    exact h.unanswered topic c (hchs topic c hc) hna hid r hr (hwa.generation.symm.trans hgn) hwa.allowed
  · grind [h.starts]
  · grind [h.settled]

theorem tracks_narrow (hges : s'.generations = s.generations) (hla : s'.lastId = s.lastId)
    (hchs : ∀ topic c, s'.channel topic = some c → s.channel topic = some c)
    (hres : ∀ r' ∈ s'.refreshes, r'.allowed = some true → ∃ r ∈ s.refreshes, Waited r r')
    (htm : Tame s s') : Tracks s s' :=
  ⟨hges.ge, hla, fun topic c hc => .inl ⟨c, hchs topic c hc, .refl⟩, hres, htm⟩

def Calm (s s' : Session) : Prop := Sound s → Primed s → Sound s' ∧ Primed s' ∧ Tracks s s'

theorem Calm.trans (h : Calm s s') (h' : Calm s' s'') : Calm s s'' := by
  intro hs hp
  obtain ⟨hs', hp', htrs⟩ := h hs hp
  obtain ⟨hs'', hp'', htr'⟩ := h' hs' hp'
  exact ⟨hs'', hp'', htrs.trans htr'⟩

section

variable (hso : Sound s → Sound s') (hges : s'.generations = s.generations) (hla : s'.lastId = s.lastId)

include hso hges hla

theorem calm_narrow (hchs : Sound s → ∀ topic c, s'.channel topic = some c → s.channel topic = some c)
    (hsts : ∀ start' ∈ s'.starts, ∃ start ∈ s.starts, start'.generation = start.generation ∧
    (start'.stage = .settled true → start.stage = .settled true))
    (hres : ∀ r' ∈ s'.refreshes, r'.allowed = some true → ∃ r ∈ s.refreshes, Waited r r') (htm : Tame s s') : Calm s s' :=
  fun hs hp => ⟨hso hs, hp.narrow (hchs hs) hsts hres, tracks_narrow hges hla (hchs hs) hres htm⟩

theorem calm_channels (hchs : Sound s → ∀ topic c, s'.channel topic = some c → s.channel topic = some c)
    (hsts : s'.starts = s.starts)
    (hres : s'.refreshes = s.refreshes) (htm : Tame s s') : Calm s s' := by
  refine calm_narrow hso hges hla hchs (fun start hst => ?_) (fun r hr hal => ?_) htm
  · exact ⟨start, hsts ▸ hst, rfl, id⟩
  · exact ⟨r, hres ▸ hr, waited_self hal⟩

theorem calm_congr (hchs : s'.channels = s.channels) (hsts : s'.starts = s.starts) (hres : s'.refreshes = s.refreshes)
    (htm : Tame s s') : Calm s s' := by
  refine calm_channels hso hges hla (fun _ topic c hc => ?_) hsts hres htm
  rw [channel, ← hchs]
  exact hc

end

theorem tame_refl : Tame s s := fun _ _ => id

theorem Calm.refl : Calm s s := calm_congr id rfl rfl rfl rfl rfl tame_refl

theorem tame_remove : Tame s (s.removeChannel topic) := by
  intro id token hcal
  unfold removeChannel at hcal
  split at hcal
  · exact hcal
  · unfold release at hcal
    split at hcal
    · simpa using hcal
    · exact hcal

theorem calm_remove : Calm s (s.removeChannel topic) := by
  obtain ⟨_, _, _, heq⟩ := removeChannel_eq s topic
  refine calm_channels (fun h => h.remove topic) ?_ ?_ (fun hs topic' c hc => ?_) ?_ ?_ tame_remove
  · rw [heq]
  · rw [heq]
  · rw [channel_remove hs.keys] at hc
    split at hc
    · cases hc
    · exact hc
  · rw [heq]
  · rw [heq]

theorem tame_removeAll (topics : List JsString) : Tame s (topics.foldl removeChannel s) := by
  induction topics generalizing s with
  | nil => exact tame_refl
  | cons topic topics ih => exact fun id token hcal => tame_remove id token (ih id token hcal)

theorem tame_close : Tame s s.close := by
  have hall : Tame s ((s.channels.map (·.1)).foldl removeChannel { s with closed := true, connectionTimer := false }) :=
    tame_removeAll (s := { s with closed := true, connectionTimer := false }) _
  unfold close
  split
  · exact tame_refl
  · dsimp only
    split
    · exact hall
    · exact hall

theorem calm_close : Calm s s.close := by
  cases hcl : s.closed with
  | true =>
    rw [close_of_closed hcl]
    exact .refl
  | false =>
    have htm : Tame s s.close := tame_close
    have hso : Sound s → Sound s.close := fun h => h.close
    obtain ⟨_, _, _, heq⟩ := close_eq hcl
    rw [heq] at htm hso ⊢
    exact calm_channels hso rfl rfl (fun _ _ _ hc => (nomatch hc)) rfl rfl htm

theorem calm_close_calls (n) : Calm s (close { s with calls := n }) := by
  have htw : Calm s { s with calls := n } := calm_congr (fun h => h.congr rfl) rfl rfl rfl rfl rfl tame_refl
  exact htw.trans calm_close

theorem calm_sendFrame (hope : s.Deliverable frame) : Calm s (s.sendFrame transport frame) := by
  have hso : Sound s → Sound (s.sendFrame transport frame) := fun h => h.sendFrame hope
  rcases sendFrame_cases transport s frame with ⟨n, heq⟩ | ⟨_, heq⟩
  · rw [heq]
    exact calm_close_calls n
  · rw [heq] at hso ⊢
    exact calm_congr hso rfl rfl rfl rfl rfl tame_refl

theorem calm_forward {topic} : Calm s (s.forward transport frame topic) := by
  rcases forward_cases transport s frame topic with ⟨n, heq⟩ | ⟨_, _, heq⟩ | ⟨_, _, heq⟩ | ⟨_, heq⟩
  · rw [heq]
    exact calm_close_calls n
  · rw [heq]
    exact calm_congr (fun h => h.congr rfl) rfl rfl rfl rfl rfl tame_refl
  · rw [heq]
    exact calm_congr (fun h => h.congr rfl) rfl rfl rfl rfl rfl tame_refl
  · rw [heq]
    exact .refl

theorem kept_setChannel (hc : s.channel topic = some channel) (hke : Kept channel channel') :
    ∀ topic' c', (s.setChannel topic channel').channel topic' = some c' → ∃ c, s.channel topic' = some c ∧ Kept c c' := by
  intro topic' c' hc'
  rw [channel_set hc] at hc'
  split at hc'
  · rename_i heq
    subst heq
    cases hc'
    exact ⟨channel, hc, hke⟩
  · exact ⟨c', hc', .refl⟩

theorem Primed.set (h : Primed s) (hc : s.channel topic = some channel) (hali : Alike channel channel')
    (hrd : channel'.native = true → channel'.nativeId = none → channel'.ready ≠ some true) :
    Primed (s.setChannel topic channel') := by
  have hba : ∀ topic' c', (s.setChannel topic channel').channel topic' = some c' → ∃ c, s.channel topic' = some c ∧ Alike c c' := by
    intro topic' c' hc'
    rw [channel_set hc] at hc'
    split at hc'
    · rename_i heq
      subst heq
      cases hc'
      exact ⟨channel, hc, hali⟩
    · exact ⟨c', hc', rfl, rfl, rfl⟩
  refine ⟨?_, ?_, ?_, ?_⟩
  · grind [h.ready, channel_set]
  · intro topic' c' hc' hna hid r hr hgn
    obtain ⟨c, hc, hali⟩ := hba topic' c' hc'
    exact h.unanswered topic' c hc (hali.native.symm.trans hna) (hali.nativeId.symm.trans hid) r hr (hgn.trans hali.generation)
  · intro start hst topic' c' hc' hgn
    obtain ⟨c, hc, hali⟩ := hba topic' c' hc'
    exact hali.native.trans (h.starts start hst topic' c hc (hali.generation.symm.trans hgn))
  · intro start hst hstg topic' c' hc' hgn
    obtain ⟨c, hc, hali⟩ := hba topic' c' hc'
    rw [hali.nativeId]
    exact h.settled start hst hstg topic' c hc (hali.generation.symm.trans hgn)

theorem tracks_set (hc : s.channel topic = some channel) (hke : Kept channel channel') : Tracks s (s.setChannel topic channel') :=
  ⟨le_refl _, rfl, fun topic' c' hc' => .inl (kept_setChannel hc hke topic' c' hc'), fun r hr hal => ⟨r, hr, waited_self hal⟩,
    tame_refl⟩

theorem calm_add (hf : s.Fresh channel) : Calm s (s.addChannel channel) := by
  intro hs hp
  have hch : ∀ topic', (s.addChannel channel).channel topic' = if topic' = channel.join.topic then some channel else s.channel
      topic' :=
    fun topic' => lookup_concat_key hs.keys hf.topic
  have hba : ∀ {topic' c}, (s.addChannel channel).channel topic' = some c → c = channel ∨ s.channel topic' = some c := by
    intro topic' c hc
    rw [hch] at hc
    split at hc
    · cases hc
      exact .inl rfl
    · exact .inr hc
  have hsts : ∀ start ∈ (s.addChannel channel).starts,
      start ∈ s.starts ∨ (start.generation = s.generations ∧ start.stage = .calling ∧ channel.native = true) := by
    intro start hst
    unfold addChannel at hst
    dsimp only at hst
    split at hst
    · grind [hf.generation]
    · exact .inl hst
  have hlt : ∀ {topic' c}, s.channel topic' = some c → c.generation ≠ s.generations :=
      fun hc => Nat.ne_of_lt (hs.generation_lt _ _ hc)
  refine ⟨hs.add hf, ⟨?_, ?_, ?_, ?_⟩, ⟨Nat.le_succ _, rfl, ?_, fun r hr hal => ⟨r, hr, waited_self hal⟩, tame_refl⟩⟩
  · grind [hf.ready, hp.ready]
  · intro topic' c hc hna hid r hr hgn
    rcases hba hc with rfl | hold
    · exact absurd (hgn.trans hf.generation) (Nat.ne_of_lt (hs.refresh_lt r hr))
    · exact hp.unanswered topic' c hold hna hid r hr hgn
  · intro start hst topic' c hc hgn
    rcases hba hc with rfl | hold
    · rcases hsts start hst with hmem | ⟨_, _, hna⟩
      · exact absurd (hgn.symm.trans hf.generation) (Nat.ne_of_lt (hs.start_lt start hmem))
      · exact hna
    · rcases hsts start hst with hmem | ⟨hnew, _, _⟩
      · exact hp.starts start hmem topic' c hold hgn
      · exact absurd (hgn.trans hnew) (hlt hold)
  · intro start hst hstg topic' c hc hgn
    rcases hsts start hst with hmem | ⟨_, hca, _⟩
    · rcases hba hc with rfl | hold
      · exact absurd (hgn.symm.trans hf.generation) (Nat.ne_of_lt (hs.start_lt start hmem))
      · exact hp.settled start hmem hstg topic' c hold hgn
    · rw [hca] at hstg
      cases hstg
  · intro topic' c hc
    rcases hba hc with rfl | hold
    · exact .inr ⟨hf.generation.ge, hf.nativeId⟩
    · exact .inl ⟨c, hold, .refl⟩

theorem Move.calm (hmo : Move transport s s') : Calm s s' := by
  have hso : Sound s → Sound s' := fun h => h.move hmo
  cases hmo with
  | tweak hcor _ _ htm => grind [core, calm_congr]
  | close => exact calm_close
  | forward => exact calm_forward
  | sendFrame _ hope => exact calm_sendFrame hope
  | remove => exact calm_remove
  | drop | acknowledge | awaitAck | dropAck => exact calm_congr hso rfl rfl rfl rfl rfl tame_refl
  | update topic channel channel' hu hpla =>
    have hke : Kept channel channel' := ⟨⟨hu.generation, hu.native, hu.nativeId⟩, fun hr => hpla.refreshing ▸ hr, hpla.version.ge⟩
    intro hs hp
    refine ⟨hso hs, hp.set hu.current hke.toAlike fun hna hid => ?_, tracks_set hu.current hke⟩
    rw [hpla.ready]
    exact hp.ready topic channel hu.current (hu.native.symm.trans hna) (hu.nativeId.symm.trans hid)
  | ready topic channel ok hc hok =>
    have hke : Kept channel { channel with ready := some ok } := ⟨⟨rfl, rfl, rfl⟩, id, le_refl _⟩
    intro hs hp
    refine ⟨hso hs, hp.set hc hke.toAlike fun hna hid heq => ?_, tracks_set hc hke⟩
    obtain ⟨start, hst, hgn, hstg⟩ := hok (some.inj heq)
    exact hp.settled start hst hstg topic channel hc hgn.symm hid
  | add channel hf => exact calm_add hf
  | resolve i start hst =>
    refine calm_narrow hso rfl rfl (fun _ _ _ => id) (fun start' hst' => ?_) (fun r hr hal => ⟨r, hr, waited_self hal⟩) tame_refl
    rcases List.mem_or_eq_of_mem_set hst' with hold | rfl
    · exact ⟨start', hold, rfl, id⟩
    · exact ⟨start, List.mem_of_getElem? hst, rfl, id⟩
  | deny i refresh hre =>
    refine calm_narrow hso rfl rfl (fun _ _ _ => id) (fun start hst => ⟨start, hst, rfl, id⟩) (fun r' hr' hal => ?_) tame_refl
    rcases List.mem_or_eq_of_mem_set hr' with hold | rfl
    · exact ⟨r', hold, waited_self hal⟩
    · cases hal
  | settle i =>
    exact calm_narrow hso rfl rfl (fun _ _ _ => id) (fun start hst => ⟨start, hst, rfl, id⟩)
      (fun r hr hal => ⟨r, List.mem_of_mem_eraseIdx hr, waited_self hal⟩) tame_refl

theorem calm_path (hpa : Path transport s s') : Calm s s' := by
  induction hpa with
  | refl => exact .refl
  | tail _ hmo ih => exact ih.trans hmo.calm

theorem calm_awaitRefresh {stamp replaying} {token : JsString} (hc : s.channel message.topic = some c) :
    Calm s (s.awaitRefresh c message token stamp replaying) := by
  intro hs hp
  have hke : Kept c { c with refreshVersion := c.refreshVersion + 1, refreshing := true } :=
      ⟨⟨rfl, rfl, rfl⟩, fun hr => (nomatch hr), Nat.le_succ _⟩
  have hset := hp.set hc hke.toAlike fun hna hid => hp.ready message.topic c hc hna hid
  have hmem : ∀ r' ∈ (s.awaitRefresh c message token stamp replaying).refreshes, r'.allowed = some true →
      ∃ r ∈ s.refreshes, Waited r r' := by
    intro r' hr' hal
    rcases List.mem_append.mp hr' with hold | hnew
    · exact ⟨r', hold, waited_self hal⟩
    · rw [List.mem_singleton.mp hnew] at hal
      cases hal
  refine ⟨hs.awaitRefresh hc token stamp replaying, ?_, ?_⟩
  · exact hset.narrow (fun _ _ => id) (fun start hst => ⟨start, hst, rfl, id⟩) hmem
  · exact (tracks_set hc hke).trans (tracks_narrow rfl rfl (fun _ _ => id) hmem tame_refl)

theorem Act.calm (hact : Act transport s s') : Calm s s' := by
  cases hact with
  | move hmo => exact hmo.calm
  | forward => exact calm_forward
  | awaitRefresh c message token stamp replaying hc => exact calm_awaitRefresh hc
  | queue hcor _ _ _ hbc =>
    have hso : Sound s → Sound s' := fun h => h.congr hcor
    simp only [core, Prod.mk.injEq] at hcor
    obtain ⟨_, _, hchs, hsts, hres, hges, _, hla, _⟩ := hcor
    exact calm_congr hso hges hla hchs hsts hres fun id token hcal => hbc ▸ hcal

theorem calm_route (hro : Route transport s s') : Calm s s' := by
  induction hro with
  | refl => exact .refl
  | tail _ hact ih => exact ih.trans hact.calm

theorem calm_begin {params} : Calm s (s.begin params) := by
  have hop : ∀ opening, Calm s { s with opening } := fun _ => calm_congr (fun h => h.congr rfl) rfl rfl rfl rfl rfl tame_refl
  unfold begin
  split
  · split
    · exact (hop .done).trans calm_close
    · split
      · exact hop .done
      · exact hop _
  · exact .refl

theorem calm_bindProject (h : Placed s) {result : KeyResult} {n connected} : Calm s (s.bindProject result n connected) := by
  have hdo : Calm s { s with opening := .done } := calm_congr (fun h => h.congr rfl) rfl rfl rfl rfl rfl tame_refl
  have hsh := hdo.trans calm_close
  unfold bindProject
  split
  · rename_i params hop
    have hunb : s.projectRef = none := h.unbound (by rw [hop]; simp)
    dsimp only
    split
    · exact hdo
    · split
      · exact hsh
      · exact hsh
      · rename_i ref upstreamKey
        split
        · exact hsh
        · split
          · exact hsh
          · split
            · exact hsh
            · have hbo : ∀ {s'}, s'.core = ({ s with projectRef := some ref } : Session).core → s'.backend = s.backend →
                Calm s s' := by
                intro s' hcor hbc
                have hso : Sound s → Sound s' := fun h => (h.bind hunb).congr hcor
                simp only [core, Prod.mk.injEq] at hcor
                obtain ⟨_, _, hchs, hsts, hres, hges, _, hla, _⟩ := hcor
                exact calm_congr hso hges hla hchs hsts hres fun id token hcal => hbc ▸ hcal
              split
              · have hmid : Calm s (s.counted params ref upstreamKey n) := hbo rfl rfl
                exact hmid.trans calm_close
              · exact hbo rfl rfl
  · exact .refl

end Session

/-! ## バックエンドの札 -/

variable {transport : Transport} {visible : Nat → Nat → Nat → Bool} {s s' : Session} {t t' : Tenant}
  {accepted : List (Nat × JsString)} {id : Nat}
  {token : JsString} {P : Nat → Prop} {i : Nat}

def Held (t : Tenant) (id : Nat) (token : JsString) : Prop := ∀ array, ∀ state ∈ t.states array, state.id = id →
  state.token = some token

structure InForce (visible : Nat → Nat → Nat → Bool) (t : Tenant) (id : Nat) (token : JsString) : Prop where
  held : Held t id token
  checks : ∀ (k : Nat) (task : Task) (scan : Scan), t.tasks[k]? = some task → task.running = some scan → scan.check.stateId = id →
    visible k scan.work.offset id = true → scan.check.token = some token

structure Milder (P : Nat → Prop) (t t' : Tenant) : Prop where
  arrays : Arrays t → Arrays t'
  tasks : t'.tasks = t.tasks
  counter : t.subscriptionCounter ≤ t'.subscriptionCounter
  states : Arrays t → ∀ array, ∀ state ∈ t'.states array, P state.id → state ∈ t.states array

theorem Milder.refl : Milder P t t := ⟨id, rfl, le_refl _, fun _ _ _ h _ => h⟩

theorem Milder.trans {t''} (h : Milder P t t') (h' : Milder P t' t'') : Milder P t t'' := by
  refine ⟨fun ha => h'.arrays (h.arrays ha), h'.tasks.trans h.tasks, h.counter.trans h'.counter, ?_⟩
  intro ha array state hsta hp
  exact h.states ha array state (h'.states (h.arrays ha) array state hsta hp) hp

theorem Milder.held (h : Milder P t t') (ha : Arrays t) (hid : P id) (hhe : Held t id token) : Held t' id token := by
  rintro array state hsta rfl
  exact hhe array state (h.states ha array state hsta hid) rfl

theorem Milder.inForce (h : Milder P t t') (ha : Arrays t) (hid : P id) (hfo : InForce visible t id token) :
    InForce visible t' id token := by
  refine ⟨h.held ha hid hfo.held, ?_⟩
  rw [h.tasks]
  exact hfo.checks

theorem milder_unsubscribe {removed} : Milder P t (unsubscribeSubscription t removed) := by
  refine ⟨fun ha => (unsubscribeSubscription_inv ha).1, ?_, ?_, ?_⟩
  · unfold unsubscribeSubscription
    split
    · rfl
    · rfl
  · unfold unsubscribeSubscription
    split
    · exact le_refl _
    · exact le_refl _
  · intro ha array state hsta _
    unfold unsubscribeSubscription at hsta
    split at hsta
    · exact hsta
    · rename_i found hcu
      have hlt := ha.lt found hcu
      have hset : state ∈ ((t.arrays.set found ((t.states found).eraseIdx
          ((t.states found).findIdx (·.id == removed))))[array]?).getD [] := hsta
      rw [states_set hlt] at hset
      split at hset
      · rename_i heq
        subst heq
        exact List.mem_of_mem_eraseIdx hset
      · exact hset

theorem mem_updateToken {updated new} (ha : Arrays t) {array state}
    (hsta : state ∈ (updateSubscriptionToken t updated new).states array) :
    (state.id = updated → state.token = some new) ∧ (state.id ≠ updated → state ∈ t.states array) := by
  unfold updateSubscriptionToken at hsta
  split at hsta
  · rename_i hcu
    rw [ha.empty_of_none hcu] at hsta
    cases hsta
  · rename_i found hcu
    have hset : state ∈ ((t.arrays.set found ((t.states found).map (.withToken updated new)))[array]?).getD [] := hsta
    rw [states_set (ha.lt found hcu)] at hset
    split at hset
    · grind [SubscriptionState.withToken]
    · rename_i hne
      -- 今の配列のほかは空である
      have hth := ha.current array (List.ne_nil_of_mem hset)
      rw [hcu] at hth
      exact absurd (some.inj hth) hne

theorem milder_updateToken {updated new} : Milder (· ≠ updated) t (updateSubscriptionToken t updated new) := by
  refine ⟨fun ha => (updateSubscriptionToken_inv ha).1, ?_, ?_, fun ha array state hsta hne => (mem_updateToken ha hsta).2 hne⟩
  · unfold updateSubscriptionToken
    split
    · rfl
    · rfl
  · unfold updateSubscriptionToken
    split
    · exact le_refl _
    · exact le_refl _

theorem milder_registerIds {idMap} : Milder P t { t with idMap } :=
  ⟨fun ha => ⟨ha.distinct, ha.bounded, ha.current, ha.lt⟩, rfl, le_refl _, fun _ _ _ hsta _ => hsta⟩

theorem milder_subscribe {subscriptions skipped token} (hP : ∀ id, P id → id ≤ t.subscriptionCounter) :
    Milder P t (subscribeTenant t skipped subscriptions token) := by
  refine ⟨fun ha => (subscribeTenant_inv ha).1, ?_, ?_, ?_⟩
  · unfold subscribeTenant
    split
    · rfl
    · rfl
  · grind [subscribeTenant]
  · intro ha array state hsta hp
    have hnew : state.id ≠ t.subscriptionCounter + skipped + 1 := by
      have := hP state.id hp
      omega
    unfold subscribeTenant at hsta
    split at hsta
    · rename_i found hcu
      have hset : state ∈ ((t.arrays.set found (t.states found ++
          [⟨t.subscriptionCounter + skipped + 1, subscriptions, some token⟩]))[array]?).getD [] := hsta
      rw [states_set (ha.lt found hcu)] at hset
      split at hset
      · grind
      · exact hset
    · have hap : state ∈ ((t.arrays ++ [[⟨t.subscriptionCounter + skipped + 1, subscriptions, some token⟩]])[array]?).getD [] :=
        hsta
      rw [states_append] at hap
      rcases List.mem_append.mp hap with hold | had
      · exact hold
      · split at had
        · rw [List.mem_singleton.mp had] at hnew
          exact absurd rfl hnew
        · cases had

theorem milder_calls (calls : List BackendCall) (htm : ∀ id token, BackendCall.updateToken id token ∉ calls) :
    Milder P t (calls.foldl applyBackend t) := by
  induction calls generalizing t with
  | nil => exact .refl
  | cons call calls ih =>
    have hrt := ih (t := applyBackend t call) fun id token hmem => htm id token (List.mem_cons_of_mem _ hmem)
    refine Milder.trans ?_ hrt
    cases call with
    | unsubscribe id => exact milder_unsubscribe
    | updateToken id token => exact absurd List.mem_cons_self (htm id token)
    | registerIds id ids => exact milder_registerIds

/-! ## 接続の一歩 -/

structure Sync (visible : Nat → Nat → Nat → Bool) (s : Session) (t : Tenant) (accepted : List (Nat × JsString)) : Prop where
  sound : s.Sound
  primed : s.Primed
  arrays : Arrays t
  lastId : s.lastId ≤ t.subscriptionCounter
  accepted_lt : ∀ entry ∈ accepted, entry.1 < s.generations
  unprimed : ∀ topic c, s.channel topic = some c → c.native = true → c.nativeId = none → accepted.lookup c.generation = none
  force : ∀ topic c id token, s.channel topic = some c → c.nativeId = some id → c.refreshing = false →
      accepted.lookup c.generation = some token →
    InForce visible t id token
  due : ∀ r ∈ s.refreshes, s.Live r → r.allowed = some true → ∀ c id, s.channel r.message.topic = some c → c.nativeId = some id →
      Held t id r.token

theorem Sync.owned (h : Sync visible s t accepted) {topic c} (hc : s.channel topic = some c) (hid : c.nativeId = some id) :
    id ∈ s.owned ∧ id ≤ t.subscriptionCounter := by
  have hmem := (h.sound.owned id).mpr ⟨.channel topic, c, hc, hid⟩
  exact ⟨hmem, (h.sound.owned_le id hmem).trans h.lastId⟩

theorem Sync.milder (h : Sync visible s t accepted) (hm : Milder (· ∈ s.owned) t t') : Sync visible s t' accepted := by
  refine { h with arrays := hm.arrays h.arrays, lastId := h.lastId.trans hm.counter, force := ?_, due := ?_ }
  · grind [hm.inForce, h.arrays, h.owned, h.force]
  · grind [hm.held, h.arrays, h.owned, h.due]

theorem Sync.calm (h : Sync visible s t accepted) (hclm : s.Calm s') : Sync visible s' t accepted := by
  obtain ⟨hso, hpr, htrs⟩ := hclm h.sound h.primed
  have hfre : ∀ {c : Channel}, s.generations ≤ c.generation → accepted.lookup c.generation = none := by
    intro c hle
    refine lookup_eq_none_iff.mpr fun token hmem => ?_
    exact absurd (h.accepted_lt _ hmem) (by simpa using hle)
  refine ⟨hso, hpr, h.arrays, htrs.lastId ▸ h.lastId, fun entry hen => (h.accepted_lt entry hen).trans_le htrs.generations, ?_, ?_,
      ?_⟩
  · intro topic c' hc' hna hid
    rcases htrs.channels topic c' hc' with ⟨c, hc, hke⟩ | ⟨hgn, _⟩
    · rw [hke.generation]
      exact h.unprimed topic c hc (hke.native.symm.trans hna) (hke.nativeId.symm.trans hid)
    · exact hfre hgn
  · intro topic c' id token hc' hid hrf hlo
    rcases htrs.channels topic c' hc' with ⟨c, hc, hke⟩ | ⟨_, hno⟩
    · grind [hke.generation, h.force, hke.nativeId, hke.refreshing, id]
    · rw [hno] at hid
      cases hid
  · intro r' hr' hlv hal c' id hc' hid
    obtain ⟨r, hr, hwa⟩ := htrs.refreshes r' hr' hal
    obtain ⟨c'', hc'', hgn, hve⟩ := hlv
    cases hc'.symm.trans hc''
    rw [hwa.message] at hc'
    rcases htrs.channels _ c' hc' with ⟨c, hc, hke⟩ | ⟨hnew, _⟩
    · -- 版は戻らないので、待ちは前から有効である
      have hgen : c.generation = r.generation := by rw [← hke.generation, hgn, hwa.generation]
      have hle := (h.sound.refreshing r hr r.message.topic c hc hgen).1
      have hge := hke.version
      rw [hve, hwa.version] at hge
      rw [hwa.token]
      exact h.due r hr ⟨c, hc, hgen, Nat.le_antisymm hge hle⟩ hwa.allowed c id hc (hke.nativeId.symm.trans hid)
    · grind [h.sound.refresh_lt, hwa.generation]

/-! ## 札の検査と受け入れ、購読の始まり -/

theorem Milder.mono {Q} (h : Milder P t t') (hPQ : ∀ id, Q id → P id) : Milder Q t t' :=
  ⟨h.arrays, h.tasks, h.counter, fun ha array state hsta hq => h.states ha array state hsta (hPQ _ hq)⟩

section

variable (h : Sync visible s t accepted)

include h

theorem Sync.step (hclm : s.Calm s') (hbc : s.backend = []) : Sync visible s' (s'.backend.foldl applyBackend t) accepted := by
  obtain ⟨_, _, htrs⟩ := hclm h.sound h.primed
  refine (h.calm hclm).milder (milder_calls _ fun id token hcal => ?_)
  have hbe := htrs.tame id token hcal
  rw [hbc] at hbe
  cases hbe

theorem Sync.approve {refresh channel} (backend)
    (hre : s.refreshes[i]? = some refresh) (hch : s.channel refresh.message.topic = some channel)
    (hgn : channel.generation = refresh.generation) (hrd : channel.ready = some true)
    (hve : channel.refreshVersion = refresh.version)
    (hm : Milder (fun id => channel.nativeId ≠ some id) t t') (hhe : ∀ id, channel.nativeId = some id → Held t' id refresh.token) :
    Sync visible { s with backend, refreshes := s.refreshes.set i { refresh with allowed := some true } } t' accepted := by
  have hmem := List.mem_of_getElem? hre
  have hsa : ∀ {topic c id}, s.channel topic = some c → c.nativeId = some id → channel.nativeId = some id →
      topic = refresh.message.topic ∧ c = channel := by
    intro topic c id hc hid hna
    have hho := h.sound.single (.channel topic) (.channel refresh.message.topic) id ⟨c, hc, hid⟩ ⟨channel, hch, hna⟩
    cases hho
    exact ⟨rfl, some.inj (hc.symm.trans hch)⟩
  have hso : Sound { s with backend, refreshes := s.refreshes.set i { refresh with allowed := some true } } :=
    (h.sound.answered hre true).congr rfl
  refine ⟨hso, ⟨h.primed.ready, ?_, h.primed.starts, h.primed.settled⟩, hm.arrays h.arrays, h.lastId.trans hm.counter,
      h.accepted_lt, h.unprimed, ?_, ?_⟩
  · intro topic c hc hna hid r hr hgen hal
    rcases List.mem_or_eq_of_mem_set hr with hold | rfl
    · exact h.primed.unanswered topic c hc hna hid r hold hgen hal
    · have hto := h.sound.unique topic _ c channel hc hch (hgen.symm.trans hgn.symm)
      subst hto
      cases hc.symm.trans hch
      exact h.primed.ready _ channel hch hna hid hrd
  · intro topic c id token hc hid hrf hlo
    by_cases hna : channel.nativeId = some id
    · obtain ⟨_, rfl⟩ := hsa hc hid hna
      have htr := (h.sound.refreshing refresh hmem _ c hch hgn).2 hve.symm
      rw [hrf] at htr
      cases htr
    · exact hm.inForce h.arrays hna (h.force topic c id token hc hid hrf hlo)
  · intro r hr hlv hal c id hc hid
    by_cases hna : channel.nativeId = some id
    · obtain ⟨_, rfl⟩ := hsa hc hid hna
      rcases List.mem_or_eq_of_mem_set hr with hold | rfl
      · obtain ⟨c', hc', hg, hv⟩ := hlv
        cases hc.symm.trans hc'
        have heq : r = refresh := by
          refine List.inj_on_of_nodup_map h.sound.versions hold hmem ?_
          rw [← hg, ← hv, hgn, hve]
        rw [heq]
        exact hhe id hna
      · exact hhe id hna
    · rcases List.mem_or_eq_of_mem_set hr with hold | rfl
      · exact hm.held h.arrays hna (h.due r hold hlv hal c id hc hid)
      · exact absurd (hid ▸ congrArg Channel.nativeId (some.inj (hch.symm.trans hc))) hna

theorem Sync.refreshChecked (hbc : s.backend = []) (transport : Transport) (i) :
    Sync visible (s.refreshChecked i) ((s.refreshChecked i).backend.foldl applyBackend t) accepted := by
  rcases refreshChecked_cases transport s i with hpa | ⟨refresh, channel, hre, hcu, hrd, hve, ⟨hno, heq⟩ | ⟨id, hid, heq⟩⟩
  · exact h.step (calm_path hpa) hbc
  · obtain ⟨_, hch, hgn⟩ := current_some hcu
    rw [heq]
    have hcas : s.backend.foldl applyBackend t = t := by rw [hbc]; rfl
    show Sync visible _ (s.backend.foldl applyBackend t) accepted
    rw [hcas]
    exact h.approve s.backend hre hch hgn hrd hve .refl fun id hid => by rw [hno] at hid; cases hid
  · obtain ⟨_, hch, hgn⟩ := current_some hcu
    rw [heq]
    have hcas : (s.backend ++ [BackendCall.updateToken id refresh.token]).foldl applyBackend t = updateSubscriptionToken t id
        refresh.token := by
      rw [hbc]
      rfl
    show Sync visible _ ((s.backend ++ [BackendCall.updateToken id refresh.token]).foldl applyBackend t) accepted
    rw [hcas]
    refine h.approve _ hre hch hgn hrd hve ?_ ?_
    · refine milder_updateToken.mono fun id' hne heq => hne ?_
      rw [heq, hid]
    · intro id' hid'
      cases hid.symm.trans hid'
      exact fun array state hsta => (mem_updateToken h.arrays hsta).1

theorem Sync.adopt {id start channel} (hst : s.starts[i]? = some start)
    (hstg : start.stage = .created id) (hch : s.channel start.topic = some channel) (hgn : channel.generation = start.generation) :
    Sync visible (s.adopted i id start channel) t accepted := by
  have hmem := List.mem_of_getElem? hst
  have hna : channel.native = true := h.primed.starts start hmem start.topic channel hch hgn
  have hno : channel.nativeId = none := h.sound.waiting start hmem (fun ok => by rw [hstg]; simp) start.topic channel hch hgn
  have hunp := h.unprimed start.topic channel hch hna hno
  -- 今のチャネルは、始まったものか、元のものである
  have hba : ∀ {topic c}, (s.setChannel start.topic { channel with nativeId := some id }).channel topic = some c →
      (topic = start.topic ∧ c = { channel with nativeId := some id }) ∨ s.channel topic = some c := by
    intro topic c hc
    rw [channel_set hch] at hc
    split at hc
    · cases hc
      exact .inl ⟨‹_›, rfl⟩
    · exact .inr hc
  have hsts : ∀ x ∈ s.starts.set i { start with stage := .settled true }, x ∈ s.starts ∨
      x = { start with stage := .settled true } :=
    fun x hx => List.mem_or_eq_of_mem_set hx
  refine ⟨h.sound.adopt hst hstg hch hgn, ⟨?_, ?_, ?_, ?_⟩, h.arrays, h.lastId, h.accepted_lt, ?_, ?_, ?_⟩
  · intro topic c hc hn hid
    rcases hba hc with ⟨_, rfl⟩ | hold
    · cases hid
    · exact h.primed.ready topic c hold hn hid
  · intro topic c hc hn hid
    rcases hba hc with ⟨_, rfl⟩ | hold
    · cases hid
    · exact h.primed.unanswered topic c hold hn hid
  · intro x hx topic c hc hg
    have hgen : ∃ x' ∈ s.starts, x'.generation = x.generation := by
      rcases hsts x hx with hold | rfl
      · exact ⟨x, hold, rfl⟩
      · exact ⟨start, hmem, rfl⟩
    obtain ⟨x', hx', hg'⟩ := hgen
    rcases hba hc with ⟨_, rfl⟩ | hold
    · exact hna
    · exact h.primed.starts x' hx' topic c hold (hg.trans hg'.symm)
  · intro x hx hse topic c hc hg
    rcases hba hc with ⟨_, rfl⟩ | hold
    · simp
    · rcases hsts x hx with hx | rfl
      · exact h.primed.settled x hx hse topic c hold hg
      · -- 同じ世代のチャネルは、始まったチャネルである
        have hto := h.sound.unique topic start.topic c channel hold hch (hg.trans hgn.symm)
        have hth : (s.setChannel start.topic { channel with nativeId := some id }).channel topic = some c := hc
        rw [channel_set hch, if_pos hto] at hth
        cases hth
        simp
  · intro topic c hc hn hid
    rcases hba hc with ⟨_, rfl⟩ | hold
    · cases hid
    · exact h.unprimed topic c hold hn hid
  · intro topic c id' token hc hid hrf hlo
    rcases hba hc with ⟨_, rfl⟩ | hold
    · rw [hunp] at hlo
      cases hlo
    · exact h.force topic c id' token hold hid hrf hlo
  · intro r hr hlv hal c id' hc hid
    rcases hba hc with ⟨hto, rfl⟩ | hold
    · obtain ⟨c', hc', hg, _⟩ := hlv
      cases hc.symm.trans hc'
      exact absurd hal (h.primed.unanswered start.topic channel hch hna hno r hr hg.symm)
    · obtain ⟨c', hc', hg, hv⟩ := hlv
      cases hc.symm.trans hc'
      exact h.due r hr ⟨c, hold, hg, hv⟩ hal c id' hold hid

end

theorem calm_start {start start'} (hso : s.Sound → s'.Sound) (hst : s.starts[i]? = some start)
    (hsts : s'.starts = s.starts.set i start') (hgn : start'.generation = start.generation) (hstg : start'.stage ≠ .settled true)
    (hchs : s'.channels = s.channels) (hres : s'.refreshes = s.refreshes) (hges : s'.generations = s.generations)
    (hla : s'.lastId = s.lastId) (htm : s.Tame s') : s.Calm s' := by
  refine calm_narrow hso hges hla (fun _ topic c hc => ?_) (fun x hx => ?_) (fun r hr hal => ?_) htm
  · rw [channel, ← hchs]
    exact hc
  · grind
  · rw [hres] at hr
    exact ⟨r, hr, waited_self hal⟩

theorem Sync.startSettled (h : Sync visible s t accepted) (hbc : s.backend = []) (i) :
    Sync visible (s.startSettled i) ((s.startSettled i).backend.foldl applyBackend t) accepted := by
  have hso : s.Sound → (s.startSettled i).Sound := fun hs => hs.startSettled i
  unfold Session.startSettled at hso ⊢
  split
  · exact h.step .refl hbc
  · rename_i start hst
    rw [hst] at hso
    split
    · exact h.step .refl hbc
    · rename_i hstg
      simp only [hstg] at hso
      exact h.step (calm_start hso hst rfl rfl (by simp) rfl rfl rfl rfl tame_refl) hbc
    · rename_i id hstg
      simp only [hstg] at hso
      split
      · rename_i hcu
        rw [hcu] at hso
        refine h.step (calm_start hso hst rfl rfl (by simp) rfl rfl rfl rfl fun id' token hcal => ?_) hbc
        simpa using hcal
      · rename_i channel hcu
        obtain ⟨_, hch, hgn⟩ := current_some hcu
        have hcas : s.backend.foldl applyBackend t = t := by rw [hbc]; rfl
        show Sync visible _ (s.backend.foldl applyBackend t) accepted
        rw [hcas]
        exact h.adopt hst hstg hch hgn

theorem acceptedBy_cases (transport s i rejected) :
    (acceptedBy s (.refreshSettled i rejected) = none ∧ Path transport s (s.refreshSettled transport i rejected)) ∨
      ∃ refresh channel, s.refreshes[i]? = some refresh ∧ s.current refresh.message.topic refresh.generation = some channel ∧
        channel.refreshVersion = refresh.version ∧ rejected = false ∧ refresh.allowed = some true ∧
        acceptedBy s (.refreshSettled i rejected) = some (refresh.generation, refresh.token) ∧
            s.refreshSettled transport i rejected =
          (s.renewed i refresh channel).forward transport (.text refresh.message (some refresh.stamp))
              (some refresh.message.topic) := by
  cases hac : acceptedBy s (.refreshSettled i rejected) with
  | none =>
    rcases refreshSettled_cases transport s i rejected with hpa | ⟨refresh, channel, hre, hcu, hve, rfl, hal, _⟩
    · exact .inl ⟨rfl, hpa⟩
    · simp [acceptedBy, hre, hcu, hve, hal] at hac
  | some entry =>
    refine .inr ?_
    cases rejected with
    | true => cases hac
    | false =>
      simp only [acceptedBy] at hac
      split at hac
      · cases hac
      · rename_i refresh hre
        split at hac
        · cases hac
        · rename_i channel hcu
          split at hac
          · rename_i hlv
            refine ⟨refresh, channel, hre, hcu, hlv.1, rfl, hlv.2, hac.symm ▸ rfl, ?_⟩
            simp [refreshSettled, renewed, Channel.renewed, hre, hcu, hlv.1, hlv.2]
          · cases hac

theorem Sync.accept (h : Sync visible s t accepted) {refresh channel} (hre : s.refreshes[i]? = some refresh)
    (hcu : s.current refresh.message.topic refresh.generation = some channel) (hve : channel.refreshVersion = refresh.version)
    (hal : refresh.allowed = some true)
    (hche : ∀ id, channel.nativeId = some id → ∀ (k) (task) (scan), t.tasks[k]? = some task → task.running = some scan →
      scan.check.stateId = id → visible k scan.work.offset id = true → scan.check.token = some refresh.token) :
    Sync visible (s.renewed i refresh channel) t ((refresh.generation, refresh.token) :: accepted) := by
  obtain ⟨_, hch, hgn⟩ := current_some hcu
  have hmem := List.mem_of_getElem? hre
  have hlv : s.Live refresh := ⟨channel, hch, hgn, hve⟩
  have hup := h.sound.accepted hre hcu hve
  have hset : ∀ topic, (s.renewed i refresh channel).channel topic =
        if topic = refresh.message.topic then some (channel.renewed refresh) else s.channel topic :=
    fun topic => channel_set hup.current
  have hba : ∀ {topic c}, (s.renewed i refresh channel).channel topic = some c →
        (topic = refresh.message.topic ∧ c = channel.renewed refresh) ∨
          (c.generation ≠ refresh.generation ∧ s.channel topic = some c) := by
    intro topic c hc
    rw [hset] at hc
    split at hc
    · cases hc
      exact .inl ⟨‹_›, rfl⟩
    · grind [h.sound.unique]
  have hot : ∀ {c : Channel}, c.generation ≠ refresh.generation →
      ((refresh.generation, refresh.token) :: accepted).lookup c.generation = accepted.lookup c.generation := by
    intro c hne
    have hsk : (c.generation == refresh.generation) = false := by simpa using hne
    rw [List.lookup_cons, hsk]
  have hpr : Primed { s with refreshes := s.refreshes.eraseIdx i } :=
    h.primed.narrow (fun _ _ => id) (fun start hst => ⟨start, hst, rfl, id⟩)
      fun r hr hal => ⟨r, List.mem_of_mem_eraseIdx hr, waited_self hal⟩
  refine ⟨(h.sound.settle i).update hup, ?_, h.arrays, h.lastId, ?_, ?_, ?_, ?_⟩
  · exact hpr.set hup.current ⟨rfl, rfl, rfl⟩ fun hna hid => h.primed.ready _ channel hch hna hid
  · intro entry hen
    rcases List.mem_cons.mp hen with rfl | hold
    · exact h.sound.refresh_lt refresh hmem
    · exact h.accepted_lt entry hold
  · grind [h.primed.unanswered, h.unprimed]
  · intro topic c id token hc hid hrf hlo
    rcases hba hc with ⟨_, rfl⟩ | ⟨hne, hold⟩
    · rw [hgn, List.lookup_cons, beq_self_eq_true] at hlo
      cases hlo
      exact ⟨h.due refresh hmem hlv hal channel id hch hid, hche id hid⟩
    · rw [hot hne] at hlo
      exact h.force topic c id token hold hid hrf hlo
  · intro r hr hli' han c id hc hid
    obtain ⟨c', hc', hg, hv⟩ := hli'
    cases hc.symm.trans hc'
    have hrs := List.mem_of_mem_eraseIdx hr
    rcases hba hc with ⟨hto, rfl⟩ | ⟨_, hold⟩
    · exact (h.sound.refresh_alone hre hr (hg.symm.trans hgn) (hv.symm.trans hve)).elim
    · exact h.due r hrs ⟨c, hold, hg, hv⟩ han c id hold hid

theorem Sync.refreshSettled (h : Sync visible s t accepted) (hbc : s.backend = []) (transport i rejected)
    (hche : rejected = false → ∀ r c id, s.refreshes[i]? = some r → s.current r.message.topic r.generation = some c →
    c.refreshVersion = r.version →
      r.allowed = some true → c.nativeId = some id → ∀ (k) (task) (scan), t.tasks[k]? = some task → task.running = some scan →
        scan.check.stateId = id → visible k scan.work.offset id = true → scan.check.token = some r.token) :
    Sync visible (s.refreshSettled transport i rejected) ((s.refreshSettled transport i rejected).backend.foldl applyBackend t)
      ((acceptedBy s (.refreshSettled i rejected)).toList ++ accepted) := by
  rcases acceptedBy_cases transport s i rejected with ⟨hno, hpa⟩ | ⟨refresh, channel, hre, hcu, hve, hnot, hal, hsm, heq⟩
  · rw [hno]
    exact h.step (calm_path hpa) hbc
  · rw [hsm, heq]
    have hacc := h.accept hre hcu hve hal (hche hnot refresh channel · hre hcu hve hal ·)
    exact hacc.step calm_forward hbc

/-! ## 接続の出来事 -/

theorem Sync.reset (h : Sync visible s t accepted) (hpl : s.Placed) :
    Sync visible { s with counting := [], backend := [], sent := [] } t accepted :=
  ⟨hpl.reset.sound, ⟨h.primed.ready, h.primed.unanswered, h.primed.starts, h.primed.settled⟩, h.arrays, h.lastId, h.accepted_lt,
    h.unprimed, h.force, h.due⟩

theorem Sync.sessionEvent {w : Wired} (h : Sync visible w.session w.tenant w.accepted) (hpl : w.session.Placed) (transport)
    (count e) (hcr : ∀ i id, e ≠ .created i id) (hstl : NoStaleCheck visible w (.session count e)) :
    Sync visible (w.sessionEvent transport count e).session (w.sessionEvent transport count e).tenant
        (w.sessionEvent transport count e).accepted := by
  have hrst := h.reset hpl
  have hplR := hpl.reset
  have hstR : NoStaleCheck visible { w with session := { w.session with counting := [], backend := [], sent := [] } }
      (.session count e) := by
    cases e with
    | refreshSettled i rejected => cases rejected <;> exact hstl
    | _ => exact hstl
  have hac : acceptedBy w.session e = acceptedBy { w.session with counting := [], backend := [], sent := [] } e := by
    cases e with
    | refreshSettled i rejected => cases rejected <;> rfl
    | _ => rfl
  have hem : backend { w.session with counting := [], backend := [], sent := [] } = [] := rfl
  simp only [Wired.sessionEvent, sessionStep, hac]
  generalize hr : ({ w.session with counting := [], backend := [], sent := [] } : Session) = r at hrst hplR hstR hem
  have hclm : ∀ {s'}, acceptedBy r e = none → r.Calm s' →
      Sync visible s' (s'.backend.foldl applyBackend w.tenant) ((acceptedBy r e).toList ++ w.accepted) := by
    intro s' hno hclm
    rw [hno]
    exact hrst.step hclm hem
  have hpa : ∀ {s'}, acceptedBy r e = none → Path transport r s' →
      Sync visible s' (s'.backend.foldl applyBackend w.tenant) ((acceptedBy r e).toList ++ w.accepted) :=
    fun hno hpa => hclm hno (calm_path hpa)
  cases e with
  | begin params => exact hclm rfl calm_begin
  | keyResolved result connected =>
    dsimp only
    split
    · exact hclm rfl (calm_bindProject hplR)
    · exact hclm rfl (calm_bindProject hplR)
  | replay => exact hclm rfl (calm_route (route_replayNext hplR.replay))
  | message raw => exact hclm rfl (calm_route route_message)
  | created i id => exact absurd rfl (hcr i id)
  | startSettled i => exact hrst.startSettled hem i
  | readySettled i ok => exact hpa rfl path_readySettled
  | refreshChecked i => exact hrst.refreshChecked hem transport i
  | refreshSettled i rejected =>
    refine hrst.refreshSettled hem transport i rejected ?_
    rintro rfl
    exact hstR
  | ackSettled i => exact hpa rfl (path_ackSettled hplR.sound.acks)
  | upstreamMessage raw => exact hpa rfl path_receiveUpstream
  | upstreamOpen => exact hclm rfl (calm_route route_upstreamOpen)
  | upstreamEnding readyState => exact hclm rfl (calm_route (route_upstreamEnding : Route transport r _))
  | upstreamGone | close => exact hclm rfl calm_close
  | joinTimeout topic => exact hpa rfl path_joinTimeout
  | connectTimeout => exact hpa rfl path_connectTimeout
  | nativeEvent id event => exact hpa rfl (path_nativeEvent hplR.sound.topics)

theorem Sync.created (h : Sync visible s t accepted) (hle : id ≤ t.subscriptionCounter) :
    Sync visible (s.created i id) t accepted := by
  have hso := h.sound.created i id
  unfold Session.created at hso ⊢
  split
  · exact h
  · rename_i start hst
    rw [hst] at hso
    dsimp only at hso
    split
    · rename_i hco
      rw [if_pos hco] at hso
      have hpr : Primed { s with
          starts := s.starts.set i { start with stage := .created id }, owned := s.owned ++ [id], lastId := id } := by
        refine h.primed.narrow (fun _ _ => (·)) (fun x hx => ?_) fun r hr hal => ⟨r, hr, waited_self hal⟩
        rcases List.mem_or_eq_of_mem_set hx with hold | rfl
        · exact ⟨x, hold, rfl, (·)⟩
        · exact ⟨start, List.mem_of_getElem? hst, rfl, fun hse => (nomatch hse)⟩
      exact ⟨hso, hpr, h.arrays, hle, h.accepted_lt, h.unprimed, h.force, h.due⟩
    · exact h

theorem Sync.subscribe {subscriptions} (h : Sync visible s t accepted) {skipped} :
    Sync visible s (subscribeTenant t skipped subscriptions token) accepted :=
  h.milder (milder_subscribe fun id hid => (h.sound.owned_le id hid).trans h.lastId)

/-! ## テナントの出来事 -/

structure Rechecked (t t' : Tenant) : Prop where
  arrays : t'.arrays = t.arrays
  current : t'.current = t.current
  counter : t'.subscriptionCounter = t.subscriptionCounter
  checks : ∀ (k : Nat) (task : Task) (scan : Scan), t'.tasks[k]? = some task → task.running = some scan →
    (∃ task', t.tasks[k]? = some task' ∧ task'.running = some scan) ∨
      ∃ array, ∃ state ∈ t.states array, scan.check.stateId = state.id ∧ scan.check.token = state.token

theorem Sync.rechecked (h : Sync visible s t accepted) (hr : Rechecked t t') : Sync visible s t' accepted := by
  have hss : t'.states = t.states := by
    funext array
    rw [Tenant.states, Tenant.states, hr.arrays]
  have hars : Arrays t' := by
    refine ⟨?_, ?_, ?_, ?_⟩
    · rw [hss]
      exact h.arrays.distinct
    · rw [hss, hr.counter]
      exact h.arrays.bounded
    · rw [hss, hr.current]
      exact h.arrays.current
    · rw [hr.current, hr.arrays]
      exact h.arrays.lt
  have hhe : ∀ {id token}, Held t id token → Held t' id token := by
    intro id token hhe
    unfold Held
    rw [hss]
    exact hhe
  refine { h with
    arrays := hars, lastId := hr.counter ▸ h.lastId, force := ?_
    due := fun r hr hlv hal c id hc hid => hhe (h.due r hr hlv hal c id hc hid) }
  intro topic c id token hc hid hrf hlo
  have hfo := h.force topic c id token hc hid hrf hlo
  refine ⟨hhe hfo.held, fun k task scan hta hsc hsta hvi => ?_⟩
  rcases hr.checks k task scan hta hsc with ⟨task', hta', hsc'⟩ | ⟨array, state, hmem, hstI, htk⟩
  · exact hfo.checks k task' scan hta' hsc' hsta hvi
  · rw [htk]
    exact hfo.held array state hmem (hstI.symm.trans hsta)

theorem rechecked_set {k task finished log}
    (hsc : ∀ scan, task.running = some scan → ∃ array, ∃ state ∈ t.states array, scan.check.stateId = state.id ∧
    scan.check.token = state.token) :
    Rechecked t { t with tasks := t.tasks.set k task, finished, log } := by
  refine ⟨rfl, rfl, rfl, fun j task' scan hta hru => ?_⟩
  have hset : (t.tasks.set k task)[j]? = some task' := hta
  rw [List.getElem?_set] at hset
  split at hset
  · split at hset
    · cases hset
      exact .inr (hsc scan hru)
    · cases hset
  · exact .inl ⟨task', hset, hru⟩

theorem rechecked_resume (filters t k task work next checked) : Rechecked t (resume filters t k task work next checked) := by
  rcases resume_cases filters t k task work next checked with ⟨_, heq⟩ | ⟨i, state, _, hsta, _, _, heq⟩
  · rw [heq]
    exact rechecked_set fun scan hru => (nomatch hru)
  · rw [heq]
    refine rechecked_set fun scan hru => ?_
    cases hru
    exact ⟨work.array, state, List.mem_of_getElem? hsta, rfl, rfl⟩

theorem rechecked_start (filters t k) : Rechecked t (step filters visible t (.start k)) := by
  have hsa : Rechecked t t := ⟨rfl, rfl, rfl, fun j task' scan hta hru => .inl ⟨task', hta, hru⟩⟩
  simp only [step]
  split
  · exact hsa
  · rename_i task hta
    split
    · grind [filterAndEmit, rechecked_set, rechecked_resume]
    · exact hsa

theorem Sync.service (h : Sync visible s t accepted) (filters e) (hfr : Foreign s e = true) (hrsl : ∀ k, e ≠ .resolve k) :
    Sync visible s (RealtimeProxy.step filters visible t e) accepted := by
  cases e with
  | deliver changes =>
    refine h.rechecked ⟨rfl, rfl, rfl, fun k task scan hta hru => ?_⟩
    have hap : (t.tasks ++ [⟨changes, 0, none⟩])[k]? = some task := hta
    rw [List.getElem?_append] at hap
    split at hap
    · exact .inl ⟨task, hap, hru⟩
    · cases List.mem_singleton.mp (List.mem_of_getElem? hap)
      cases hru
  | start k => exact h.rechecked (rechecked_start filters t k)
  | resolve k => exact absurd rfl (hrsl k)
  | subscribe skipped subscriptions token => exact h.subscribe
  | unsubscribe id => exact h.milder milder_unsubscribe
  | updateToken id token =>
    refine h.milder (milder_updateToken.mono ?_)
    rintro id' hid' rfl
    have hnot : ¬ s.owned.contains id' = true := by simpa [Foreign] using hfr
    exact hnot (List.contains_iff_mem.mpr hid')
  | registerIds id ids => exact h.milder milder_registerIds

/-! ## つないだ全体 -/

theorem close_sent : s.close.sent = s.sent := by
  cases hcl : s.closed with
  | true => rw [close_of_closed hcl]
  | false =>
    obtain ⟨_, _, _, heq⟩ := close_eq hcl
    rw [heq]

theorem nativeEvent_sent (h : s.Sound) (hsn : s.sent = []) (transport event) :
    ∀ x ∈ (s.nativeEvent transport id event).sent, ∃ topic c, s.channel topic = some c ∧ c.nativeId = some id ∧
        c.refreshing = false ∧
      x.standing.map (·.generation) = some c.generation := by
  intro x hx
  unfold nativeEvent at hx
  split at hx
  · rw [hsn] at hx
    cases hx
  · rename_i owner topic generation hfi
    have hli := List.mem_of_find?_eq_some hfi
    have hid : owner = id := by simpa using List.find?_some hfi
    subst hid
    split at hx
    · rw [hsn] at hx
      cases hx
    · rename_i c hcu
      obtain ⟨_, hch, hgn⟩ := current_some hcu
      obtain ⟨c', hc', _, hna⟩ := (h.listeners _ _ _).mp hli
      cases hch.symm.trans hc'
      split at hx
      · rename_i hope
        refine ⟨topic, c, hch, hna, by simpa using hope.2.2, ?_⟩
        have hto := h.topic topic c hch
        rcases sendFrame_cases transport s
          (.text { c.join with ref := none, event := .postgresChanges, payload := eventPayload event } none)
              with ⟨n, heq⟩ | ⟨_, heq⟩
        · rw [send, heq, close_sent] at hx
          exact absurd (hsn ▸ hx) List.not_mem_nil
        · rw [send, heq, hsn, List.nil_append] at hx
          rw [List.mem_singleton.mp hx]
          show (s.standing c.join.topic).map _ = _
          rw [hto, standing, hch]
          rfl
      · rw [hsn] at hx
        cases hx

structure Wired.Aligned (visible : Nat → Nat → Nat → Bool) (w : Wired) : Prop where
  placed : w.session.Placed
  sync : Sync visible w.session w.tenant w.accepted
  delivered : ∀ d ∈ w.delivered, d.Current

variable {w : Wired}

theorem Wired.aligned_initial (projectRef) : Aligned visible (.initial projectRef) := by
  have hinv : Inv visible (.empty projectRef) := inv_empty projectRef
  refine ⟨placed_initial, ?_, fun d hd => (nomatch hd)⟩
  refine ⟨sound_initial, ⟨?_, ?_, ?_, ?_⟩, hinv.arrays, le_refl _, ?_, ?_, ?_, ?_⟩
  · exact fun topic c hc => (nomatch hc)
  · exact fun topic c hc => (nomatch hc)
  · exact fun start hst => (nomatch hst)
  · exact fun start hst => (nomatch hst)
  · exact fun entry hen => (nomatch hen)
  · exact fun topic c hc => (nomatch hc)
  · exact fun topic c id token hc => (nomatch hc)
  · exact fun r hr => (nomatch hr)

theorem Wired.Aligned.sessionEvent (h : Aligned visible w) (transport count e)
    (hcr : ∀ i id, e ≠ .created i id) (hstl : NoStaleCheck visible w (.session count e)) :
    Aligned visible (w.sessionEvent transport count e) :=
  ⟨(sessionStep_spec transport count e h.placed).1, h.sync.sessionEvent h.placed transport count e hcr hstl, h.delivered⟩

theorem Wired.Aligned.subscribed (h : Aligned visible w) (transport i skipped changes token) :
    Aligned visible (w.subscribed transport i skipped changes token) := by
  unfold Wired.subscribed
  split
  · exact h
  · split
    · dsimp only
      exact ⟨(sessionStep_spec transport (fun _ => 0) (.created i _) h.placed).1,
          ((h.sync.reset h.placed).subscribe).created (le_refl _), h.delivered⟩
    · exact h

theorem Wired.Aligned.resolved (h : Aligned visible w) (transport k) : Aligned visible (w.resolved transport visible k) := by
  unfold Wired.resolved
  split
  · exact h
  · rename_i task hta
    split
    · exact h
    · rename_i scan hsc
      dsimp only
      split
      · rename_i hvi
        have hlg : Sync visible w.session { w.tenant with log := w.tenant.log ++ [emission k scan] } w.accepted :=
          h.sync.rechecked ⟨rfl, rfl, rfl, fun j task' scan' hta' hsc' => .inl ⟨task', hta', hsc'⟩⟩
        have hsy := Sync.sessionEvent (w := { w with tenant := { w.tenant with log := w.tenant.log ++ [emission k scan] } })
            hlg h.placed transport
          (fun _ => 0) (.nativeEvent scan.check.stateId (formatEvent scan.work.change scan.check.ids)) (fun _ _ => by simp) trivial
        refine ⟨(sessionStep_spec transport (fun _ => 0) (.nativeEvent _ _) h.placed).1,
            hsy.rechecked (rechecked_resume transport.filters _ k task scan.work scan.next _), ?_⟩
        intro d hd
        rcases List.mem_append.mp hd with hold | hnew
        · exact h.delivered d hold
        · obtain ⟨x, hx, rfl⟩ := List.mem_map.mp hnew
          obtain ⟨topic, c, hc, hid, hrf, hstn⟩ := nativeEvent_sent h.placed.reset.sound rfl transport _ x hx
          intro token htk
          have hlo : w.accepted.lookup c.generation = some token := by
            obtain ⟨standing, hsm, hgn⟩ := map_eq_some_iff.mp hstn
            rw [← hgn]
            simpa [deliveredOf, hsm] using htk
          exact (h.sync.force topic c scan.check.stateId token hc hid hrf hlo).checks k task scan hta hsc rfl hvi
      · exact ⟨h.placed, h.sync.rechecked (rechecked_resume transport.filters w.tenant k task scan.work scan.next _), h.delivered⟩

theorem wiredStep_session {transport count e} (hcr : ∀ i id, e ≠ .created i id)
    (hna : ∀ id event, e ≠ .nativeEvent id event) :
    wiredStep transport visible w (.session count e) = w.sessionEvent transport count e := by
  cases e with
  | created i id => exact absurd rfl (hcr i id)
  | nativeEvent id event => exact absurd rfl (hna id event)
  | _ => rfl

theorem Wired.Aligned.step (h : Aligned visible w) (transport e) (hstl : NoStaleCheck visible w e) :
    Aligned visible (wiredStep transport visible w e) := by
  cases e with
  | session count e =>
    by_cases hcr : ∃ i id, e = .created i id
    · obtain ⟨i, id, rfl⟩ := hcr
      exact h
    · by_cases hna : ∃ id event, e = .nativeEvent id event
      · obtain ⟨id, event, rfl⟩ := hna
        exact h
      · grind [h.sessionEvent, wiredStep_session]
  | subscribed i skipped changes token => exact h.subscribed transport i skipped changes token
  | service e =>
    by_cases hrsl : ∃ k, e = .resolve k
    · obtain ⟨k, rfl⟩ := hrsl
      exact h.resolved transport k
    · have hste : wiredStep transport visible w (.service e) =
          if Foreign w.session e then { w with tenant := RealtimeProxy.step transport.filters visible w.tenant e } else w := by
        cases e with
        | resolve k => exact absurd ⟨k, rfl⟩ hrsl
        | _ => rfl
      rw [hste]
      split
      · rename_i hfr
        exact ⟨h.placed, h.sync.service transport.filters e hfr fun k heq => hrsl ⟨k, heq⟩, h.delivered⟩
      · exact h

end Supacloud.RealtimeProxy
