import Supacloud.Library.Table
import Supacloud.RealtimeProxy.Lemmas.Session

/-!
# 接続が持つもの

バックエンドの購読状態は、一つのチャネルか、`startNative` の一つの待ちが持つ。
-/

namespace Supacloud.RealtimeProxy

open Contracts (JsString)

open Library List

namespace Session

variable {transport : Transport} {s s' : Session} {topic topic' : JsString} {c c' channel channel' : Channel} {frame : Frame}
  {id : Nat}

theorem channel_remove (hke : (s.channels.map Prod.fst).Nodup) :
    (s.removeChannel topic).channel topic' = if topic' = topic then none else s.channel topic' := by
  obtain ⟨_, _, _, heq⟩ := removeChannel_eq s topic
  rw [heq]
  exact lookup_filter_key hke

variable {m : List (JsString × Channel)}

theorem lookup_replace : (m.map fun entry => if entry.1 = topic then (topic, channel) else entry).lookup topic' =
      if topic' = topic then (m.lookup topic).map fun _ => channel else m.lookup topic' := by
  induction m with
  | nil => simp
  | cons entry m ih =>
    by_cases hkey : entry.1 = topic
    · grind
    · grind

theorem keys_replace : (m.map fun entry => if entry.1 = topic then (topic, channel) else entry).map Prod.fst = m.map Prod.fst := by
  rw [map_map]
  refine map_congr_left fun entry _ => ?_
  simp only [Function.comp_apply]
  split
  · rename_i h
    exact h.symm
  · rfl

theorem channel_set (h : s.channel topic = some c) : (s.setChannel topic channel).channel topic' = if topic' = topic then some channel else s.channel topic' := by
  have hlo : s.channels.lookup topic = some c := h
  show (s.channels.map fun entry => if entry.1 = topic then (topic, channel) else entry).lookup topic' = _
  rw [lookup_replace, hlo]
  rfl

/-! ## 不変条件 -/

inductive Holder where
  | channel (topic : JsString)
  | start (generation : Nat)

def Holds (s : Session) : Holder → Nat → Prop
  | .channel topic, id => ∃ c, s.channel topic = some c ∧ c.nativeId = some id
  | .start generation, id => ∃ start ∈ s.starts, start.generation = generation ∧ start.stage = .created id

structure Sound (s : Session) : Prop where
  keys : (s.channels.map Prod.fst).Nodup
  topic : ∀ topic c, s.channel topic = some c → c.join.topic = topic
  unique : ∀ topic topic' c c', s.channel topic = some c → s.channel topic' = some c' → c.generation = c'.generation → topic = topic'
  generation_lt : ∀ topic c, s.channel topic = some c → c.generation < s.generations
  start_lt : ∀ start ∈ s.starts, start.generation < s.generations
  refresh_lt : ∀ r ∈ s.refreshes, r.generation < s.generations
  starts : (s.starts.map (·.generation)).Nodup
  waiting : ∀ start ∈ s.starts, (∀ ok, start.stage ≠ .settled ok) → ∀ topic c, s.channel topic = some c → c.generation = start.generation →
    c.nativeId = none
  owned_nodup : s.owned.Nodup
  owned_le : ∀ id ∈ s.owned, id ≤ s.lastId
  owned : ∀ id, id ∈ s.owned ↔ ∃ holder, s.Holds holder id
  single : ∀ holder holder' id, s.Holds holder id → s.Holds holder' id → holder = holder'
  listeners_nodup : s.listeners.Nodup
  listeners : ∀ id topic generation, (id, topic, generation) ∈ s.listeners ↔
    ∃ c, s.channel topic = some c ∧ c.generation = generation ∧ c.nativeId = some id
  closed : s.closed = true → ∀ topic, s.channel topic = none
  unbound : s.projectRef = none → ∀ topic, s.channel topic = none
  joined : ∀ topic c, s.channel topic = some c → c.joined = true → c.generation ∈ s.acknowledged
  acks : ∀ ack ∈ s.acks, ack.generation ∈ s.acknowledged
  refreshing : ∀ r ∈ s.refreshes, ∀ topic c, s.channel topic = some c → c.generation = r.generation →
    r.version ≤ c.refreshVersion ∧ (r.version = c.refreshVersion → c.refreshing = true)
  versions : (s.refreshes.map fun r => (r.generation, r.version)).Nodup
  sent : ∀ x ∈ s.sent, x.frame.isChange → ∃ standing, x.standing = some standing ∧ standing.Open

theorem sound_initial : Sound .initial := by
  have hhos : ∀ holder id, ¬ Holds .initial holder id := by
    intro holder id h
    cases holder with
    | channel topic =>
      obtain ⟨c, hc, _⟩ := h
      cases hc
    | start generation =>
      obtain ⟨start, hst, _⟩ := h
      cases hst
  refine ⟨nodup_nil, ?_, ?_, ?_, ?_, ?_, nodup_nil, ?_, nodup_nil, ?_, ?_, ?_, nodup_nil, ?_, ?_, ?_, ?_, ?_, ?_, nodup_nil, ?_⟩
  case refine_8 => exact fun id => ⟨fun h => (nomatch h), fun ⟨holder, h⟩ => absurd h (hhos holder id)⟩
  case refine_9 => exact fun holder _ id h => absurd h (hhos holder id)
  all_goals simp [initial, channel]

theorem Sound.congr (h : Sound s) (hco : s'.core = s.core) : Sound s' := by
  have hs : s' = { s with
      opening := s'.opening, apiKey := s'.apiKey, presentedApiKey := s'.presentedApiKey, upstream := s'.upstream, buffered := s'.buffered
      early := s'.early, replay := s'.replay, connectionTimer := s'.connectionTimer, arrivals := s'.arrivals, calls := s'.calls
      forwarded := s'.forwarded, counting := s'.counting, backend := s'.backend } := by
    cases s
    cases s'
    simp_all [core]
  rw [hs]
  exact { h with }

/-! ## 取り外し -/

theorem Sound.remove_owned (h : Sound s) (topic) :
    (∀ id, id ∈ (s.removeChannel topic).owned ↔ id ∈ s.owned ∧ ¬ s.Holds (.channel topic) id) ∧
      (s.removeChannel topic).owned.Sublist s.owned ∧
      (∀ id topic' generation, (id, topic', generation) ∈ (s.removeChannel topic).listeners ↔
        (id, topic', generation) ∈ s.listeners ∧ topic' ≠ topic) ∧ (s.removeChannel topic).listeners.Sublist s.listeners := by
  have hhe : ∀ id, s.Holds (.channel topic) id ↔ (s.channel topic).bind Channel.nativeId = some id := by
    intro id
    simp [Holds, Option.bind_eq_some_iff]
  cases hna : (s.channel topic).bind Channel.nativeId with
  | some id =>
    obtain ⟨c, hc, hid⟩ := Option.bind_eq_some_iff.mp hna
    have hbo : s.projectRef ≠ none := fun hno => by cases hc.symm.trans (h.unbound hno topic)
    obtain ⟨ref, href⟩ := Option.ne_none_iff_exists'.mp hbo
    have hrm : (s.removeChannel topic).owned = s.owned.filter (fun owned => owned != id) ∧
        (s.removeChannel topic).listeners = s.listeners.filter (fun l => l != (id, topic, c.generation)) := by
      simp only [removeChannel, hc, release, hid, href]
      trivial
    rw [hrm.1, hrm.2]
    refine ⟨by grind, filter_sublist, ?_, filter_sublist⟩
    grind [h.listeners]
  | none => grind [h.listeners, removeChannel, release]

theorem Sound.remove (h : Sound s) (topic) : Sound (s.removeChannel topic) := by
  have hch : ∀ topic', (s.removeChannel topic).channel topic' = if topic' = topic then none else s.channel topic' :=
    fun topic' => channel_remove h.keys
  obtain ⟨how, howS, hlis, hliS⟩ := h.remove_owned topic
  have hfr : (s.removeChannel topic).channels = s.channels.filter (fun entry => entry.1 ≠ topic) ∧
      (s.removeChannel topic).starts = s.starts ∧ (s.removeChannel topic).refreshes = s.refreshes ∧
      (s.removeChannel topic).generations = s.generations ∧ (s.removeChannel topic).lastId = s.lastId ∧
      (s.removeChannel topic).acknowledged = s.acknowledged ∧ (s.removeChannel topic).acks = s.acks ∧
      (s.removeChannel topic).closed = s.closed ∧ (s.removeChannel topic).projectRef = s.projectRef ∧
      (s.removeChannel topic).sent = s.sent := by
    obtain ⟨listeners, owned, backend, heq⟩ := removeChannel_eq s topic
    rw [heq]
    exact ⟨rfl, rfl, rfl, rfl, rfl, rfl, rfl, rfl, rfl, rfl⟩
  have hhos : ∀ holder id, (s.removeChannel topic).Holds holder id ↔ s.Holds holder id ∧ holder ≠ .channel topic := by
    intro holder id
    cases holder <;> grind [Holds]
  exact {
    keys := hfr.1 ▸ nodup_filter_key h.keys
    topic := by grind [→ h.topic]
    unique := by grind [→ h.unique]
    generation_lt := by grind [→ h.generation_lt]
    start_lt := by grind [→ h.start_lt]
    refresh_lt := by grind [→ h.refresh_lt]
    starts := by grind [h.starts]
    waiting := by grind [→ h.waiting]
    owned_nodup := howS.nodup h.owned_nodup
    owned_le := by grind [→ h.owned_le]
    owned := by grind [h.owned, → h.single]
    single := by grind [→ h.single]
    listeners_nodup := hliS.nodup h.listeners_nodup
    listeners := by grind [h.listeners]
    closed := by grind [h.closed]
    unbound := by grind [h.unbound]
    joined := by grind [→ h.joined]
    acks := by grind [→ h.acks]
    refreshing := by grind [→ h.refreshing]
    versions := by grind [h.versions]
    sent := by grind [→ h.sent] }

/-! ## 終わり -/

theorem Sound.removeAll (h : Sound s) (topics : List JsString) : Sound (topics.foldl removeChannel s) := by
  induction topics generalizing s with
  | nil => exact h
  | cons topic topics ih => exact ih (h.remove topic)

theorem remove_closed : removeChannel { s with closed := true, connectionTimer := false } topic =
    { s.removeChannel topic with closed := true, connectionTimer := false } := by
  have hch : channel { s with closed := true, connectionTimer := false } topic = s.channel topic := rfl
  cases hcu : s.channel topic with
  | none => simp [removeChannel, hch, hcu]
  | some c => grind [removeChannel, release]

theorem removeAll_closed (topics : List JsString) : topics.foldl removeChannel { s with closed := true, connectionTimer := false } =
      { topics.foldl removeChannel s with closed := true, connectionTimer := false } := by
  induction topics generalizing s with
  | nil => rfl
  | cons topic topics ih => rw [foldl_cons, foldl_cons, remove_closed, ih]

theorem Sound.close (h : Sound s) : Sound s.close := by
  cases hcl : s.closed with
  | true =>
    rw [close_of_closed hcl]
    exact h
  | false =>
    have hall := h.removeAll (s.channels.map (·.1))
    obtain ⟨listeners, owned, backend, heq⟩ := removeAll_eq s (s.channels.map (·.1))
    have hno : (s.channels.filter fun entry => entry.1 ∉ s.channels.map (·.1)) = [] := by
      rw [filter_eq_nil_iff]
      intro entry hen
      simpa using ⟨entry.2, hen⟩
    rw [hno] at heq
    have hem : ∀ topic, ((s.channels.map (·.1)).foldl removeChannel s).channel topic = none := by
      intro topic
      rw [heq]
      rfl
    have hsh : Sound { (s.channels.map (·.1)).foldl removeChannel s with closed := true, connectionTimer := false, buffered := [], early := [] } :=
      { hall with closed := fun _ => hem }
    refine hsh.congr ?_
    unfold Session.close
    simp only [hcl, Bool.false_eq_true, if_false, removeAll_closed]
    split
    · rfl
    · rfl

/-! ## チャネルの書き換えと追加 -/

theorem Sound.update (h : Sound s) (hu : s.Update topic channel channel') : Sound (s.setChannel topic channel') := by
  have hch : ∀ topic', (s.setChannel topic channel').channel topic' = if topic' = topic then some channel' else s.channel topic' :=
    fun topic' => channel_set hu.current
  have hke : ((s.setChannel topic channel').channels.map Prod.fst).Nodup := by
    show ((s.channels.map _).map Prod.fst).Nodup
    rw [keys_replace]
    exact h.keys
  have hfr : (s.setChannel topic channel').generations = s.generations ∧ (s.setChannel topic channel').starts = s.starts ∧
      (s.setChannel topic channel').refreshes = s.refreshes ∧ (s.setChannel topic channel').owned = s.owned ∧
      (s.setChannel topic channel').listeners = s.listeners ∧ (s.setChannel topic channel').acknowledged = s.acknowledged :=
    ⟨rfl, rfl, rfl, rfl, rfl, rfl⟩
  have hhos : ∀ holder id, (s.setChannel topic channel').Holds holder id ↔ s.Holds holder id := by
    intro holder id
    cases holder <;> grind [Holds, Update]
  have hno : (∀ topic', s.channel topic' = none) → ∀ topic', (s.setChannel topic channel').channel topic' = none := by
    grind [Update]
  obtain ⟨hcu, hge, hjn, hna, _, hve, hjo, hrf⟩ := hu
  exact { h with
    keys := hke
    topic := by grind [→ h.topic]
    unique := by grind [→ h.unique]
    generation_lt := by grind [→ h.generation_lt]
    waiting := by grind [→ h.waiting]
    owned := by grind [h.owned]
    single := by grind [→ h.single]
    listeners := by grind [h.listeners]
    closed := fun hcl => hno (h.closed hcl)
    unbound := fun hunb => hno (h.unbound hunb)
    joined := by grind [→ h.joined]
    refreshing := by grind [→ h.refreshing] }

theorem Sound.add (h : Sound s) (hf : s.Fresh channel) : Sound (s.addChannel channel) := by
  have hch : ∀ topic', (s.addChannel channel).channel topic' = if topic' = channel.join.topic then some channel else s.channel topic' :=
    fun topic' => lookup_concat_key h.keys hf.topic
  have hfr : (s.addChannel channel).generations = s.generations + 1 ∧ (s.addChannel channel).refreshes = s.refreshes ∧
      (s.addChannel channel).owned = s.owned ∧ (s.addChannel channel).listeners = s.listeners ∧
      (s.addChannel channel).acknowledged = s.acknowledged := ⟨rfl, rfl, rfl, rfl, rfl⟩
  have hsts : (s.addChannel channel).starts = s.starts ∨
      ∃ start, (s.addChannel channel).starts = s.starts ++ [start] ∧ start.generation = s.generations ∧ start.stage = .calling := by
    unfold addChannel
    dsimp only
    split
    · exact .inr ⟨_, rfl, hf.generation, rfl⟩
    · exact .inl rfl
  obtain ⟨hcl, hbo, hto, hge, hna, hjo, _⟩ := hf
  have hhos : ∀ holder id, (s.addChannel channel).Holds holder id ↔ s.Holds holder id := by
    intro holder id
    cases holder <;> grind [Holds]
  exact { h with
    keys := nodup_concat_key h.keys hto
    topic := by grind [→ h.topic]
    unique := by grind [→ h.unique, → h.generation_lt]
    generation_lt := by grind [→ h.generation_lt]
    start_lt := by grind [→ h.start_lt]
    refresh_lt := by grind [→ h.refresh_lt]
    starts := by grind [h.starts, → h.start_lt]
    waiting := by grind [→ h.waiting, → h.generation_lt]
    owned := by grind [h.owned]
    single := by grind [→ h.single]
    listeners := by grind [h.listeners]
    closed := fun hsh => absurd (hcl.symm.trans hsh) (by decide)
    unbound := fun hno => absurd hno hbo
    joined := by grind [→ h.joined]
    refreshing := by grind [→ h.refreshing, → h.refresh_lt] }

/-! ## 待ちの進み -/

variable {start start' : Start} {i : Nat}

structure Restarted (s s' : Session) (start start' : Start) : Prop where
  generation : start'.generation = start.generation
  current : start ∈ s.starts
  only : ∀ x ∈ s.starts, x.generation = start.generation → x = start
  now : start' ∈ s'.starts
  kept : ∀ x ∈ s.starts, x.generation ≠ start.generation → x ∈ s'.starts
  back : ∀ x ∈ s'.starts, x = start' ∨ (x ∈ s.starts ∧ x.generation ≠ start.generation)
  generations : s'.starts.map (·.generation) = s.starts.map (·.generation)

theorem Sound.restarted (h : Sound s) (hst : s.starts[i]? = some start) (hset : s'.starts = s.starts.set i start')
    (hge : start'.generation = start.generation) : Restarted s s' start start' := by
  have hlt := (List.getElem?_eq_some_iff.mp hst).1
  have hmem := List.mem_of_getElem? hst
  have hon : ∀ x ∈ s.starts, x.generation = start.generation → x = start := fun x hx => eq_of_key h.starts hx hmem
  -- 世代は重ならないので、同じ世代の待ちは i にしかない
  have hind : ∀ (j) (y), s.starts[j]? = some y → y.generation = start.generation → j = i := by
    intro j y hy hge
    refine (List.getElem?_inj (by rw [List.length_map]; exact (List.getElem?_eq_some_iff.mp hy).1) h.starts).mp ?_
    rw [List.getElem?_map, List.getElem?_map, hy, hst, Option.map_some, Option.map_some, hge]
  refine ⟨hge, hmem, hon, ?_, ?_, ?_, hset ▸ map_set_of hst hge⟩
  · exact hset ▸ List.mem_set hlt start'
  · intro x hx hne
    obtain ⟨j, hj⟩ := List.mem_iff_getElem?.mp hx
    exact hset ▸ List.mem_iff_getElem?.mpr ⟨j, by grind⟩
  · intro x hx
    obtain ⟨j, hj⟩ := List.mem_iff_getElem?.mp (hset ▸ hx)
    grind

theorem Restarted.holds (h : Restarted s s' start start') {g} :
    s'.Holds (.start g) id ↔ (s.Holds (.start g) id ∧ g ≠ start.generation) ∨ (g = start.generation ∧ start'.stage = .created id) := by
  obtain ⟨_, _, _, _, _, _, _⟩ := h
  grind [Holds]

theorem Sound.restart (h : Sound s) (hr : Restarted s s' start start')
    (hwt : (∀ ok, start'.stage ≠ .settled ok) → ∀ ok, start.stage ≠ .settled ok) :
    (∀ x ∈ s'.starts, x.generation < s.generations) ∧ (s'.starts.map (·.generation)).Nodup ∧
      ∀ x ∈ s'.starts, (∀ ok, x.stage ≠ .settled ok) → ∀ topic c, s.channel topic = some c → c.generation = x.generation → c.nativeId = none := by
  refine ⟨?_, hr.generations ▸ h.starts, ?_⟩
  · grind [→ h.start_lt, → hr.back, hr.current, hr.generation]
  · intro x hx hop topic c hc hgen
    rcases hr.back x hx with rfl | ⟨hx, _⟩
    · exact h.waiting start hr.current (hwt hop) topic c hc (hgen.trans hr.generation)
    · exact h.waiting x hx hop topic c hc hgen

section

variable (h : Sound s) (hst : s.starts[i]? = some start)

include h hst

theorem Sound.setStart (hge : start'.generation = start.generation) (hsta : ∀ id, start'.stage = .created id ↔ start.stage = .created id)
    (hwt : (∀ ok, start'.stage ≠ .settled ok) → ∀ ok, start.stage ≠ .settled ok) : Sound { s with starts := s.starts.set i start' } := by
  have hr : Restarted s { s with starts := s.starts.set i start' } start start' := h.restarted hst rfl hge
  have hhos : ∀ holder id, Holds { s with starts := s.starts.set i start' } holder id ↔ s.Holds holder id := by
    intro holder id
    cases holder with
    | channel topic => exact Iff.rfl
    | start g =>
      rw [hr.holds, hsta]
      have := hr.only
      have := hr.current
      grind [Holds]
  obtain ⟨hlt, hnd, hwa⟩ := h.restart hr hwt
  exact { h with
    start_lt := hlt
    starts := hnd
    waiting := hwa
    owned := by grind [h.owned]
    single := by grind [→ h.single] }

theorem Sound.create (hca : start.stage = .calling) (hla : s.lastId < id) :
    Sound { s with starts := s.starts.set i { start with stage := .created id }, owned := s.owned ++ [id], lastId := id } := by
  generalize hnew : ({ s with starts := s.starts.set i { start with stage := .created id }, owned := s.owned ++ [id], lastId := id } : Session) = s'
  have hr : Restarted s s' start { start with stage := .created id } := h.restarted hst (hnew ▸ rfl) rfl
  have hfre : ∀ holder, ¬ s.Holds holder id := by
    intro holder hhe
    have := h.owned_le id ((h.owned id).mpr ⟨holder, hhe⟩)
    omega
  have hhos : ∀ holder id', s'.Holds holder id' ↔ s.Holds holder id' ∨ (holder = .start start.generation ∧ id' = id) := by
    intro holder id'
    cases holder with
    | channel topic => simp [← hnew, Holds, channel]
    | start g =>
      rw [hr.holds]
      have := hr.only
      grind [Holds]
  have hnow : s'.Holds (.start start.generation) id := (hhos _ _).mpr (.inr ⟨rfl, rfl⟩)
  have how : ∀ a, a ∈ s'.owned ↔ a ∈ s.owned ∨ a = id := by simp [← hnew]
  obtain ⟨hlt, hnd, hwa⟩ := h.restart hr (fun _ => by simp [hca])
  subst hnew
  exact { h with
    start_lt := hlt
    starts := hnd
    waiting := hwa
    owned_nodup := by grind [h.owned_nodup, → h.owned_le]
    owned_le := fun a ha => by show a ≤ id; grind [→ h.owned_le]
    owned := by grind [h.owned]
    single := by grind [→ h.single] }

theorem Sound.discard (hsta : start.stage = .created id) (backend) :
    Sound { s with starts := s.starts.set i { start with stage := .settled false }, owned := s.owned.filter fun owned => owned != id, backend } := by
  generalize hnew : ({ s with
    starts := s.starts.set i { start with stage := .settled false }, owned := s.owned.filter fun owned => owned != id, backend } : Session) = s'
  have hr : Restarted s s' start { start with stage := .settled false } := h.restarted hst (hnew ▸ rfl) rfl
  have hhe : s.Holds (.start start.generation) id := ⟨start, hr.current, rfl, hsta⟩
  have hhos : ∀ holder id', s'.Holds holder id' ↔ s.Holds holder id' ∧ holder ≠ .start start.generation := by
    intro holder id'
    cases holder with
    | channel topic => simp [← hnew, Holds, channel]
    | start g => simp [hr.holds]
  have hot : ∀ holder id', s.Holds holder id' → (holder = .start start.generation ↔ id' = id) := by
    intro holder id' hho
    refine ⟨?_, fun heq => h.single _ _ _ (heq ▸ hho) hhe⟩
    rintro rfl
    grind [Holds, hr.only]
  subst hnew
  obtain ⟨hlt, hnd, hwa⟩ := h.restart hr fun hop => absurd rfl (hop false)
  exact { h with
    start_lt := hlt
    starts := hnd
    waiting := hwa
    owned_nodup := filter_sublist.nodup h.owned_nodup
    owned_le := by grind [→ h.owned_le]
    owned := by grind [h.owned]
    single := by grind [→ h.single] }

theorem Sound.adopt (hsta : start.stage = .created id) (hcu : s.channel start.topic = some channel)
    (hgen : channel.generation = start.generation) : Sound (s.adopted i id start channel) := by
  have hke : ((s.setChannel start.topic { channel with nativeId := some id }).channels.map Prod.fst).Nodup := by
    show ((s.channels.map _).map Prod.fst).Nodup
    rw [keys_replace]
    exact h.keys
  generalize hnew : s.adopted i id start channel = s'
  have hr : Restarted s s' start { start with stage := .settled true } := h.restarted hst (hnew ▸ rfl) rfl
  have hna : channel.nativeId = none := h.waiting start hr.current (by simp [hsta]) start.topic channel hcu hgen
  have hhe : s.Holds (.start start.generation) id := ⟨start, hr.current, rfl, hsta⟩
  have hch : ∀ topic, s'.channel topic = if topic = start.topic then some { channel with nativeId := some id } else s.channel topic := by
    intro topic
    rw [← hnew]
    exact channel_set hcu
  have hhos : ∀ holder a, s'.Holds holder a ↔ (s.Holds holder a ∧ holder ≠ .start start.generation) ∨ (holder = .channel start.topic ∧ a = id) := by
    intro holder a
    cases holder with
    | channel topic => grind [Holds]
    | start g => simp [hr.holds]
  have hot : ∀ holder id', s.Holds holder id' → (holder = .start start.generation ↔ id' = id) := by
    intro holder id' hho
    refine ⟨?_, fun heq => h.single _ _ _ (heq ▸ hho) hhe⟩
    rintro rfl
    grind [Holds, hr.only]
  have hnow : s'.Holds (.channel start.topic) id := (hhos _ _).mpr (.inr ⟨rfl, rfl⟩)
  obtain ⟨hlt, hnd, hwa⟩ := h.restart hr fun hop => absurd rfl (hop true)
  have hfr : s'.generations = s.generations ∧ s'.refreshes = s.refreshes ∧ s'.owned = s.owned ∧
      s'.listeners = s.listeners ++ [(id, start.topic, start.generation)] ∧ s'.acknowledged = s.acknowledged ∧ s'.closed = s.closed ∧
      s'.projectRef = s.projectRef ∧ s'.lastId = s.lastId ∧ s'.acks = s.acks ∧ s'.sent = s.sent := by
    subst hnew
    exact ⟨rfl, rfl, rfl, rfl, rfl, rfl, rfl, rfl, rfl, rfl⟩
  exact {
    keys := by rw [← hnew]; exact hke
    topic := by grind [→ h.topic]
    unique := by grind [→ h.unique]
    generation_lt := by grind [→ h.generation_lt]
    start_lt := by grind
    refresh_lt := by grind [→ h.refresh_lt]
    starts := hnd
    waiting := fun x hx hop topic c hc hgc => by
      rcases hr.back x hx with rfl | ⟨hold, hne⟩
      · exact absurd rfl (hop true)
      · have := hwa x hx hop topic
        grind
    owned_nodup := by grind [h.owned_nodup]
    owned_le := by grind [→ h.owned_le]
    owned := by grind [h.owned]
    single := by grind [→ h.single]
    listeners_nodup := by grind [h.listeners_nodup, h.listeners]
    listeners := by grind [h.listeners]
    closed := fun hcl => nomatch hcu.symm.trans (h.closed (by grind) _)
    unbound := fun hunb => nomatch hcu.symm.trans (h.unbound (by grind) _)
    joined := by grind [→ h.joined]
    acks := by grind [→ h.acks]
    refreshing := by grind [→ h.refreshing]
    versions := by grind [h.versions]
    sent := by grind [→ h.sent] }

end

section

variable (h : Sound s)

include h

theorem Sound.created (i id) : Sound (s.created i id) := by
  unfold Session.created
  split
  · exact h
  · rename_i start hst
    split
    · rename_i hgu
      exact h.create hst hgu.1 hgu.2
    · exact h

theorem Sound.startSettled (i) : Sound (s.startSettled i) := by
  unfold Session.startSettled
  split
  · exact h
  · rename_i start hst
    split
    · exact h
    · rename_i hca
      refine h.setStart hst rfl (fun id => ?_) (fun hop => absurd rfl (hop false))
      simp [hca]
    · rename_i id hcr
      split
      · exact h.discard hst hcr _
      · rename_i channel hcu
        obtain ⟨_, hch, hge⟩ := current_some hcu
        exact h.adopt hst hcr hch hge

/-! ## どの動きも保つ -/

theorem Sound.sendFrame (hde : s.Deliverable frame) : Sound (s.sendFrame transport frame) := by
  rcases sendFrame_cases transport s frame with ⟨n, heq⟩ | ⟨hop, heq⟩
  · rw [heq]
    have htw : Sound { s with calls := n } := h.congr rfl
    exact htw.close
  · rw [heq]
    refine { h with sent := ?_ }
    intro x hx hcha
    rcases mem_append.mp hx with hx | hx
    · exact h.sent x hx hcha
    · cases mem_singleton.mp hx
      obtain ⟨c, hc, hjo, hrf⟩ := hde hcha hop
      refine ⟨_, by rw [standing, hc]; rfl, hjo, hrf, ?_, ?_⟩
      · grind [→ h.refreshing]
      · exact contains_iff_mem.mpr (h.joined _ c hc hjo)

theorem Sound.forward (topic) : Sound (s.forward transport frame topic) := by
  rcases forward_cases transport s frame topic with ⟨n, heq⟩ | ⟨_, _, heq⟩ | ⟨_, _, heq⟩ | ⟨_, heq⟩
  · rw [heq]
    have htw : Sound { s with calls := n } := h.congr rfl
    exact htw.close
  · rw [heq]
    exact h.congr rfl
  · rw [heq]
    exact h.congr rfl
  · rw [heq]
    exact h

theorem Sound.answered {i refresh} (hre : s.refreshes[i]? = some refresh) (allowed) :
    Sound { s with refreshes := s.refreshes.set i { refresh with allowed := some allowed } } := by
  have hmem : ∀ r ∈ s.refreshes.set i { refresh with allowed := some allowed },
      ∃ old ∈ s.refreshes, r.generation = old.generation ∧ r.version = old.version := by
    intro r hr
    rcases mem_or_eq_of_mem_set hr with hr | rfl
    · exact ⟨r, hr, rfl, rfl⟩
    · exact ⟨refresh, mem_of_getElem? hre, rfl, rfl⟩
  have hves : (s.refreshes.set i { refresh with allowed := some allowed }).map (fun r => (r.generation, r.version)) =
      s.refreshes.map fun r => (r.generation, r.version) := map_set_of hre rfl
  refine { h with refresh_lt := ?_, refreshing := ?_, versions := ?_ }
  · grind [→ h.refresh_lt]
  · intro r hr topic c hc hge
    obtain ⟨old, hold, hg, hv⟩ := hmem r hr
    rw [hv]
    exact h.refreshing old hold topic c hc (hge.trans hg)
  · show ((s.refreshes.set i _).map _).Nodup
    rw [hves]
    exact h.versions

theorem Sound.settle (i) : Sound { s with refreshes := s.refreshes.eraseIdx i } :=
  { h with
    refresh_lt := fun r hr => h.refresh_lt r (mem_of_mem_eraseIdx hr)
    refreshing := fun r hr => h.refreshing r (mem_of_mem_eraseIdx hr)
    versions := ((eraseIdx_sublist _ _).map _).nodup h.versions }

end

theorem update_ready (hc : s.channel topic = some c) (ok) : s.Update topic c { c with ready := some ok } :=
  ⟨hc, rfl, rfl, rfl, rfl, .inl rfl, fun hj => .inl hj, fun hr => .inl hr⟩

theorem Sound.move (h : Sound s) (hmo : Move transport s s') : Sound s' := by
  cases hmo with
  | tweak hco _ _ => exact h.congr hco
  | close => exact h.close
  | forward frame topic _ => exact h.forward topic
  | sendFrame frame hop => exact h.sendFrame hop
  | remove topic => exact h.remove topic
  | drop topic => exact h.congr rfl
  | update topic channel channel' hu _ => exact h.update hu
  | add channel hf => exact h.add hf
  | resolve i start hst => exact h.setStart hst rfl (fun _ => Iff.rfl) id
  | ready topic channel ok hc _ => exact h.update (update_ready hc ok)
  | deny i refresh hre => exact h.answered hre false
  | settle i => exact h.settle i
  | acknowledge generation =>
    exact { h with
      joined := fun topic c hc hj => mem_cons_of_mem _ (h.joined topic c hc hj)
      acks := fun ack hack => mem_cons_of_mem _ (h.acks ack hack) }
  | awaitAck ack hack =>
    refine { h with acks := ?_ }
    intro x hx
    rcases mem_append.mp hx with hx | hx
    · exact h.acks x hx
    · rw [mem_singleton.mp hx]
      exact hack
  | dropAck i => exact { h with acks := fun ack hack => h.acks ack (mem_of_mem_eraseIdx hack) }

theorem Sound.path (h : Sound s) (hpa : Path transport s s') : Sound s' := by
  induction hpa with
  | refl => exact h
  | tail _ hmo ih => exact ih.move hmo

theorem update_awaiting (hc : s.channel topic = some c) :
    s.Update topic c { c with refreshVersion := c.refreshVersion + 1, refreshing := true } :=
  ⟨hc, rfl, rfl, rfl, rfl, .inr ⟨Nat.lt_succ_self _, rfl⟩, fun hj => .inl hj, fun hr => (nomatch hr)⟩

theorem Sound.awaitRefresh {message} (h : Sound s) (hc : s.channel message.topic = some c) (token stamp replaying) :
    Sound (s.awaitRefresh c message token stamp replaying) := by
  have hset : Sound (s.setChannel message.topic { c with refreshVersion := c.refreshVersion + 1, refreshing := true }) :=
    h.update (update_awaiting hc)
  have hch : (s.setChannel message.topic { c with refreshVersion := c.refreshVersion + 1, refreshing := true }).channel message.topic =
      some { c with refreshVersion := c.refreshVersion + 1, refreshing := true } := by
    rw [channel_set hc, if_pos rfl]
  refine { hset with refresh_lt := ?_, refreshing := ?_, versions := ?_ }
  · intro r hr
    rcases mem_append.mp hr with hr | hr
    · exact h.refresh_lt r hr
    · rw [mem_singleton.mp hr]
      exact h.generation_lt message.topic c hc
  · intro r hr topic c' hc' hge
    rcases mem_append.mp hr with hr | hr
    · exact hset.refreshing r hr topic c' hc' hge
    · cases mem_singleton.mp hr
      cases hset.unique topic message.topic c' _ hc' hch hge
      cases hch.symm.trans hc'
      exact ⟨le_refl _, fun _ => rfl⟩
  · show ((s.refreshes ++ [_]).map fun r : Refresh => (r.generation, r.version)).Nodup
    rw [map_append, nodup_append]
    refine ⟨h.versions, nodup_singleton _, ?_⟩
    rintro pair hpr pair' hpa' rfl
    obtain ⟨r, hr, hrp⟩ := mem_map.mp hpr
    rw [map_singleton, mem_singleton] at hpa'
    obtain ⟨hge, hve⟩ : r.generation = c.generation ∧ r.version = c.refreshVersion + 1 := Prod.mk.inj (hrp.trans hpa')
    have hle := (h.refreshing r hr message.topic c hc hge.symm).1
    omega

end Session

end Supacloud.RealtimeProxy
