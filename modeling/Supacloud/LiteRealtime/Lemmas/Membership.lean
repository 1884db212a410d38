import Supacloud.Library.Runs
import Supacloud.LiteRealtime.Membership

/-! # 参加の順 -/

namespace Supacloud.LiteRealtime.Membership

open Library World Entry List

variable {w w' : World} {topic topic' : String} {entries : List Entry} {entry : Entry} {id : ℕ} {channel : Channel}

def Channel.untimed (channel : Channel) : Channel := { channel with expiryTimer := none }

def lastOk (entries : List Entry) (topic : String) : Option Entry := (entries.filter fun e => e.topic = topic && e.answeredOk).getLast?

def Entry.joined : Entry → Option Channel
  | .join message (.joined setup) => some (message.channel setup)
  | _ => none

namespace World

def start (toUpperCase : String → String) (minimalBootstrap resolvesExternalToken : Bool) : World where
  toUpperCase := toUpperCase
  minimalBootstrap := minimalBootstrap
  resolvesExternalToken := resolvesExternalToken
  closed := false
  channels := ∅
  timers := []
  nextTimer := 0
  bindingCounter := 1
  entries := []

/-- 参加は、`ok` と答えた終わりのメッセージにしたがい、切断した接続にはない。 -/
def Follows (w : World) : Prop :=
  ∀ topic, (w.channels.lookup topic).map Channel.untimed = if w.closed then none else (lastOk w.entries topic).bind Entry.joined

def Held (w : World) : Prop := ∀ timer ∈ w.timers, ∃ topic channel, w.channels.lookup topic = some channel ∧ channel.expiryTimer = some timer

/-- 参加が決まるとき、接続は開いていて、後に送られた同じ topic のメッセージには、まだ `ok` と答えていない。 -/
def InOrder (w : World) : Event → Prop
  | .resume id answer => ∀ (message : Join) (pc : Pc) (setup : Setup), w.entries[id]? = some (.join message pc) →
      (Entry.join message pc).running = true → message.advance w.toUpperCase w.minimalBootstrap w.bindingCounter answer pc = .joined setup →
      w.closed = false ∧ ∀ (later : ℕ) (entry : Entry), id < later → w.entries[later]? = some entry → entry.topic = message.topic →
        entry.answeredOk = false
  | _ => True

end World

theorem inOrder_resume {answer} (hop : w.closed = false)
    (hla : ∀ e ∈ w.entries.drop (id + 1), w.entries[id]?.map Entry.topic = some e.topic → e.answeredOk = false) :
    w.InOrder (.resume id answer) := by
  intro message pc setup hen _ _
  refine ⟨hop, fun later entry hlt hget hto => hla entry ?_ (by rw [hen, hto]; rfl)⟩
  rw [mem_iff_getElem?]
  exact ⟨later - (id + 1), by rw [getElem?_drop, Nat.add_sub_cancel' hlt, hget]⟩

theorem lastOk_append : lastOk (entries ++ [entry]) topic =
    if entry.topic = topic ∧ entry.answeredOk = true then some entry else lastOk entries topic := by
  unfold lastOk
  rw [filter_append]
  by_cases h : entry.topic = topic ∧ entry.answeredOk = true
  · simp [h.1, h.2]
  · rw [if_neg h, filter_cons_of_neg (by simpa using h), filter_nil, append_nil]

theorem lastOk_set (new) (h : entries[id]? = some entry) (hold : entry.answeredOk = false) (hto : new.topic = entry.topic)
    (hla : new.answeredOk = true → ∀ (later) (other), id < later → entries[later]? = some other → other.topic = entry.topic →
      other.answeredOk = false) (topic) :
    lastOk (entries.set id new) topic = if entry.topic = topic ∧ new.answeredOk = true then some new else lastOk entries topic := by
  obtain ⟨hlt, hget⟩ := List.getElem?_eq_some_iff.mp h
  obtain ⟨before, after, hsp, hle, hset⟩ : ∃ before after, entries = before ++ entries[id] :: after ∧ before.length = id ∧
      entries.set id new = before ++ new :: after := exists_of_set hlt
  rw [hget] at hsp
  rw [hset, hsp]
  unfold lastOk
  rw [filter_append, filter_append, filter_cons_of_neg (a := entry) (by simp [hold])]
  by_cases hnew : entry.topic = topic ∧ new.answeredOk = true
  · have haf : after.filter (fun e => e.topic = topic && e.answeredOk) = [] := by
      refine filter_eq_nil_iff.mpr fun other hot => ?_
      obtain ⟨i, hi, rfl⟩ := mem_iff_getElem.mp hot
      have hat : entries[id + 1 + i]? = some after[i] := by grind
      intro hok
      simp only [Bool.and_eq_true, decide_eq_true_eq] at hok
      rw [hla hnew.2 _ _ (by omega) hat (hok.1.trans hnew.1.symm)] at hok
      cases hok.2
    rw [if_pos hnew, filter_cons_of_pos (by simp [hto, hnew.1, hnew.2]), haf, getLast?_append]
    rfl
  · rw [if_neg hnew, filter_cons_of_neg (by simpa [hto] using hnew)]

/-! ## チャネルの出入り -/

theorem lookup_leave : (w.leaveChannel topic).channels.lookup topic' = if topic' = topic then none else w.channels.lookup topic' := by
  unfold leaveChannel
  by_cases hto : topic' = topic
  · subst hto
    split
    · rename_i hnn
      rw [if_pos rfl, hnn]
    · simp
  · rw [if_neg hto]
    split
    · rfl
    · exact AList.lookup_erase_ne hto

theorem held_leave (topic) (h : w.Held) : (w.leaveChannel topic).Held := by
  unfold leaveChannel
  split
  · exact h
  · rename_i channel hch
    intro timer hti
    obtain ⟨hti, hne⟩ := mem_filter.mp hti
    obtain ⟨topic', channel', hlo, hhe⟩ := h timer hti
    have hto : topic' ≠ topic := by
      rintro rfl
      rw [hch] at hlo
      cases hlo
      simp [hhe] at hne
    exact ⟨topic', channel', (AList.lookup_erase_ne hto).trans hlo, hhe⟩

theorem leave_fields : (w.leaveChannel topic).closed = w.closed ∧ (w.leaveChannel topic).entries = w.entries := by
  unfold leaveChannel
  split <;> exact ⟨rfl, rfl⟩

theorem lookup_schedule : ((w.scheduleExternalExpiry topic channel).channels.lookup topic').map Channel.untimed =
      if topic' = topic then some channel.untimed else (w.channels.lookup topic').map Channel.untimed := by
  unfold scheduleExternalExpiry
  dsimp only
  by_cases hto : topic' = topic
  · subst hto
    split <;> simp [Channel.untimed]
  · rw [if_neg hto]
    split <;> simp [AList.lookup_insert_ne hto, clearTimer]

theorem held_schedule (h : w.Held) (hnn : w.channels.lookup topic = none) : (w.scheduleExternalExpiry topic channel).Held := by
  have hke : ∀ channel' timer, timer ∈ w.timers →
      ∃ topic' held, (w.channels.insert topic channel').lookup topic' = some held ∧ held.expiryTimer = some timer := by
    intro channel' timer hmem
    obtain ⟨topic', held, hlo, hhe⟩ := h timer hmem
    have hto : topic' ≠ topic := by
      rintro rfl
      rw [hnn] at hlo
      cases hlo
    exact ⟨topic', held, (AList.lookup_insert_ne hto).trans hlo, hhe⟩
  unfold scheduleExternalExpiry
  dsimp only
  split
  · intro timer hmem
    obtain hold | hnew := mem_append.mp hmem
    · exact hke _ timer (mem_filter.mp hold).1
    · rw [mem_singleton.mp hnew]
      exact ⟨topic, _, AList.lookup_insert _, rfl⟩
  · intro timer hmem
    exact hke _ timer (mem_filter.mp hmem).1

theorem schedule_fields : (w.scheduleExternalExpiry topic channel).closed = w.closed ∧ (w.scheduleExternalExpiry topic channel).entries = w.entries := by
  unfold scheduleExternalExpiry
  dsimp only
  split <;> exact ⟨rfl, rfl⟩

theorem leaveAll (topics : List String) (h : w.Held) : (topics.foldl leaveChannel w).Held ∧
    ∀ topic', (topics.foldl leaveChannel w).channels.lookup topic' = if topic' ∈ topics then none else w.channels.lookup topic' := by
  induction topics generalizing w with
  | nil => exact ⟨h, fun topic' => by simp⟩
  | cons topic topics ih =>
    obtain ⟨hhe, hlo⟩ := ih (held_leave topic h)
    refine ⟨hhe, fun topic' => ?_⟩
    rw [foldl_cons, hlo, lookup_leave]
    by_cases hmem : topic' ∈ topics
    · simp [hmem]
    · simp [hmem]

/-! ## 一歩 -/

theorem World.Follows.congr (h : w.Follows) (hchs : w'.channels = w.channels) (hcl : w'.closed = w.closed)
    (hens : ∀ topic, lastOk w'.entries topic = lastOk w.entries topic) : w'.Follows := by
  intro topic
  rw [hchs, hcl, hens]
  exact h topic

theorem step_follows {event} (h : w.Follows ∧ w.Held) (hor : w.InOrder event) : (w.step event).Follows ∧ (w.step event).Held := by
  obtain ⟨h, hhe⟩ := h
  cases event with
  | join message =>
    have hsa : ∀ pc, (join message pc).answeredOk = false → ∀ topic,
        lastOk (w.entries ++ [.join message pc]) topic = lastOk w.entries topic := by
      intro pc hpc topic
      rw [lastOk_append, if_neg (by simp [hpc])]
    unfold step
    dsimp only
    split
    · exact ⟨h.congr rfl rfl (hsa _ rfl), hhe⟩
    · exact ⟨h.congr rfl rfl (hsa _ rfl), hhe⟩
  | leave topic =>
    refine ⟨fun topic' => ?_, held_leave _ hhe⟩
    show ((w.leaveChannel topic).channels.lookup topic').map _ =
      if (w.leaveChannel topic).closed then none else (lastOk (w.entries ++ [.leave topic]) topic').bind _
    rw [lookup_leave, leave_fields.1, lastOk_append]
    by_cases hto : topic' = topic
    · subst hto
      simp [topic, answeredOk, joined]
    · have hne : ¬ ((leave topic).topic = topic' ∧ (leave topic).answeredOk = true) := fun hsa => hto hsa.1.symm
      rw [if_neg hto, if_neg hne]
      exact h topic'
  | close =>
    obtain ⟨hhe', hlo⟩ := leaveAll w.channels.keys hhe
    refine ⟨fun topic => ?_, hhe'⟩
    show ((w.channels.keys.foldl leaveChannel w).channels.lookup topic).map _ = none
    rw [hlo]
    split
    · rfl
    · rename_i hnot
      rw [AList.lookup_eq_none.mpr hnot]
      rfl
  | resume id answer =>
    unfold step
    dsimp only
    split
    · rename_i message pc hen
      split
      · rename_i hru
        have hold : (join message pc).answeredOk = false := by
          cases pc <;> first | rfl | cases hru
        generalize hnx : message.advance w.toUpperCase w.minimalBootstrap w.bindingCounter answer pc = next
        have hla : (join message next).answeredOk = true → w.closed = false ∧ ∀ (later) (other), id < later →
            w.entries[later]? = some other → other.topic = message.topic → other.answeredOk = false := by
          intro hok
          cases next with
          | joined setup => exact hor message pc setup hen hru hnx
          | _ => cases hok
        have hset := lastOk_set (.join message next) hen hold rfl fun hok => (hla hok).2
        split
        · rename_i setup
          obtain ⟨hop, -⟩ := hla rfl
          refine ⟨fun topic => ?_, held_schedule (held_leave _ hhe) (by rw [lookup_leave, if_pos rfl])⟩
          rw [lookup_schedule, lookup_leave, schedule_fields.1, schedule_fields.2, leave_fields.1, leave_fields.2, hset]
          by_cases hto : topic = message.topic
          · subst hto
            simp [hop, topic, answeredOk, joined, Channel.untimed, Join.channel]
          · have hne : ¬ ((join message pc).topic = topic ∧ (join message (.joined setup)).answeredOk = true) :=
              fun hsa => hto hsa.1.symm
            rw [if_neg hto, if_neg hto, if_neg hne]
            exact h topic
        · rename_i hne
          have hno : (join message next).answeredOk = false := by
            cases next with
            | joined setup => exact absurd rfl (hne setup)
            | _ => rfl
          refine ⟨h.congr rfl rfl fun topic => ?_, hhe⟩
          rw [hset, if_neg (by simp [hno])]
      · exact ⟨h, hhe⟩
    · exact ⟨h, hhe⟩

theorem start_follows {toUpperCase minimalBootstrap resolvesExternalToken} :
    let w := start toUpperCase minimalBootstrap resolvesExternalToken
    w.Follows ∧ w.Held :=
  ⟨fun _ => rfl, nofun⟩

end Supacloud.LiteRealtime.Membership
