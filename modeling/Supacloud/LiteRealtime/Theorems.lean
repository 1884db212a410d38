import Supacloud.LiteRealtime.Lemmas.Membership
import Supacloud.LiteRealtime.Lemmas.Presence

/-!
# 軽量版の実時間通信の主な結果
-/

namespace Supacloud.LiteRealtime

open Library World

namespace Membership

/-- 後の同じ topic のメッセージを追い越す参加のない走行では、参加は送られた順にしたがい、切断した接続は、
チャネルもタイマーも持たない。 -/
theorem membership_follows_order (toUpperCase : String → String) (minimalBootstrap resolvesExternalToken : Bool) (events : List Event)
    (h : Along World.step World.InOrder (.start toUpperCase minimalBootstrap resolvesExternalToken) events) :
    ∀ before after, events = before ++ after →
      let w := run World.step (.start toUpperCase minimalBootstrap resolvesExternalToken) before
      w.Follows ∧ (w.closed = true → (∀ topic, w.channels.lookup topic = none) ∧ w.timers = []) := by
  intro before after hsp
  rw [hsp, Along.append] at h
  obtain ⟨hfos, hhe⟩ := h.1.invariant (I := fun w => w.Follows ∧ w.Held) (fun _ _ hw hor => step_follows hw hor) start_follows
  refine ⟨hfos, fun hcl => ?_⟩
  have hno : ∀ topic, (run World.step (.start toUpperCase minimalBootstrap resolvesExternalToken) before).channels.lookup topic = none := by
    intro topic
    have hto := hfos topic
    rw [hcl, if_pos rfl] at hto
    exact Option.map_eq_none_iff.mp hto
  refine ⟨hno, List.eq_nil_iff_forall_not_mem.mpr fun timer hti => ?_⟩
  obtain ⟨topic, channel, hch, -⟩ := hhe timer hti
  rw [hno topic] at hch
  cases hch

def room : Join where
  topic := "realtime:room"
  ref := some "1"
  joinRef := none
  accessToken := some none
  isPrivate := false
  broadcastSelf := false
  broadcastAck := false
  presenceKey := some "k"
  presenceEnabled := true
  postgresChanges := []

def anon : Answer where
  failed := none
  ctx := { role := "anon", exp := some 1 }
  read := true
  write := true
  tables := 0
  uuid := "u"

/-- 二つの参加は重なり、順を変えて決まる。切断の前には、期限のタイマーが一つ残る。 -/
def overlapping : List Event :=
  [.join room, .join { room with topic := "realtime:lobby" }, .resume 1 anon, .resume 0 anon, .leave "realtime:room", .close]

theorem membership_follows_order_left : let start := World.start String.toUpper false true
    (run World.step start overlapping).Follows ∧ (run World.step start overlapping).timers = [] ∧
      (run World.step start (overlapping.take 5)).timers = [0] := by
  have hor : Along World.step World.InOrder (.start String.toUpper false true) overlapping :=
    ⟨trivial, trivial, inOrder_resume (by decide) (by decide), inOrder_resume (by decide) (by decide), trivial, trivial, trivial⟩
  obtain ⟨hfo, hcl⟩ := membership_follows_order String.toUpper false true overlapping hor overlapping [] rfl
  exact ⟨hfo, (hcl rfl).2, by decide⟩

def leftWhileJoining : List Event := [.join room, .leave "realtime:room", .resume 0 anon]

theorem membership_out_of_order : (∀ entry ∈ (run World.step (.start String.toUpper false false) leftWhileJoining).entries, entry.running = false) ∧
    ¬ (run World.step (.start String.toUpper false false) leftWhileJoining).Follows := by
  constructor
  · decide
  · intro h
    cases h "realtime:room"

end Membership

end Supacloud.LiteRealtime
