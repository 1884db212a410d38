import Supacloud.Webhooks.Lemmas.Attempts
import Supacloud.Webhooks.Lemmas.Deliveries

/-!
# Webhook の送り箱の性質
-/

namespace Supacloud.Webhooks

open Library List

/-! ## 終わった行 -/

def Final (now : Timestamp) (es : List Event) : Prop :=
  ∀ before middle after, es = before ++ (middle ++ after) → ∀ id status, status.unfinished = false →
    (reached now before).db.statusOf id = some status → (reached now (before ++ middle)).db.statusOf id = some status

/-- 行の終わりが動かない走行は、どの記録の書き込みも、終わった行の状態を別のものにしない走行に限る。 -/
theorem final_iff_keepsEnd (now : Timestamp) (es : List Event) : Final now es ↔ Along step KeepsEnd (World.empty now) es := by
  constructor
  · intro h
    rw [along_iff]
    intro before e after hsp
    cases e with
    | persist call =>
      intro f hf attempt ha status hs hend
      have hke := h before [.persist call] after (by simpa using hsp) _ status hend hs
      have hsta : f.stage = .attempted attempt := by
        cases hst : f.stage <;> simp_all [Stage.attempt?]
      have hwr := persist_statusOf (base_reached now before) hf hsta
      rw [reached, run_append, run_cons, run_nil] at hke
      exact Option.some.inj (hwr.symm.trans hke)
    | _ => trivial
  · rintro h before middle after rfl id status hend hs
    rw [Along.append, Along.append] at h
    rw [reached, run_append]
    -- 終わった後の一歩ごとに、状態は保たれる。
    have hinv : Base (reached now before) ∧ (reached now before).db.statusOf id = some status :=
      ⟨base_reached now before, hs⟩
    refine (h.2.1.invariant (I := fun w => Base w ∧ w.db.statusOf id = some status) ?_ hinv).2
    intro w e hw hk
    exact ⟨step_base hw.1 e, (step_effect hw.1 e).keeps_end hw.1 hk hw.2 hend⟩

def claimedOnce : List Event :=
  [.createWebhook "p" "https://example.test" ["*"] true,
   .enqueueEvent "p" { eventId := 7, eventType := "order.paid", payload := "", idempotencyKey := "k", replayOfDeliveryId := none },
   .claim [], .request 0]

def lateFailure : List Event :=
  claimedOnce ++ [.tick (seconds 301), .claim [], .request 1, .respond 1 200, .persist 1] ++ [.fetchFailed 0 "timeout", .persist 0]

def deletedInFlight : List Event :=
  claimedOnce ++ [.respond 0 500, .deleteWebhook "p" 0] ++ [.persist 0]

theorem ended_row_reopened : ¬ Final 0 lateFailure ∧ ¬ Final 0 deletedInFlight := by
  constructor
  · intro h
    have hs := h (claimedOnce ++ [.tick (seconds 301), .claim [], .request 1, .respond 1 200, .persist 1])
      [.fetchFailed 0 "timeout", .persist 0] [] rfl 1 .delivered rfl (by decide)
    exact absurd hs (by decide)
  · intro h
    have hs := h (claimedOnce ++ [.respond 0 500, .deleteWebhook "p" 0]) [.persist 0] [] rfl 1 .cancelled rfl
      (by decide)
    exact absurd hs (by decide)

/-! ## 試みの上限 -/

/-- 行の要求の数は上限を超えず、試みを使い切って進行中の呼び出しもなければ、行は終わっている。 -/
structure Bounded (w : World) (o : OutboxRow) : Prop where
  limit : w.requestCount o.id ≤ o.maxAttempts
  ended : w.requestCount o.id = o.maxAttempts ∨ o.attemptCount = o.maxAttempts →
    (∀ f ∈ w.flights, f.claimed.outboxId ≠ o.id) → o.status = .delivered ∨ o.status = .deadLettered

/-- 最後の試みが時間のうちに記録される走行では、どの行の要求も上限までで、使い切った行は終わっている。 -/
theorem attempts_bounded (now : Timestamp) (es : List Event) (h : Along step SettlesLast (World.empty now) es) :
    ∀ o ∈ (reached now es).db.outbox, Bounded (reached now es) o := by
  have hinv : Base (reached now es) ∧ Counted (reached now es) := by
    refine h.invariant (I := fun w => Base w ∧ Counted w) ?_ ⟨base_empty now, counted_empty now⟩
    intro w e hw hk
    exact ⟨step_base hw.1 e, (step_effect hw.1 e).counted hw.1 hw.2 hk⟩
  intro o ho
  have hse := hinv.1.requests o ho
  have hbo := hinv.2.bound o ho
  refine ⟨by omega, ?_⟩
  intro hla hno
  rcases hinv.2.last o ho (by omega) with ⟨f, hf, hid, -⟩ | hend
  · exact absurd hid (hno f hf)
  · exact hend

def fiveFailures : List Event :=
  claimedOnce ++ [.respond 0 500, .persist 0] ++
    [1, 2, 3, 4].flatMap fun call => [.tick (seconds 7200), .claim [], .request call, .respond call 500, .persist call]

theorem attempts_bounded_five : Along step SettlesLast (World.empty 0) fiveFailures ∧
    (reached 0 fiveFailures).requestCount 1 = 5 ∧ (reached 0 fiveFailures).db.statusOf 1 = some .deadLettered ∧
    ∀ o ∈ (reached 0 fiveFailures).db.outbox, Bounded (reached 0 fiveFailures) o :=
  ⟨by decide, by decide, by decide, attempts_bounded 0 fiveFailures (by decide)⟩

def crashedLast : List Event :=
  claimedOnce ++ [.respond 0 500, .persist 0] ++
    ([1, 2, 3].flatMap fun call => [.tick (seconds 7200), .claim [], .request call, .respond call 500, .persist call]) ++
    [.tick (seconds 7200), .claim [], .request 4, .crash 4, .tick (seconds 301), .claim [], .request 5]

theorem sixth_request_sent : ¬ ∀ o ∈ (reached 0 crashedLast).db.outbox, Bounded (reached 0 crashedLast) o := by
  intro h
  have hsix : ∃ o ∈ (reached 0 crashedLast).db.outbox, o.maxAttempts < (reached 0 crashedLast).requestCount o.id := by
    decide
  obtain ⟨o, ho, hlt⟩ := hsix
  exact absurd (h o ho).limit (Nat.not_le_of_lt hlt)

def KeyNamesEvent (projectRef : String) (now : Timestamp) (ops : List Operation) : Prop :=
  ∀ before after, ops = before ++ after → SameEvent projectRef (run (perform projectRef) (World.empty now) before) ∧
      OncePerWebhook projectRef (run (perform projectRef) (World.empty now) before)

/-- 鍵が一つの知らせを指すのは、行を足す登録が、いつも前の行と同じ知らせを持つときに限る。 -/
theorem key_names_event (projectRef : String) (now : Timestamp) (ops : List Operation) :
    KeyNamesEvent projectRef now ops ↔ Along (perform projectRef) (RepeatsEvent projectRef) (World.empty now) ops := by
  have hem : SameEvent projectRef (World.empty now) := fun o ho => absurd ho not_mem_nil
  have hiff := along_iff_forall (perform projectRef) ops (C := RepeatsEvent projectRef) (I := SameEvent projectRef)
    (J := Registered projectRef) (fun _ _ hre => hre.perform) (fun _ _ _ hsa => repeatsEvent_iff hsa)
    registered_empty hem
  rw [hiff]
  constructor
  · exact fun h before after hsp => (h before after hsp).1
  · intro h before after hsp
    have hre : Registered projectRef (run (perform projectRef) (World.empty now) before) :=
      run_invariant (fun _ _ hw => hw.perform) registered_empty
    exact ⟨h before after hsp, oncePerWebhook_iff.mpr hre.once⟩

def enqueuedAgain : List Operation :=
  let item (eventId : Uuid) : NewItem :=
    { eventId, eventType := "order.paid", payload := "", idempotencyKey := "k", replayOfDeliveryId := none }
  [.createWebhook "https://a.test" ["*"] true, .enqueueEvent (item 7), .createWebhook "https://b.test" ["*"] true, .enqueueEvent (item 8)]

theorem second_event_enqueued : ¬ KeyNamesEvent "p" 0 enqueuedAgain := by
  intro h
  have hsa := (h enqueuedAgain [] (append_nil _).symm).1
  exact absurd hsa (by unfold SameEvent; decide)

/-! ## 配達の一覧 -/

def Deliveries.listing (t : Deliveries) (ref : String) (webhookId : ℕ) (input : ListInput) : List Delivery :=
  (t.rows.filter (input.selects ref webhookId)).mergeSort Delivery.first

theorem followPages_exact (t : Deliveries) (ref webhookId input) {fuel} (hfu : t.rows.length < fuel) :
    ∃ items, followPages t.rows ref webhookId input fuel none = some items ∧ items.Sublist (t.listing ref webhookId input) ∧
      (items.Perm (t.rows.filter (input.selects ref webhookId)) ↔ Seamless (pageLimit input.limit) (t.listing ref webhookId input)) := by
  have hpe : (t.listing ref webhookId input).Perm (t.rows.filter (input.selects ref webhookId)) := mergeSort_perm _ _
  have hor : Ordered (t.listing ref webhookId input) := ordered_mergeSort (t.keys.sublist (filter_sublist.map _))
  have hle : (t.listing ref webhookId input).length < fuel := hpe.length_eq ▸ (length_filter_le ..).trans_lt hfu
  obtain ⟨items, hwa, hsub, hiff⟩ := walk_exact (pageLimit_pos input.limit) hor hle
  refine ⟨items, ?_, hsub, ?_⟩
  · have hsa := filter_mergeSort t.keys (input.selects ref webhookId)
    rw [followPages_eq t.keys, ← hsa]
    simpa [Deliveries.listing] using hwa
  · rw [← hiff]
    exact ⟨fun h => hsub.eq_of_length (h.trans hpe.symm).length_eq, fun h => h ▸ hpe⟩

/-- たどりは必ず終わり、行を重ねない。すべてを返すのは、どの頁の次の行も、切り捨てた値より前にあるときに限る。 -/
theorem listDeliveries_complete (t : Deliveries) (ref : String) (webhookId : ℕ) (input : ListInput) (extra : ℕ) :
    ∃ items, followPages t.rows ref webhookId input (t.rows.length + 1 + extra) none = some items ∧ items.Nodup ∧
      (items.Perm (t.rows.filter (input.selects ref webhookId)) ↔ Seamless (pageLimit input.limit) (t.listing ref webhookId input)) := by
  obtain ⟨items, hpas, hsub, hiff⟩ := followPages_exact t ref webhookId input (Nat.lt_of_lt_of_le (Nat.lt_succ_self _) (Nat.le_add_right _ extra))
  have hnd : (t.listing ref webhookId input).Nodup := ((mergeSort_perm _ _).nodup_iff).mpr (t.keys.of_map.filter _)
  exact ⟨items, hpas, hnd.sublist hsub, hiff⟩

def sameMillisecond : Deliveries where
  rows := [⟨2, "p", 1, 1500, "success", "e"⟩, ⟨1, "p", 1, 1400, "success", "e"⟩]
  keys := by decide

theorem sameMillisecond_skipped : ¬ ∃ extra items,
    followPages sameMillisecond.rows "p" 1 { limit := some (.finite 1) } (2 + 1 + extra) none = some items ∧ items.Perm sameMillisecond.rows := by
  rintro ⟨extra, items, hits, hpe⟩
  have hfu : sameMillisecond.rows.length < 2 + 1 + extra := by
    simp only [sameMillisecond, length_cons, length_nil]
    omega
  obtain ⟨items', hit', -, hiff⟩ := followPages_exact sameMillisecond "p" 1 { limit := some (.finite 1) } hfu
  cases hits.symm.trans hit'
  have hli : sameMillisecond.listing "p" 1 { limit := some (.finite 1) } = sameMillisecond.rows :=
    mergeSort_of_pairwise (by decide)
  rw [hli] at hiff
  have hab := hiff.mp hpe 0 _ _ rfl rfl
  exact absurd hab (by decide)

/-- 一つの試みを二つの送信が持つことはなく、送った要求は数えた試みを超えず、記録した試みは送信中でない。 -/
theorem attempts_distinct (now : Timestamp) (es : List Event) :
    let w := reached now es
    (w.flights.map Flight.key).Nodup ∧ (∀ o ∈ w.db.outbox, w.requestCount o.id ≤ o.attemptCount) ∧
      ∀ d ∈ w.db.deliveries, ∀ f ∈ w.flights, f.key ≠ (d.outboxId, d.attempt) := by
  have hba := base_reached now es
  exact ⟨hba.keys, fun o ho => Nat.le_of_add_right_le (hba.requests o ho), fun d hd => (hba.recorded d hd).2⟩

end Supacloud.Webhooks
