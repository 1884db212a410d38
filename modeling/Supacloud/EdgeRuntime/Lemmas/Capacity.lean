import Mathlib.Data.List.Sort
import Supacloud.EdgeRuntime.Lemmas.Work

/-!
# プロジェクトごとの先着順

鍵は要求が届いた順に増える。
-/

namespace Supacloud.EdgeRuntime

open Library Pool Pool List

structure InOrder (admitted started queued : List Nat) (nextKey : Nat) (fresh : Option Nat) : Prop where
  admitted_desc : admitted.Pairwise (· > ·)
  started_desc : started.Pairwise (· > ·)
  queued_asc : queued.Pairwise (· < ·)
  started_sub : started ⊆ admitted
  queued_sub : queued ⊆ admitted
  before : ∀ a ∈ started, ∀ b ∈ queued, a < b
  lt : ∀ a ∈ admitted, a < nextKey
  lt_fresh : ∀ k, fresh = some k → ∀ a ∈ admitted, a < k

def Orders (x : Stage) : Prop :=
  ∀ p, InOrder (admittedKeys p x.1.log) (startedKeys p x.1.log) (x.1.queuedKeys p) x.1.nextKey x.2.fresh

namespace InOrder

variable {admitted started queued queued' : List Nat} {nextKey : Nat} {fresh : Option Nat} {k : Nat}
  (h : InOrder admitted started queued nextKey fresh)

include h

theorem fewer (hs : queued'.Sublist queued) : InOrder admitted started queued' nextKey fresh :=
  { h with
    queued_asc := h.queued_asc.sublist hs
    queued_sub := fun _ hb => h.queued_sub (hs.subset hb)
    before := fun a ha b hb => h.before a ha b (hs.subset hb) }

theorem noFresh : InOrder admitted started queued nextKey none := { h with lt_fresh := nofun }

theorem newKey : InOrder admitted started queued (nextKey + 1) (some nextKey) :=
  { h with
    lt := fun a ha => Nat.lt_succ_of_lt (h.lt a ha)
    lt_fresh := fun k hk a ha => by
      cases hk
      exact h.lt a ha }

theorem push (hk : fresh = some k) (hlt : k < nextKey) : InOrder (k :: admitted) started (queued ++ [k]) nextKey none where
  admitted_desc := pairwise_cons.mpr ⟨h.lt_fresh k hk, h.admitted_desc⟩
  started_desc := h.started_desc
  queued_asc := by
    refine pairwise_append.mpr ⟨h.queued_asc, pairwise_singleton _ _, fun a ha b hb => ?_⟩
    rw [mem_singleton.mp hb]
    exact h.lt_fresh k hk a (h.queued_sub ha)
  started_sub := fun _ ha => mem_cons_of_mem _ (h.started_sub ha)
  queued_sub := fun a ha => by
    rcases mem_append.mp ha with ha | ha
    · exact mem_cons_of_mem _ (h.queued_sub ha)
    · rw [mem_singleton.mp ha]
      exact mem_cons_self
  before := fun a ha b hb => by
    rcases mem_append.mp hb with hb | hb
    · exact h.before a ha b hb
    · rw [mem_singleton.mp hb]
      exact h.lt_fresh k hk a (h.started_sub ha)
  lt := forall_mem_cons.mpr ⟨hlt, h.lt⟩
  lt_fresh := nofun

theorem pop (hq : queued = k :: queued') : InOrder admitted (k :: started) queued' nextKey fresh := by
  subst hq
  have hco := pairwise_cons.mp h.queued_asc
  exact { h with
    started_desc := pairwise_cons.mpr ⟨fun a ha => h.before a ha k mem_cons_self, h.started_desc⟩
    queued_asc := hco.2
    started_sub := cons_subset.mpr ⟨h.queued_sub mem_cons_self, h.started_sub⟩
    queued_sub := fun _ hb => h.queued_sub (mem_cons_of_mem _ hb)
    before := fun a ha b hb => by
      rcases mem_cons.mp ha with rfl | ha
      · exact hco.1 b hb
      · exact h.before a ha b (mem_cons_of_mem _ hb) }

theorem started_sublist : started.Sublist admitted := by
  have hnd : started.Nodup := h.started_desc.imp fun hab => Nat.ne_of_gt hab
  exact sublist_of_subperm_of_pairwise (subperm_of_subset hnd h.started_sub) h.started_desc h.admitted_desc

end InOrder

/-! ## 一手 -/

theorem startedKeys_started {k w p q log} :
    startedKeys p (.started k w q :: log) = if q = p then k :: startedKeys p log else startedKeys p log := by
  by_cases h : q = p
  · simp [startedKeys, LogEvent.startedKey, h]
  · simp [startedKeys, LogEvent.startedKey, h]

theorem admittedKeys_admitted {k p q log} :
    admittedKeys p (.admitted k q :: log) = if q = p then k :: admittedKeys p log else admittedKeys p log := by
  by_cases h : q = p
  · simp [admittedKeys, LogEvent.admittedKey, h]
  · simp [admittedKeys, LogEvent.admittedKey, h]

theorem Move.orders {c m x y} (hm : Move c m x y) (hb : Base c x) (hs : Serves c x) (h : Orders x) : Orders y := by
  cases hm with
  | newKey s g => exact fun p => (h p).newKey
  | refuse s g k r => exact fun p => (h p).noFresh
  | unqueue s g ds q r hall hsub =>
    intro p
    simp only [settleAll_eq, queuedKeys]
    rw [startedKeys, admittedKeys, filterMap_settled (fun _ _ => rfl), filterMap_settled (fun _ _ => rfl)]
    exact (h p).fewer ((hsub p).map _)
  | enqueue s g d hk =>
    intro p
    have hq : ((s.record (.admitted d.key d.projectRef)).enqueueQueued d).queuedKeys p =
        if p = d.projectRef then s.queuedKeys p ++ [d.key] else s.queuedKeys p := by
      simp only [queuedKeys, enqueueQueued, Pool.record, MultiQueue.at_push]
      split
      · rename_i he
        simp [he]
      · rfl
    show InOrder (admittedKeys p (.admitted d.key d.projectRef :: s.log)) (startedKeys p s.log) _ s.nextKey none
    rw [hq, admittedKeys_admitted]
    by_cases hp : d.projectRef = p
    · rw [if_pos hp, if_pos hp.symm]
      exact (h p).push hk (hb.keys.fresh_lt _ hk)
    · rw [if_neg hp, if_neg (Ne.symm hp)]
      exact (h p).noFresh
  | startQueued s g w d q hw hq =>
    obtain ⟨hat, hot, -⟩ := MultiQueue.popFor_some hq
    intro p
    show InOrder (admittedKeys p s.log) (startedKeys p (.started d.key w d.projectRef :: s.log)) ((q.at p).map (·.key)) s.nextKey g.fresh
    rw [startedKeys_started]
    split
    · rename_i he
      subst he
      refine (h d.projectRef).pop ?_
      rw [queuedKeys, hat]
      rfl
    · rename_i he
      rw [hot p (Ne.symm he)]
      exact h p
  | startFresh s g w d md hw hk hd hb' hcl hm ha ht hcap hc =>
    -- 列に待つ要求があれば上限に達しており、始められない。
    have hem : s.queue.at d.projectRef = [] := by
      by_contra hne
      have hca := (hs hd hb').quiet hcl d.projectRef hne
      rw [hw, ← executingCount_some] at hca
      exact absurd ((not_withinCap.mpr hca).symm.trans hcap) (by decide)
    intro p
    show InOrder (admittedKeys p (.admitted d.key d.projectRef :: s.log))
      (startedKeys p (.started d.key w d.projectRef :: _ :: _ :: s.log)) (s.queuedKeys p) s.nextKey none
    rw [startedKeys_started, admittedKeys_admitted]
    by_cases hp : d.projectRef = p
    · rw [if_pos hp, if_pos hp]
      subst hp
      have h1 := (h d.projectRef).push hk (hb.keys.fresh_lt _ hk)
      have hnil : s.queuedKeys d.projectRef = [] := by
        rw [queuedKeys, hem]
        rfl
      rw [hnil] at h1 ⊢
      exact h1.pop rfl
    · rw [if_neg hp, if_neg hp]
      exact (h p).noFresh
  | _ => exact h

/-! ## 走行 -/

theorem orders_initial {c} : Orders (Pool.initial c, {}) := by
  have h0 := untouched_initial (c := c)
  intro p
  have hst : startedKeys p (Pool.initial c).log = [] := h0.filterMap_log fun _ => rfl
  have hqu : (Pool.initial c).queuedKeys p = [] := by
    rw [queuedKeys, h0.queue]
    rfl
  have had : admittedKeys p (Pool.initial c).log = [] := h0.filterMap_log fun _ => rfl
  simp only [hst, hqu, had]
  exact {
    admitted_desc := .nil
    started_desc := .nil
    queued_asc := .nil
    started_sub := nil_subset _
    queued_sub := nil_subset _
    before := by simp
    lt := by simp
    lt_fresh := by simp }

theorem orders_run {c} (events) : Orders (run c (Pool.initial c) events, {}) := by
  have h : Serves c (run c (Pool.initial c) events, {}) ∧ Orders (run c (Pool.initial c) events, {}) :=
    run_invariant (m := {}) (I := fun x => Serves c x ∧ Orders x) ⟨serves_initial, orders_initial⟩
      (fun _ _ hm hb ⟨hs, h⟩ => ⟨hm.serves hb hs, hm.orders hb hs h⟩) allowsRun_any
  exact h.2

end Supacloud.EdgeRuntime

/-! ## テナントの上限 -/

namespace Supacloud.EdgeRuntime

open Library Pool

structure Seated (inFlight : List Execution) (active : List Worker) (project : Worker → Option ProjectRef)
    (handlers : Worker → Option Handler) (preheats : List PreheatJob) (draining : Bool) : Prop where
  owned : ∀ j ∈ preheats, j.owner ≠ .orphan
  active : draining = false → ∀ e ∈ inFlight, e.worker ∈ active
  project : draining = false → ∀ e ∈ inFlight, project e.worker = some e.dispatch.projectRef
  handler : draining = false → ∀ e ∈ inFlight, handlers e.worker = some (.execution e.key)

def Seats (x : Stage) : Prop :=
  Seated x.1.inFlight x.1.activeWorkers x.1.workerProjectRef x.1.handlers x.1.preheats x.1.draining

def Budgeted (c : Config) (x : Stage) : Prop :=
  ∀ p b, tenantBudget c p = .limited b → x.1.executionsOf p ≤ b.functionConcurrency ∧ (x.1.queue.at p).length ≤ b.queue

section Seated

variable {c : Config} {s : Pool} {g : Ghost}

theorem Seats.ownersOf_add (h : Seats (s, g)) (w : Worker) :
    s.ownersOf w + s.idle.count w + g.loose.count w = owners s.idle s.inFlight s.preheats s.bulk g.loose w := by
  have hfilter : (s.preheats.filter fun j => j.owner ≠ .bulk) = s.preheats.filter fun j => j.owner = .single :=
    List.filter_congr fun j hj => by
      have hno := h.owned j hj
      cases ho : j.owner <;> simp_all
  simp only [Pool.ownersOf, owners, held, hfilter]
  omega

theorem Seats.preheat_worker {e j} (hb : Base c (s, g)) (h : Seats (s, g)) (hj : j ∈ s.preheats) (he : e ∈ s.inFlight)
    (hm : s.metadata e.worker ≠ none) : j.worker ≠ e.worker := by
  intro hw
  have hone := hb.owned.le_one e.worker hm
  have hex : 0 < (s.inFlight.map (·.worker)).count e.worker := List.count_pos_iff.mpr (List.mem_map_of_mem he)
  simp only [owners] at hone
  cases ho : j.owner with
  | orphan => exact h.owned j hj ho
  | single =>
    have : 0 < (held s.preheats).count e.worker := List.count_pos_iff.mpr
      (List.mem_map.mpr ⟨j, List.mem_filter.mpr ⟨hj, by simpa using ho⟩, hw⟩)
    omega
  | bulk => grind [→ hb.jobs.reserved_worker]

theorem Seats.unowned {w e} (hb : Base c (s, g)) (h : Seats (s, g)) (hd : s.draining = false) (hu : Unowned s g w)
    (he : e ∈ s.inFlight) : e.worker ≠ w := by
  rintro rfl
  have hex : 0 < (s.inFlight.map (·.worker)).count e.worker := List.count_pos_iff.mpr (List.mem_map_of_mem he)
  rcases hu with hu | hu | hu | hu | ⟨j, hj, hw⟩
  · exact absurd (hu.symm.trans hd) nofun
  · have := (hb.loose_owners hu).1
    omega
  · have := (hb.idle_owners hu).1
    omega
  · exact hu e.key (h.handler hd e he)
  · exact Seats.preheat_worker hb h hj he (hb.places.active_known (h.active hd e he)) hw

theorem Base.loose_not_flying {w e} (hb : Base c (s, g)) (hw : w ∈ g.loose) (he : e ∈ s.inFlight) : e.worker ≠ w := by
  rintro rfl
  have hex : 0 < (s.inFlight.map (·.worker)).count e.worker := List.count_pos_iff.mpr (List.mem_map_of_mem he)
  have := (hb.loose_owners hw).1
  omega

end Seated

/-! ## 一手 -/

section Step

variable {inFlight inFlight' : List Execution} {active active' : List Worker} {project project' : Worker → Option ProjectRef}
  {handlers handlers' : Worker → Option Handler} {preheats preheats' : List PreheatJob} {draining draining' : Bool}

namespace Seated

variable (h : Seated inFlight active project handlers preheats draining)

include h

theorem keep (hd : draining' = false → draining = false) (hw : draining' = false → ∀ e ∈ inFlight, e.worker ∈ active →
      e.worker ∈ active' ∧ project' e.worker = project e.worker ∧ handlers' e.worker = handlers e.worker) :
    Seated inFlight active' project' handlers' preheats draining' where
  owned := h.owned
  active := fun hd' e he => (hw hd' e he (h.active (hd hd') e he)).1
  project := fun hd' e he => (hw hd' e he (h.active (hd hd') e he)).2.1.trans (h.project (hd hd') e he)
  handler := fun hd' e he => (hw hd' e he (h.active (hd hd') e he)).2.2.trans (h.handler (hd hd') e he)

theorem withJobs (hj : ∀ j ∈ preheats', j.owner ≠ .orphan) : Seated inFlight active project handlers preheats' draining :=
  { h with owned := hj }

theorem replace (hf : ∀ e ∈ inFlight', ∃ e₀ ∈ inFlight, e₀.dispatch = e.dispatch ∧ e₀.worker = e.worker)
    (hh : ∀ e ∈ inFlight', handlers' e.worker = handlers e.worker) : Seated inFlight' active project handlers' preheats draining where
  owned := h.owned
  active := fun hd e he => by
    obtain ⟨e₀, h₀, -, hw⟩ := hf e he
    exact hw ▸ h.active hd e₀ h₀
  project := fun hd e he => by
    obtain ⟨e₀, h₀, hdis, hw⟩ := hf e he
    rw [← hw, ← hdis]
    exact h.project hd e₀ h₀
  handler := fun hd e he => by
    obtain ⟨e₀, h₀, hdis, hw⟩ := hf e he
    rw [hh e he, ← hw, Execution.key, ← hdis]
    exact h.handler hd e₀ h₀

theorem start {w d} (ha : w ∈ active) (hp : project w = some d.projectRef) (hw : ∀ e ∈ inFlight, e.worker ≠ w) :
    Seated (inFlight ++ [{ dispatch := d, worker := w }]) active project
      (Function.update handlers w (some (.execution d.key))) preheats draining where
  owned := h.owned
  active := fun hd => List.forall_mem_append.mpr ⟨h.active hd, by simpa using ha⟩
  project := fun hd => List.forall_mem_append.mpr ⟨h.project hd, by simpa using hp⟩
  handler := fun hd => by
    refine List.forall_mem_append.mpr ⟨fun e he => ?_, by simp [Execution.key]⟩
    rw [Function.update_of_ne (hw e he)]
    exact h.handler hd e he

end Seated

end Step

theorem Seats.leaveWorker {s g g' w tracked} (h : Seats (s, g))
    (hw : s.draining = false → ∀ e ∈ s.inFlight, e.worker ≠ w) : Seats (s.leaveWorker w tracked, g') := by
  refine Seated.keep h id fun hd e he hact => ?_
  have hne := hw hd e he
  refine ⟨mem_setDelete.mpr ⟨hact, hne⟩, ?_, Function.update_of_ne hne _ _⟩
  have hpr : (s.leaveWorker w tracked).workerProjectRef = Function.update s.workerProjectRef w none := removed_project
  rw [hpr, Function.update_of_ne hne]

theorem Move.seats {c m} {x y : Stage} (hm : Move c m x y) (ht : m.tidy = true) (hb : Base c x) (h : Seats x) : Seats y := by
  cases hm with
  | unqueue s g ds q r =>
    simp only [Seats, settleAll_eq]
    exact h
  | flags s g draining blocked hdr =>
    refine Seated.keep h (fun hd => ?_) fun _ e _ ha => ⟨ha, rfl, rfl⟩
    exact Bool.eq_false_iff.mpr fun hs => absurd ((hdr hs).symm.trans hd) nofun
  | assign s g w p md hm ha hw =>
    refine Seated.keep h id fun hd e he hact => ⟨hact, ?_, rfl⟩
    have hne : e.worker ≠ w := by
      rcases hw with hw | hw | hw
      · exact hb.loose_not_flying hw he
      · exact fun heq => (hb.places.transit_out w hw).1 (heq ▸ hact)
      · rintro rfl
        have h1 := hb.owned.le_one e.worker (by simp [hm])
        have h2 : 0 < (s.inFlight.map (·.worker)).count e.worker := List.count_pos_iff.mpr (List.mem_map_of_mem he)
        have h3 := List.count_pos_iff.mpr hw.1
        simp only [owners] at h1
        omega
    rw [assignTo_project, Function.update_of_ne hne]
  | create s g =>
    refine Seated.keep h id fun _ e he hact => ⟨mem_setAdd.mpr (.inl hact), ?_, rfl⟩
    have hne : e.worker ≠ s.nextWorker := Nat.ne_of_lt (hb.active_lt hact)
    simp [workerProjectRef, createWorker, Pool.record, hne]
  | drop s g w tracked hw hu | shrink s g w hw hu => exact Seats.leaveWorker h fun hd e he => Seats.unowned hb h hd hu he
  | dropParked s g w tracked hw =>
    exact Seats.leaveWorker h fun hd e he heq => hb.places.parked_active w hw (heq ▸ h.active hd e he)
  | scrub s g w hm =>
    refine Seated.keep h id fun _ e he hact => ?_
    have hne : e.worker ≠ w := fun heq => hb.places.active_known hact (heq ▸ hm)
    exact ⟨hact, by rw [removed_project, Function.update_of_ne hne], Function.update_of_ne hne _ _⟩
  | park s g w hw =>
    exact Seated.keep h id fun _ e he hact => ⟨mem_setDelete.mpr ⟨hact, hb.loose_not_flying hw he⟩, rfl, rfl⟩
  | activate s g w ht => exact Seated.keep h id fun _ e he hact => ⟨mem_setAdd.mpr (.inl hact), rfl, rfl⟩
  | startQueued s g w d q hw hq hd hp =>
    exact Seated.start h (hb.places.loose_active w hw) hp fun e he => hb.loose_not_flying hw he
  | startFresh s g w d md hw =>
    have hlo : w ∈ g.loose := by simp [hw]
    have hpr : ((s.record (.admitted d.key d.projectRef)).assignTo w d.projectRef md).workerProjectRef =
        Function.update s.workerProjectRef w (some d.projectRef) := assignTo_project
    have h1 : Seated s.inFlight s.activeWorkers (Function.update s.workerProjectRef w (some d.projectRef)) s.handlers s.preheats
        s.draining := Seated.keep h id fun _ e he hact =>
      ⟨hact, Function.update_of_ne (hb.loose_not_flying hlo he) _ _, rfl⟩
    have h2 := h1.start (d := d) (hb.places.loose_active w hlo) (Function.update_self ..) fun e he =>
      hb.loose_not_flying hlo he
    rw [← hpr] at h2
    exact h2
  | finish s g e he =>
    refine Seated.replace h (fun x hx => ⟨x, List.mem_of_mem_filter hx, rfl, rfl⟩) fun x hx => ?_
    obtain ⟨hx, hk⟩ := List.mem_filter.mp hx
    have hne : x.worker ≠ e.worker := fun hw => by
      have := List.inj_on_of_nodup_map hb.owned.workers_nodup hx he hw
      simp [this] at hk
    simp only [cleanup]
    split
    · exact Function.update_of_ne hne _ _
    · rfl
  | update s g e e' he hd hw | resolve s g e e' r he hd hw => exact Seated.replace h (fun x hx => mem_updated he hd hw hx) fun _ _ => rfl
  | preheatStart s g j hid hp hpr hw =>
    refine Seated.withJobs h (List.forall_mem_append.mpr ⟨h.owned, fun x hx => ?_⟩)
    rw [List.mem_singleton.mp hx]
    rcases hw with hw | hw
    · simp [hw.1]
    · simp [hw.1]
  | jobs s g js hhe hsub =>
    refine Seated.withJobs h fun j hj => ?_
    obtain ⟨j', hj', -, -, ho⟩ := hsub j hj
    rcases ho with ho | ⟨hf, -⟩
    · exact ho ▸ h.owned j' hj'
    · rw [ht] at hf
      cases hf
  | endJob s g j hj => exact Seated.withJobs h fun x hx => h.owned x (List.mem_of_mem_filter hx)
  | setHandler s g j hj hm =>
    refine Seated.keep h id fun _ e he hact => ⟨hact, rfl, ?_⟩
    exact Function.update_of_ne (Seats.preheat_worker hb h hj he (hb.places.active_known hact)).symm _ _
  | clearHandler s g w i hh =>
    refine Seated.keep h id fun hd e he hact => ⟨hact, rfl, ?_⟩
    refine Function.update_of_ne (fun heq => ?_) _ _
    have := h.handler hd e he
    rw [heq, hh] at this
    cases this
  | _ => exact h

/-! ## 上限 -/

theorem Seats.executions_le {p c s g w} (hb : Base c (s, g)) (h : Seats (s, g))
    (hd : s.draining = false) (hw : w ∈ g.loose) : s.executionsOf p ≤ s.executingCount p (some w) := by
  have hnd : ((s.inFlight.filter fun e => e.dispatch.projectRef = p).map (·.worker)).Nodup :=
    hb.owned.workers_nodup.sublist (List.filter_sublist.map _)
  rw [executionsOf, ← List.length_map (f := fun e : Execution => e.worker)]
  refine (List.subperm_of_subset hnd fun x hx => ?_).length_le
  obtain ⟨e, he, rfl⟩ := List.mem_map.mp hx
  obtain ⟨he, hp⟩ := List.mem_filter.mp he
  have hp : e.dispatch.projectRef = p := by simpa using hp
  have hne : e.worker ≠ w := hb.loose_not_flying hw he
  have hidl : e.worker ∉ s.idle := fun hi => by
    have h1 := (hb.idle_owners hi).1
    have h2 : 0 < (s.inFlight.map (·.worker)).count e.worker := List.count_pos_iff.mpr (List.mem_map_of_mem he)
    omega
  refine List.mem_filter.mpr ⟨h.active hd e he, decide_eq_true ⟨fun heq => hne (Option.some.inj heq), hidl, ?_⟩⟩
  exact hp ▸ h.project hd e he

theorem executionsOf_le {p} {s : Pool} {l : List Execution} (hl : (l.map (·.dispatch)).Sublist (s.inFlight.map (·.dispatch))) :
    (l.filter fun e => e.dispatch.projectRef = p).length ≤ s.executionsOf p := by
  have h := (hl.filter fun d => decide (d.projectRef = p)).length_le
  rw [List.filter_map, List.filter_map, List.length_map, List.length_map] at h
  exact h

theorem updated_dispatch {l : List Execution} {e e'} (hn : (l.map Execution.key).Nodup) (he : e ∈ l) (hd : e'.dispatch = e.dispatch) :
    ((l.map fun x => if x.key = e'.key then e' else x).map (·.dispatch)).Sublist (l.map (·.dispatch)) := by
  have heq : (l.map fun x => if x.key = e'.key then e' else x).map (·.dispatch) = l.map (·.dispatch) := by
    rw [List.map_map]
    refine List.map_congr_left fun x hx => ?_
    by_cases hk : x.key = e'.key
    · have hxe : x = e := List.inj_on_of_nodup_map hn hx he (hk.trans (congrArg Dispatch.key hd))
      subst hxe
      simp [hk, hd]
    · simp [hk]
  rw [heq]

theorem executionsOf_begin {p} {s : Pool} {w d} :
    (s.beginExecution w d).executionsOf p = s.executionsOf p + if d.projectRef = p then 1 else 0 := by
  simp only [executionsOf, beginExecution, record, List.filter_append, List.length_append, List.filter_cons, List.filter_nil]
  by_cases hp : d.projectRef = p
  · simp [hp]
  · simp [hp]

theorem Budgeted.start {p c s g w} {d : Dispatch} {b} (hb : Base c (s, g))
    (hs : Seats (s, g)) (h : Budgeted c (s, g)) (hd : s.draining = false) (hw : w ∈ g.loose)
    (hcap : projectWithinFunctionCap c s d.projectRef (some w) = true) (hbud : tenantBudget c p = .limited b) :
    s.executionsOf p + (if d.projectRef = p then 1 else 0) ≤ b.functionConcurrency := by
  split
  · grind [projectWithinFunctionCap, Seats.executions_le]
  · exact (h p b hbud).1

theorem Move.budgeted {c m x y} (hm : Move c m x y) (hb : Base c x) (hs : Seats x) (h : Budgeted c x) : Budgeted c y := by
  cases hm with
  | unqueue s g ds q r hall hsub =>
    intro p b hbud
    rw [settleAll_eq]
    exact ⟨(h p b hbud).1, (hsub p).length_le.trans (h p b hbud).2⟩
  | enqueue s g d hk hd hbl hcl hun hq =>
    intro p b hbud
    refine ⟨(h p b hbud).1, ?_⟩
    simp only [enqueueQueued, Pool.record, MultiQueue.at_push]
    split
    · rename_i he
      subst he
      simpa using hq b hbud
    · exact (h p b hbud).2
  | startQueued s g w d q hw hq hd hp ht hcap =>
    intro p b hbud
    refine ⟨?_, (MultiQueue.popFor_sublist hq p).length_le.trans (h p b hbud).2⟩
    rw [executionsOf_begin]
    exact Budgeted.start (s := s) (g := g) hb hs h hd hw hcap hbud
  | startFresh s g w d md hw hk hd hb' hcl hm ha ht hcap =>
    intro p b hbud
    refine ⟨?_, (h p b hbud).2⟩
    rw [executionsOf_begin]
    exact Budgeted.start (s := s) (g := g) hb hs h hd (by simp [hw]) hcap hbud
  | finish s g e he =>
    intro p b hbud
    exact ⟨(executionsOf_le (List.filter_sublist.map _)).trans (h p b hbud).1, (h p b hbud).2⟩
  | update s g e e' he hd | resolve s g e e' r he hd =>
    intro p b hbud
    refine ⟨(executionsOf_le (s := s) ?_).trans (h p b hbud).1, (h p b hbud).2⟩
    exact updated_dispatch hb.keys.inFlight_nodup he hd
  | _ => exact h

/-! ## 走行 -/

theorem seats_initial {c} : Seats (initial c, {}) := by
  have h0 := untouched_initial (c := c)
  simp only [Seats, h0.inFlight, h0.preheats]
  exact {
    owned := fun _ hj => absurd hj List.not_mem_nil
    active := fun _ _ he => absurd he List.not_mem_nil
    project := fun _ _ he => absurd he List.not_mem_nil
    handler := fun _ _ he => absurd he List.not_mem_nil }

theorem budgeted_initial {c} : Budgeted c (initial c, {}) := by
  have h0 := untouched_initial (c := c)
  intro p b _
  simp [executionsOf, h0.inFlight, h0.queue]

theorem seats_run {c events} (hr : runAll keepsReserved c (initial c) events = true) :
    Seats (run c (initial c) events, {}) ∧ Budgeted c (run c (initial c) events, {}) :=
  run_invariant (I := fun x => Seats x ∧ Budgeted c x) ⟨seats_initial, budgeted_initial⟩
    (fun _ _ hm hb ⟨hs, h⟩ => ⟨hm.seats rfl hb hs, hm.budgeted hb hs h⟩) (allowsRun_tidy hr)

end Supacloud.EdgeRuntime
