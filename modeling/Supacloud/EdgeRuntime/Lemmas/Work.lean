import Supacloud.EdgeRuntime.Lemmas.Runs

/-! # 要求の保存 -/

namespace Supacloud.EdgeRuntime

open Library Pool MultiQueue Pool Function List

def unresolved (l : List Execution) : List Nat := (l.filter fun e => !e.resolved).map Execution.key

structure Registered (admitted : List (Nat × ProjectRef)) (queue : MultiQueue ProjectRef Dispatch)
    (inFlight : List Execution) (nextKey : Nat) (fresh : Option Nat) : Prop where
  nodup : (admitted.map Prod.fst).Nodup
  lt : ∀ a ∈ admitted, a.1 < nextKey
  fresh_new : ∀ k, fresh = some k → ∀ a ∈ admitted, a.1 ≠ k
  queued : ∀ d ∈ queue.all, (d.key, d.projectRef) ∈ admitted
  flight : ∀ e ∈ inFlight, (e.key, e.dispatch.projectRef) ∈ admitted

/-! ## 実行の列 -/

section Unresolved

variable {l : List Execution} {e e' : Execution}

theorem unresolved_append : unresolved (l ++ [e]) = unresolved l ++ unresolved [e] := by
  simp [unresolved]

theorem unresolved_finish (hn : (l.map Execution.key).Nodup) (he : e ∈ l) :
    (unresolved l).Perm ((if e.resolved then [] else [e.key]) ++ unresolved (l.filter fun x => x.key ≠ e.key)) := by
  have h := ((perm_cons_filter hn he).filter fun x => !x.resolved).map Execution.key
  cases hr : e.resolved with
  | true | false => simpa [unresolved, hr] using h

theorem updated_others : (l.map fun x => if x.key = e'.key then e' else x).filter (fun x => x.key ≠ e'.key) =
    l.filter fun x => x.key ≠ e'.key := by
  induction l with
  | nil => rfl
  | cons a l ih =>
    by_cases ha : a.key = e'.key <;> simpa [ha] using ih

theorem mem_updated (he : e ∈ l) (hd : e'.dispatch = e.dispatch) (hw : e'.worker = e.worker) {x}
    (hx : x ∈ l.map fun x => if x.key = e'.key then e' else x) : ∃ y ∈ l, y.dispatch = x.dispatch ∧ y.worker = x.worker := by
  obtain ⟨y, hy, rfl⟩ := mem_map.mp hx
  split
  · exact ⟨e, he, hd.symm, hw.symm⟩
  · exact ⟨y, hy, rfl, rfl⟩

theorem unresolved_update (hn : (l.map Execution.key).Nodup) (he : e ∈ l) (hd : e'.dispatch = e.dispatch) :
    (unresolved (l.map fun x => if x.key = e'.key then e' else x)).Perm
      ((if e'.resolved then [] else [e.key]) ++ unresolved (l.filter fun x => x.key ≠ e.key)) := by
  have hk : e'.key = e.key := congrArg Dispatch.key hd
  have he' : e' ∈ l.map fun x => if x.key = e'.key then e' else x :=
    mem_map.mpr ⟨e, he, if_pos hk.symm⟩
  have h := unresolved_finish (by rw [updated_key]; exact hn) he'
  rw [updated_others] at h
  simpa [hk] using h

end Unresolved

/-! ## 一手 -/

theorem filterMap_settled {α : Type} {f : LogEvent → Option α} (hf : ∀ k r, f (.settled k r) = none) (ds : List Dispatch) (r log) :
    ((ds.map fun d => LogEvent.settled d.key r).reverse ++ log).filterMap f = log.filterMap f := by
  rw [filterMap_append, filterMap_eq_nil_iff.mpr, nil_append]
  intro e he
  obtain ⟨d, -, rfl⟩ := mem_map.mp (mem_reverse.mp he)
  exact hf d.key r

theorem settledKeys_settled (ds : List Dispatch) (r log) :
    settledKeys ((ds.map fun d => LogEvent.settled d.key r).reverse ++ log) = (ds.map (·.key)).reverse ++ settledKeys log := by
  rw [settledKeys, filterMap_append, filterMap_reverse, filterMap_map]
  congr 2
  exact congrFun (filterMap_eq_map (f := Dispatch.key)) ds

def Registers (x : Stage) : Prop := Registered (admissions x.1.log) x.1.queue x.1.inFlight x.1.nextKey x.2.fresh

theorem Registered.accept {admitted queue queue' inFlight inFlight' nextKey fresh}
    (h : Registered admitted queue inFlight nextKey fresh) {d} (hk : fresh = some d.key) (hlt : d.key < nextKey)
    (hq : ∀ x ∈ queue'.all, x = d ∨ x ∈ queue.all) (hf : ∀ e ∈ inFlight', e.dispatch = d ∨ e ∈ inFlight) :
    Registered ((d.key, d.projectRef) :: admitted) queue' inFlight' nextKey none where
  nodup := by
    refine nodup_cons.mpr ⟨fun hmem => ?_, h.nodup⟩
    obtain ⟨a, ha, he⟩ := mem_map.mp hmem
    exact h.fresh_new d.key hk a ha he
  lt := forall_mem_cons.mpr ⟨hlt, h.lt⟩
  fresh_new := nofun
  queued := fun x hx => by
    rcases hq x hx with rfl | hx
    · exact mem_cons_self
    · exact mem_cons_of_mem _ (h.queued x hx)
  flight := fun e he => by
    rcases hf e he with rfl | he
    · exact mem_cons_self
    · exact mem_cons_of_mem _ (h.flight e he)

theorem Move.registers {c m x y} (hm : Move c m x y) (hb : Base c x) (h : Registers x) : Registers y := by
  cases hm with
  | newKey s g =>
    exact { h with
      lt := fun a ha => Nat.lt_succ_of_lt (h.lt a ha)
      fresh_new := fun k hk a ha he => by
        cases hk
        exact Nat.lt_irrefl _ (he ▸ h.lt a ha) }
  | refuse s g k r hk => exact { h with fresh_new := nofun }
  | unqueue s g ds q r hall hsub =>
    simp only [Registers, settleAll_eq]
    rw [admissions, filterMap_settled (fun _ _ => rfl)]
    exact { h with queued := fun d hd => h.queued d (hall.symm.subset (mem_append_right _ hd)) }
  | enqueue s g d hk =>
    refine Registered.accept h hk (hb.keys.fresh_lt _ hk) (fun x hx => ?_) fun e he => .inr he
    exact mem_cons.mp (all_push.subset hx)
  | startQueued s g w d q hw hq =>
    obtain ⟨-, -, hpe⟩ := popFor_some hq
    exact { h with
      queued := fun x hx => h.queued x (hpe.symm.subset (mem_cons_of_mem _ hx))
      flight := fun e he => by
        rcases mem_append.mp he with he | he
        · exact h.flight e he
        · rw [mem_singleton.mp he]
          exact h.queued d (hpe.symm.subset mem_cons_self) }
  | startFresh s g w d md hw hk =>
    refine Registered.accept h hk (hb.keys.fresh_lt _ hk) (fun x hx => .inr hx) fun e he => ?_
    rcases mem_append.mp he with he | he
    · exact .inr he
    · rw [mem_singleton.mp he]
      exact .inl rfl
  | finish s g e he => exact { h with flight := fun x hx => h.flight x (mem_of_mem_filter hx) }
  | update s g e e' he hd hw | resolve s g e e' r he hd hw =>
    exact { h with
      flight := fun x hx => by
        obtain ⟨y, hy, hxy, -⟩ := mem_updated he hd hw hx
        have hmem : (y.dispatch.key, y.dispatch.projectRef) ∈ admissions s.log := h.flight y hy
        rw [hxy] at hmem
        exact hmem }
  | _ => exact h

/-! ## 受け付けた要求の行方 -/

def Conserves (x : Stage) : Prop :=
  ((admissions x.1.log).map Prod.fst).Perm
    (x.1.queue.all.map (·.key) ++ unresolved x.1.inFlight ++ x.2.pending ++ settledKeys x.1.log)

theorem Move.conserves {c m x y} (hm : Move c m x y) (hs : m.status = true) (hb : Base c x) (h : Conserves x) : Conserves y := by
  cases hm with
  | settle s g k r hk =>
    have hlog : settledKeys (s.settle k r).log = k :: settledKeys s.log := rfl
    refine List.Perm.trans h ?_
    rw [hlog, perm_iff_count]
    intro x
    have := (perm_cons_erase hk).count_eq x
    simp only [Pool.settle, record, count_append, count_cons] at this ⊢
    omega
  | lose s g k hk hm =>
    rw [hs] at hm
    cases hm
  | unqueue s g ds q r hall hsub =>
    simp only [Conserves, settleAll_eq, settledKeys_settled]
    rw [admissions, filterMap_settled (fun _ _ => rfl)]
    refine List.Perm.trans h ?_
    rw [perm_iff_count]
    intro x
    have := (hall.map (·.key)).count_eq x
    simp only [map_append, count_append, count_reverse] at this ⊢
    omega
  | enqueue s g d hk =>
    have hpu := (MultiQueue.all_push (q := s.queue) (k := d.projectRef) (a := d)).map Dispatch.key
    have hke := ((hpu.append_right (unresolved s.inFlight)).append_right g.pending).append_right (settledKeys s.log)
    exact (List.Perm.cons d.key h).trans hke.symm
  | startQueued s g w d q hw hq =>
    obtain ⟨-, -, hpe⟩ := MultiQueue.popFor_some hq
    have hlog : settledKeys (({ s with queue := q }).beginExecution w d).log = settledKeys s.log := rfl
    have hnew : unresolved [{ dispatch := d, worker := w }] = [d.key] := rfl
    refine List.Perm.trans h ?_
    rw [hlog, perm_iff_count]
    intro x
    have := (hpe.map (·.key)).count_eq x
    simp only [beginExecution, record, unresolved_append, hnew, map_cons, count_append, count_cons,
      count_nil] at this ⊢
    omega
  | startFresh s g w d md hw hk =>
    have hlog : settledKeys (((s.record (.admitted d.key d.projectRef)).assignTo w d.projectRef md).beginExecution w d).log =
      settledKeys s.log := rfl
    have hnew : unresolved [{ dispatch := d, worker := w }] = [d.key] := rfl
    refine (List.Perm.cons d.key h).trans ?_
    rw [hlog, perm_iff_count]
    intro x
    simp only [beginExecution, assignTo, record, unresolved_append, hnew, count_append, count_cons, count_nil]
    omega
  | finish s g e he =>
    have hpe := unresolved_finish hb.keys.inFlight_nodup he
    refine List.Perm.trans h ?_
    rw [perm_iff_count]
    intro x
    have := hpe.count_eq x
    cases hr : e.resolved with
    | true =>
      simp only [hr, cleanup, count_append, if_true, count_nil] at this ⊢
      omega
    | false => grind [cleanup]
  | update s g e e' he hd hw hr hok =>
    have h1 := unresolved_finish hb.keys.inFlight_nodup he
    have h2 := unresolved_update hb.keys.inFlight_nodup he hd
    rw [hr] at h2
    exact List.Perm.trans h ((((h1.trans h2.symm).append_left _).append_right _).append_right _)
  | resolve s g e e' r he hd hw hu hr hok =>
    have h1 := unresolved_finish hb.keys.inFlight_nodup he
    have h2 := unresolved_update hb.keys.inFlight_nodup he hd
    have hlog : settledKeys ((s.settle e.key r).updateExecution e').log = e.key :: settledKeys s.log := rfl
    refine List.Perm.trans h ?_
    rw [hlog, perm_iff_count]
    intro x
    have h1 := h1.count_eq x
    have h2 := h2.count_eq x
    simp only [hu, hr, Bool.false_eq_true, if_true, if_false, nil_append, count_append, count_cons,
      count_nil] at h1 h2
    simp only [updateExecution, Pool.settle, record, count_append, count_cons, h2]
    omega
  | _ => exact h

/-! ## 走行 -/

section Runs

variable {c : Config} {s : Pool} {k : Nat} {events : List Event}

theorem registers_run (events) : Registers (run c (initial c) events, {}) := by
  have h0 := untouched_initial (c := c)
  have hlog : admissions (initial c).log = [] := h0.filterMap_log fun _ => rfl
  refine run_invariant (m := {}) ?_ (fun _ _ hm hb h => hm.registers hb h) allowsRun_any
  simp only [Registers, hlog, h0.queue, h0.inFlight]
  exact {
    nodup := .nil
    lt := nofun
    fresh_new := nofun
    queued := fun _ hd => absurd hd not_mem_nil
    flight := fun _ he => absurd he not_mem_nil }

theorem conserves_run (hr : runAll reportsStatus c (initial c) events = true) : Conserves (run c (initial c) events, {}) := by
  have h0 := untouched_initial (c := c)
  have hlog : admissions (initial c).log = [] := h0.filterMap_log fun _ => rfl
  have hset : settledKeys (initial c).log = [] := h0.filterMap_log fun _ => rfl
  refine run_invariant ?_ (fun _ _ hm hb h => hm.conserves rfl hb h) (allowsRun_status hr)
  simp only [Conserves, hlog, hset, h0.queue, h0.inFlight]
  exact .nil

theorem mem_queuedKeys : k ∈ s.queue.all.map (·.key) ↔ ∃ q, k ∈ s.queuedKeys q := by
  simp only [queuedKeys, mem_map, mem_all]
  constructor
  · rintro ⟨d, ⟨q, hd⟩, hk⟩
    exact ⟨q, d, hd, hk⟩
  · rintro ⟨q, d, hd, hk⟩
    exact ⟨d, ⟨q, hd⟩, hk⟩

theorem queued_project {p} (hb : Base c (s, {})) (hreg : Registers (s, {})) (hk : (k, p) ∈ admissions s.log) {q}
    (hq : k ∈ s.queuedKeys q) : q = p := by
  obtain ⟨d, hd, rfl⟩ := mem_map.mp hq
  have hmem := hreg.queued d (mem_all_of_at hd)
  have hsa := inj_on_of_nodup_map hreg.nodup hmem hk rfl
  have hp : d.projectRef = p := congrArg Prod.snd hsa
  rw [← hp]
  exact (hb.keys.refs q d hd).symm

theorem count_queuedKeys_le {p} : (s.queuedKeys p).count k ≤ (s.queue.all.map (·.key)).count k := by
  have := ((MultiQueue.all_perm (q := s.queue) p).map Dispatch.key).count_eq k
  rw [this, map_append, count_append]
  exact Nat.le_add_right _ _

theorem unresolved_count {l : List Execution} {e : Execution} (hn : (l.map Execution.key).Nodup) (he : e ∈ l) :
    (unresolved l).count e.key = if e.resolved then 0 else 1 := by
  have hrs : (unresolved (l.filter fun x => x.key ≠ e.key)).count e.key = 0 := by
    rw [List.count_eq_zero]
    intro hmem
    obtain ⟨x, hx, hk⟩ := mem_map.mp hmem
    simpa [hk] using (mem_filter.mp (mem_of_mem_filter hx)).2
  rw [(unresolved_finish hn he).count_eq, count_append, hrs]
  cases e.resolved with
  | true => rfl
  | false => simp

theorem filter_key {l : List Execution} {e} (hn : (l.map Execution.key).Nodup) (he : e ∈ l) :
    (l.filter fun x => x.key = e.key) = [e] := by
  have h := (perm_cons_filter hn he).filter fun x => decide (x.key = e.key)
  have hrs : (l.filter fun x => decide (x.key ≠ e.key)).filter (fun x => decide (x.key = e.key)) = [] := by
    simp
  rw [filter_cons_of_pos (by simp), hrs] at h
  exact perm_singleton.mp h

theorem unresolved_subset {l} (h : k ∈ unresolved l) : k ∈ l.map Execution.key := by
  obtain ⟨e, he, hk⟩ := mem_map.mp h
  exact mem_map.mpr ⟨e, mem_of_mem_filter he, hk⟩

theorem fate {p} (hb : Base c (s, {})) (hreg : Registers (s, {})) (hco : Conserves (s, {})) (hk : (k, p) ∈ admissions s.log) :
    s.Waiting k p ∨ s.Executing k p ∨ s.Answered k := by
  have hadm : ((admissions s.log).map Prod.fst).count k = 1 :=
    count_eq_one_of_mem hreg.nodup (mem_map.mpr ⟨(k, p), hk, rfl⟩)
  have hli : (s.queue.all.map (·.key) ++ s.inFlight.map Execution.key).Nodup := by
    have := hb.keys.nodup
    rwa [liveKeys, append_nil] at this
  rw [nodup_append'] at hli
  obtain ⟨hqn, hfn, hdis⟩ := hli
  have hsum : (s.queue.all.map (·.key)).count k + (unresolved s.inFlight).count k + (settledKeys s.log).count k = 1 := by
    rw [← hadm, List.Perm.count_eq hco k]
    simp only [count_append, count_nil]
    omega
  by_cases hq : k ∈ s.queue.all.map (·.key)
  · have hone : (s.queue.all.map (·.key)).count k = 1 := count_eq_one_of_mem hqn hq
    obtain ⟨q, hmem⟩ := mem_queuedKeys.mp hq
    have hqp := queued_project hb hreg hk hmem
    subst hqp
    refine .inl ⟨?_, fun q' hne hme' => hne (queued_project hb hreg hk hme'), hdis hq, ?_⟩
    · have hle := count_queuedKeys_le (s := s) (k := k) (p := q)
      grind
    · rw [← List.count_eq_zero]
      omega
  · have hno : ∀ q, k ∉ s.queuedKeys q := fun q hmem => hq (mem_queuedKeys.mpr ⟨q, hmem⟩)
    rw [count_eq_zero.mpr hq] at hsum
    by_cases hf : k ∈ s.inFlight.map Execution.key
    · obtain ⟨e, he, rfl⟩ := mem_map.mp hf
      refine .inr (.inl ⟨⟨e, ?_, ?_, ?_, ?_⟩, hno⟩)
      · exact filter_key hfn he
      · have hsa := inj_on_of_nodup_map hreg.nodup (hreg.flight e he) hk rfl
        exact congrArg Prod.snd hsa
      · exact count_eq_one_of_mem hb.owned.workers_nodup (mem_map_of_mem he)
      · have hun := unresolved_count hfn he
        grind
    · refine .inr (.inr ⟨hno, hf, ?_⟩)
      rw [count_eq_zero.mpr fun hu => hf (unresolved_subset hu)] at hsum
      omega

end Runs

/-! ## 空きと列 -/

def busyCount (active idle loose : List Worker) (project : Worker → Option ProjectRef) (p : ProjectRef) : Nat :=
  (active.filter fun w => w ∉ idle ∧ w ∉ loose ∧ project w = some p).length

theorem executingCount_none {s : Pool} {p} : s.executingCount p none = busyCount s.activeWorkers s.idle [] s.workerProjectRef p := by
  simp [executingCount, busyCount]

theorem executingCount_some {s : Pool} {p w} :
    s.executingCount p (some w) = busyCount s.activeWorkers s.idle [w] s.workerProjectRef p := by
  unfold executingCount busyCount
  refine congrArg length (filter_congr fun x _ => ?_)
  simp only [ne_eq, Option.some.injEq, mem_singleton, decide_eq_decide]
  exact and_left_comm

structure Served (c : Config) (queue : MultiQueue ProjectRef Dispatch) (active idle loose unchecked : List Worker)
    (project : Worker → Option ProjectRef) (credit : Option ProjectRef) (calm : Bool) : Prop where
  ready : (∃ w ∈ idle, w ∉ unchecked) → ∀ p, queue.at p ≠ [] →
    Capped c p (busyCount active idle [] project p + if credit = some p then 1 else 0)
  quiet : calm = true → ∀ p, queue.at p ≠ [] → Capped c p (busyCount active idle loose project p)

def Serves (c : Config) (x : Stage) : Prop :=
  x.1.draining = false → x.1.admissionBlocked = false →
    Served c x.1.queue x.1.activeWorkers x.1.idle x.2.loose x.2.unchecked x.1.workerProjectRef x.2.credit x.2.calm

section Count

variable {active idle idle' loose loose' : List Worker} {project project' : Worker → Option ProjectRef} {p : ProjectRef}

theorem busyCount_congr (h : ∀ x ∈ active, (x ∉ idle ∧ x ∉ loose ∧ project x = some p) ↔ (x ∉ idle' ∧ x ∉ loose' ∧ project' x = some p)) :
    busyCount active idle loose project p = busyCount active idle' loose' project' p := by
  unfold busyCount
  exact congrArg length (filter_congr fun x hx => decide_eq_decide.mpr (h x hx))

theorem busyCount_mono (h : ∀ x ∈ active, x ∉ idle → x ∉ loose → project x = some p → x ∉ idle' ∧ x ∉ loose' ∧ project' x = some p) :
    busyCount active idle loose project p ≤ busyCount active idle' loose' project' p := by
  unfold busyCount
  rw [← countP_eq_length_filter, ← countP_eq_length_filter]
  refine countP_mono_left fun x hx hp => ?_
  obtain ⟨h1, h2, h3⟩ := of_decide_eq_true hp
  exact decide_eq_true (h x hx h1 h2 h3)

theorem busyCount_split {w} (hn : active.Nodup) (hw : w ∈ active) : busyCount active idle loose project p =
      busyCount (setDelete active w) idle loose project p + if w ∉ idle ∧ w ∉ loose ∧ project w = some p then 1 else 0 := by
  have hpe := perm_cons_filter (f := id) (by rwa [map_id]) hw
  have hlen := (hpe.filter fun x => decide (x ∉ idle ∧ x ∉ loose ∧ project x = some p)).length_eq
  unfold busyCount
  rw [hlen, filter_cons]
  by_cases hp : w ∉ idle ∧ w ∉ loose ∧ project w = some p
  · rw [if_pos (decide_eq_true hp), if_pos hp]
    rfl
  · rw [if_neg (by simpa using hp), if_neg hp]
    rfl

theorem busyCount_append {w} : busyCount active idle loose project p ≤ busyCount (active ++ [w]) idle loose project p := by
  unfold busyCount
  rw [filter_append, length_append]
  exact Nat.le_add_right _ _

end Count

/-! ## 一手 -/

section Step

variable {c : Config} {queue : MultiQueue ProjectRef Dispatch} {active idle loose unchecked : List Worker}
  {project project' : Worker → Option ProjectRef} {credit : Option ProjectRef} {calm : Bool} {w : Worker} {p : ProjectRef}

namespace Served

variable (h : Served c queue active idle loose unchecked project credit calm)

include h

theorem mono {queue' active' idle' loose' unchecked'}
    (hq : ∀ p, queue'.at p ≠ [] → queue.at p ≠ []) (hi : (∃ w ∈ idle', w ∉ unchecked') → ∃ w ∈ idle, w ∉ unchecked)
    (hc : ∀ p, busyCount active idle [] project p ≤ busyCount active' idle' [] project' p)
    (hl : calm = true → ∀ p, busyCount active idle loose project p ≤ busyCount active' idle' loose' project' p) :
    Served c queue' active' idle' loose' unchecked' project' credit calm where
  ready := fun hw p hp => (h.ready (hi hw) p (hq p hp)).mono (Nat.add_le_add_right (hc p) _)
  quiet := fun hcl p hp => (h.quiet hcl p (hq p hp)).mono (hl hcl p)

theorem takeIdle {calm'} (hw : w ∈ idle) (hcl : calm' = true → loose = [] ∧ credit = none ∧ w ∉ unchecked) :
    Served c queue active (setDelete idle w) (w :: loose) (unchecked.filter (· ≠ w)) project credit calm' where
  ready := fun ⟨x, hx, hu⟩ p hp => by
    obtain ⟨hx, hne⟩ := mem_setDelete.mp hx
    have hu : x ∉ unchecked := fun hmem => hu (mem_filter.mpr ⟨hmem, by simpa using hne⟩)
    refine (h.ready ⟨x, hx, hu⟩ p hp).mono (Nat.add_le_add_right (busyCount_mono fun y _ h1 h2 h3 => ⟨?_, h2, h3⟩) _)
    exact fun hy => h1 (mem_setDelete.mp hy).1
  quiet := fun hc p hp => by
    obtain ⟨rfl, rfl, hu⟩ := hcl hc
    have hcn : busyCount active idle [] project p = busyCount active (setDelete idle w) [w] project p :=
      busyCount_congr fun x _ => by
        by_cases hx : x = w
        · subst hx
          simp [hw]
        · simp [hx]
    have := h.ready ⟨w, hw, hu⟩ p hp
    rwa [if_neg nofun, Nat.add_zero, hcn] at this

theorem forget (hp : project' = update project w none) (hw : w ∉ active) :
    Served c queue active idle loose unchecked project' credit calm := by
  have hle : ∀ {loose p}, busyCount active idle loose project p ≤ busyCount active idle loose project' p := by
    refine busyCount_mono fun x hx h1 h2 h3 => ⟨h1, h2, ?_⟩
    have hne : x ≠ w := fun he => hw (he ▸ hx)
    rw [hp, update_of_ne hne]
    exact h3
  exact h.mono (fun _ hp => hp) id (fun _ => hle) fun _ _ => hle

theorem putIdle (hq : (calm = true ∧ loose = [w]) ∨ ∀ p, queue.at p ≠ [] → Capped c p (busyCount active idle [w] project p)) :
    Served c queue active (idle ++ [w]) (loose.filter (· ≠ w)) unchecked project none false where
  ready := fun _ p hp => by
    have hcap : Capped c p (busyCount active idle [w] project p) := by
      rcases hq with ⟨hcl, rfl⟩ | hq
      · exact h.quiet hcl p hp
      · exact hq p hp
    refine hcap.mono ((Nat.le_of_eq (busyCount_congr fun x _ => ?_)).trans (Nat.le_add_right _ _))
    simp [and_assoc]
  quiet := nofun

theorem assign (hn : active.Nodup) (hi : w ∉ idle)
    (hp : ∀ q, project w = some q → q = p) (hc : credit = none ∨ (w ∈ active ∧ project w = none ∧ queue.at p ≠ [] ∧
      ¬Capped c p (busyCount active idle [w] project p))) :
    Served c queue active idle loose unchecked (update project w (some p)) none calm := by
  have hle : ∀ loose q, busyCount active idle loose project q ≤ busyCount active idle loose (update project w (some p)) q := by
    intro loose q
    refine busyCount_mono fun x _ h1 h2 h3 => ⟨h1, h2, ?_⟩
    by_cases hx : x = w
    · subst hx
      rw [update_self, hp q h3]
    · rw [update_of_ne hx]
      exact h3
  refine ⟨fun hw q hq => ?_, fun hcl q hq => (h.quiet hcl q hq).mono (hle loose q)⟩
  have hre := h.ready hw q hq
  rcases hc with hc | ⟨hact, hno, hqp, hnc⟩
  · subst hc
    exact hre.mono (Nat.add_le_add_right (hle [] q) _)
  · -- w を数えても数えなくても、p の並行数は変わらない。
    have hsa : busyCount active idle [w] project p = busyCount active idle [] project p := busyCount_congr fun x _ => by
      by_cases hx : x = w
      · subst hx
        simp [hno]
      · simp [hx]
    rw [hsa] at hnc
    have hcr : credit = some p := by
      by_contra hne
      have := h.ready hw p hqp
      rw [if_neg hne] at this
      exact hnc this
    subst hcr
    by_cases hqp' : p = q
    · subst hqp'
      rw [if_pos rfl] at hre
      have h1 : busyCount active idle [] project p = busyCount (setDelete active w) idle [] project p +
          if w ∉ idle ∧ w ∉ [] ∧ project w = some p then 1 else 0 := busyCount_split hn hact
      have h2 : busyCount active idle [] (update project w (some p)) p =
          busyCount (setDelete active w) idle [] (update project w (some p)) p +
            if w ∉ idle ∧ w ∉ [] ∧ update project w (some p) w = some p then 1 else 0 := busyCount_split hn hact
      have h3 : busyCount (setDelete active w) idle [] project p =
          busyCount (setDelete active w) idle [] (update project w (some p)) p := busyCount_congr fun x hx => by
        rw [update_of_ne (mem_setDelete.mp hx).2]
      rw [if_neg (by simp [hno])] at h1
      rw [if_pos (by simp [hi])] at h2
      refine hre.mono ?_
      omega
    · rw [if_neg fun he => hqp' (Option.some.inj he)] at hre
      exact hre.mono ((hle [] q).trans (Nat.le_add_right _ _))

theorem drop (hn : active.Nodup) (hw : w ∈ active) (hc : credit = none) :
    Served c queue (setDelete active w) (setDelete idle w) (loose.filter (· ≠ w)) unchecked (update project w none)
      (if w ∈ idle then none else project w) false where
  ready := fun ⟨x, hx, hu⟩ p hp => by
    have hre := h.ready ⟨x, (mem_setDelete.mp hx).1, hu⟩ p hp
    rw [hc, if_neg nofun, Nat.add_zero, busyCount_split hn hw] at hre
    have hrs : busyCount (setDelete active w) idle [] project p =
        busyCount (setDelete active w) (setDelete idle w) [] (update project w none) p := busyCount_congr fun y hy => by
      have hne := (mem_setDelete.mp hy).2
      simp [hne]
    rw [hrs] at hre
    refine hre.mono (Nat.add_le_add_left ?_ _)
    by_cases hi : w ∈ idle
    · simp
    · simp
  quiet := nofun

theorem park (hn : active.Nodup) (hw : w ∈ active) (hl : w ∈ loose) (hi : w ∉ idle) (hc : credit = none)
    (hq : (calm = true ∧ loose = [w]) ∨ ∃ p, queue.at p ≠ [] ∧ project w ≠ some p ∧ ¬Capped c p (busyCount active idle [w] project p)) :
    Served c queue (setDelete active w) (setDelete idle w) (loose.filter (· ≠ w)) unchecked project credit calm := by
  have hidl : setDelete idle w = idle := setDelete_of_not_mem hi
  rw [hidl]
  refine ⟨fun hx p hp => ?_, fun hcl p hp => ?_⟩
  · rcases hq with ⟨hcl, rfl⟩ | ⟨q, hq, hne, hcap⟩
    · refine (h.quiet hcl p hp).mono (Nat.le_trans ?_ (Nat.le_add_right _ _))
      rw [busyCount_split hn hw, if_neg (by simp)]
      exact busyCount_mono fun y _ h1 _ h3 => ⟨h1, not_mem_nil, h3⟩
    · have hsa : busyCount active idle [] project q = busyCount active idle [w] project q := busyCount_congr fun x _ => by
        by_cases hx : x = w
        · subst hx
          simp [hne]
        · simp [hx]
      have hre := h.ready hx q hq
      rw [hc, if_neg nofun, Nat.add_zero, hsa] at hre
      exact absurd hre hcap
  · refine (h.quiet hcl p hp).mono ?_
    rw [busyCount_split hn hw, if_neg (by simp [hl])]
    refine busyCount_mono fun y _ h1 h2 h3 => ⟨h1, ?_, h3⟩
    exact fun hy => h2 (mem_of_mem_filter hy)

end Served

end Step

theorem assignTo_project {s : Pool} {w p md} : (s.assignTo w p md).workerProjectRef = update s.workerProjectRef w (some p) := by
  funext x
  by_cases hx : x = w
  · subst hx
    simp [workerProjectRef, assignTo, record]
  · simp [workerProjectRef, assignTo, record, hx]

theorem removed_project {s : Pool} {w} : (s.removeWorkerReferences w).workerProjectRef = update s.workerProjectRef w none := by
  funext x
  by_cases hx : x = w
  · subst hx
    simp [workerProjectRef, removeWorkerReferences]
  · simp [workerProjectRef, removeWorkerReferences, hx]

theorem assignable_not_idle {c s g w} (hb : Base c (s, g))
    (hw : w ∈ g.loose ∨ g.transit = some w ∨ w ∈ reserved s.bulk) : w ∉ s.idle := by
  intro hi
  have h0 := (hb.idle_owners hi).1
  rcases hw with hw | hw | hw
  · exact hb.loose_not_idle hw hi
  · exact (hb.places.transit_out w hw).1 (hb.places.idle_active w hi)
  · have := count_pos_iff.mpr hw
    omega

theorem project_of_assignable {s : Pool} {w p md} (hm : s.metadata w = some md)
    (ha : md.projectRef = none ∨ md.projectRef = some p) {q} (hq : s.workerProjectRef w = some q) : q = p := by
  rw [workerProjectRef, hm] at hq
  have hq : md.projectRef = some q := hq
  rcases ha with ha | ha
  · cases ha.symm.trans hq
  · exact Option.some.inj (hq.symm.trans ha)

theorem Move.serves {c m x y} (hm : Move c m x y) (hb : Base c x) (h : Serves c x) : Serves c y := by
  cases hm with
  | unqueue s g ds q r hall hsub =>
    intro hd hbl
    rw [settleAll_eq] at hd hbl ⊢
    refine (h hd hbl).mono (fun p hp he => hp ?_) id (fun _ => Nat.le_refl _) fun _ _ => Nat.le_refl _
    exact eq_nil_of_sublist_nil (he ▸ hsub p)
  | flags s g draining blocked hdr hq =>
    intro hd hbl
    have hd : draining = false := hd
    have hbl : blocked = false := hbl
    cases hb' : s.admissionBlocked with
    | true =>
      have hem := hq (.inr (.inr hb'))
      exact ⟨fun _ p hp => absurd (hem p) hp, fun _ p hp => absurd (hem p) hp⟩
    | false =>
      have hd : s.draining = false := Bool.eq_false_iff.mpr fun hs => Bool.false_ne_true (hd.symm.trans (hdr hs))
      exact h hd hb'
  | enqueue s g d hk hd hbl hcl hun =>
    intro _ _
    refine ⟨fun hx => hx.elim fun w hw => absurd (hun ▸ hw.1) hw.2, fun hc => ?_⟩
    have hc : g.calm = true := hc
    rw [hcl] at hc
    cases hc
  | uncheck s g => exact fun hd hbl => ⟨fun hx => hx.elim fun w hw => absurd hw.1 hw.2, (h hd hbl).quiet⟩
  | checked s g hq | shrink s g w hw hu hun hs hq =>
    exact fun _ _ => ⟨fun _ p hp => absurd (hq p) hp, fun _ p hp => absurd (hq p) hp⟩
  | takeIdle s g w calm hw hcl => exact fun hd hbl => (h hd hbl).takeIdle hw hcl
  | putIdle s g w hw hq =>
    intro hd hbl
    refine (h hd hbl).putIdle ?_
    rcases hq with hq | hq | hq | hq
    · exact absurd (hd.symm.trans hq) Bool.false_ne_true
    · exact absurd (hbl.symm.trans hq) Bool.false_ne_true
    · exact .inl hq
    · exact .inr fun p hp => executingCount_some ▸ not_withinCap.mp (hq p hp)
  | assign s g w p md hm ha hw hc =>
    intro hd hbl
    show Served c s.queue s.activeWorkers s.idle g.loose g.unchecked (s.assignTo w p md).workerProjectRef none g.calm
    rw [assignTo_project]
    refine (h hd hbl).assign hb.places.active_nodup (assignable_not_idle hb (hw.imp_right (.imp_right And.left)))
      (fun q hq => project_of_assignable hm ha hq) ?_
    rcases hc with hc | ⟨hl, hno, hq, hcap⟩
    · exact .inl hc
    · grind [hb.places.loose_active, workerProjectRef, not_withinCap, executingCount_some]
  | create s g hv ht =>
    intro hd hbl
    have hnew : s.nextWorker ∉ s.activeWorkers := fun ha => Nat.lt_irrefl _ (hb.active_lt ha)
    have hle : ∀ {loose loose' p}, (∀ x ∈ s.activeWorkers, x ∈ loose' → x ∈ loose) →
        busyCount s.activeWorkers s.idle loose s.workerProjectRef p ≤
          busyCount (setAdd s.activeWorkers s.nextWorker) s.idle loose' s.createWorker.1.workerProjectRef p := by
      intro loose loose' p hl
      rw [setAdd_of_not_mem hnew]
      refine Nat.le_trans (busyCount_mono fun x hx h1 h2 h3 => ⟨h1, fun hx' => h2 (hl x hx hx'), ?_⟩) busyCount_append
      have hne : x ≠ s.nextWorker := fun he => hnew (he ▸ hx)
      simpa [workerProjectRef, createWorker, record, hne] using h3
    refine (h hd hbl).mono (fun _ hp => hp) id (fun _ => hle fun _ _ hx => hx) fun _ _ => hle fun x hx hl => ?_
    rcases mem_cons.mp hl with rfl | hl
    · exact absurd hx hnew
    · exact hl
  | drop s g w tracked hw hu hv hc hun =>
    intro hd hbl
    have hs := (h hd hbl).drop hb.places.active_nodup hw hc
    have hpr : (s.dropWorker w).workerProjectRef = Function.update s.workerProjectRef w none := removed_project
    rw [← hpr] at hs
    exact hs
  | dropParked s g w tracked hw =>
    have hact : w ∉ s.activeWorkers := hb.places.parked_active w hw
    intro hd hbl
    show Served c s.queue (setDelete s.activeWorkers w) (setDelete s.idle w) g.loose g.unchecked
      (s.dropWorker w).workerProjectRef g.credit g.calm
    rw [setDelete_of_not_mem hact, setDelete_of_not_mem fun hi => hact (hb.places.idle_active w hi)]
    exact (h hd hbl).forget removed_project hact
  | abandon s g hd => exact fun hd' => absurd (hd'.symm.trans hd) Bool.false_ne_true
  | scrub s g w hm =>
    have hact : w ∉ s.activeWorkers := fun ha => hb.places.active_known ha hm
    intro hd hbl
    show Served c s.queue s.activeWorkers (setDelete s.idle w) g.loose g.unchecked
      (s.removeWorkerReferences w).workerProjectRef g.credit g.calm
    rw [setDelete_of_not_mem fun hi => hact (hb.places.idle_active w hi)]
    exact (h hd hbl).forget removed_project hact
  | park s g w hw hv hc hq =>
    intro hd hbl
    refine (h hd hbl).park hb.places.active_nodup (hb.places.loose_active w hw) hw (hb.loose_not_idle hw) hc ?_
    rcases hq with hq | hq | hq | ⟨p, hp, hne, hcap⟩
    · exact absurd (hd.symm.trans hq) Bool.false_ne_true
    · exact absurd (hbl.symm.trans hq) Bool.false_ne_true
    · exact .inl hq
    · grind [not_withinCap, executingCount_some]
  | activate s g w ht hv =>
    intro hd hbl
    have hnew : w ∉ s.activeWorkers := (hb.places.transit_out w ht).1
    have hle : ∀ {loose loose' p}, (∀ x ∈ s.activeWorkers, x ∈ loose' → x ∈ loose) →
        busyCount s.activeWorkers s.idle loose s.workerProjectRef p ≤
          busyCount (setAdd s.activeWorkers w) s.idle loose' s.workerProjectRef p := by
      intro loose loose' p hl
      rw [setAdd_of_not_mem hnew]
      exact Nat.le_trans (busyCount_mono fun x hx h1 h2 h3 => ⟨h1, fun hx' => h2 (hl x hx hx'), h3⟩) busyCount_append
    refine (h hd hbl).mono (fun _ hp => hp) id (fun _ => hle fun _ _ hx => hx) fun _ _ => hle fun x hx hl => ?_
    rcases mem_cons.mp hl with rfl | hl
    · exact absurd hx hnew
    · exact hl
  | startQueued s g w d q hw hq =>
    intro hd hbl
    refine ⟨fun hx p hp => (h hd hbl).ready hx p fun he => hp ?_, fun hc => by cases hc⟩
    exact eq_nil_of_sublist_nil (he ▸ popFor_sublist hq p)
  | startFresh s g w d md hw hk hd hb' hcl hm ha ht hcap hc =>
    intro hd hbl
    have hs := (h hd hbl).assign (p := d.projectRef) hb.places.active_nodup
      (assignable_not_idle (w := w) hb (.inl (by simp [hw]))) (fun q hq => project_of_assignable hm ha hq) (.inl hc)
    have hpr : (((s.record (.admitted d.key d.projectRef)).assignTo w d.projectRef md).beginExecution w d).workerProjectRef =
        Function.update s.workerProjectRef w (some d.projectRef) :=
      assignTo_project (s := s.record (.admitted d.key d.projectRef))
    rw [← hpr] at hs
    refine ⟨?_, fun hc => by cases hc⟩
    show _ → ∀ p, _ → Capped c p (_ + if g.credit = some p then 1 else 0)
    rw [hc]
    exact hs.ready
  | finish s g e he | preheatStart s g j | endJob s g j | bulkTake s g b | bulkRelease s g b => exact fun hd hbl => ⟨(h hd hbl).ready, fun hc => by cases hc⟩
  | _ => exact h

/-! ## 走行 -/

theorem serves_initial {c} : Serves c (initial c, {}) := by
  have h0 := untouched_initial (c := c)
  have hq : ∀ p, (initial c).queue.at p = [] := fun p => by
    rw [h0.queue]
    exact at_empty p
  exact fun _ _ => ⟨fun _ p hp => absurd (hq p) hp, nofun⟩

theorem serves_run {c} (events) : Serves c (run c (initial c) events, {}) :=
  run_invariant (m := {}) serves_initial (fun _ _ hm hb h => hm.serves hb h) allowsRun_any

theorem Serves.idle_empty {c : Config} {s p} (h : Serves c (s, {})) (hd : s.draining = false)
    (hb : s.admissionBlocked = false) (hq : s.queue.at p ≠ []) (hcap : projectWithinFunctionCap c s p none = true) : s.idle = [] := by
  by_contra hne
  obtain ⟨w, rest, he⟩ := exists_cons_of_ne_nil hne
  have hre := (h hd hb).ready ⟨w, by simp [he], not_mem_nil⟩ p hq
  have hca := not_withinCap.mpr (executingCount_none ▸ hre)
  exact absurd (hca.symm.trans hcap) nofun

end Supacloud.EdgeRuntime
