import Supacloud.EdgeRuntime.Lemmas.Work
import Supacloud.Library.Runs

/-! # プロジェクトの隔離 -/

namespace Supacloud.EdgeRuntime

open Library Pool List

structure Isolated (assigned used : List (Worker × ProjectRef)) (metadata : Worker → Option Metadata) (nextWorker : Nat) :
    Prop where
  lt : ∀ a ∈ assigned, a.1 < nextWorker
  unique : ∀ w p q, (w, p) ∈ assigned → (w, q) ∈ assigned → p = q
  known : ∀ w md p, metadata w = some md → (md.projectRef = some p ↔ (w, p) ∈ assigned)
  used : ∀ a ∈ used, a ∈ assigned

def Isolates (x : Stage) : Prop := Isolated (assignments x.1.log) (uses x.1.log) x.1.metadata x.1.nextWorker

/-! ## 一手 -/

namespace Isolated

variable {assigned used : List (Worker × ProjectRef)} {metadata : Worker → Option Metadata} {nextWorker : Nat} {w : Worker}
  (h : Isolated assigned used metadata nextWorker)

include h

theorem project {p} (hp : (metadata w).bind (·.projectRef) = some p) : (w, p) ∈ assigned := by
  obtain ⟨md, hm, hp⟩ := Option.bind_eq_some_iff.mp hp
  exact (h.known w md p hm).mp hp

theorem assign {p md} (hm : metadata w = some md) (ha : md.projectRef = none ∨ md.projectRef = some p) (hlt : w < nextWorker) :
    Isolated ((w, p) :: assigned) used (Function.update metadata w (some { md with projectRef := some p })) nextWorker := by
  -- 以前の割り当てがあれば、それも p である。
  have hsa : ∀ q, (w, q) ∈ assigned → q = p := by
    intro q hq
    have hq := (h.known w md q hm).mpr hq
    rcases ha with ha | ha
    · rw [ha] at hq
      cases hq
    · rw [ha] at hq
      exact (Option.some.inj hq).symm
  refine ⟨forall_mem_cons.mpr ⟨hlt, h.lt⟩, ?_, ?_, fun a ha => mem_cons_of_mem _ (h.used a ha)⟩
  · grind [h.unique]
  · intro x md' q hx
    by_cases he : x = w
    · grind
    · grind [h.known]

theorem remove : Isolated assigned used (Function.update metadata w none) nextWorker :=
  { h with
    known := fun x md q hx => by
      by_cases he : x = w
      · rw [he, Function.update_self] at hx
        cases hx
      · rw [Function.update_of_ne he] at hx
        exact h.known x md q hx }

theorem create {n} : Isolated assigned used (Function.update metadata nextWorker (some { generation := n })) (nextWorker + 1) :=
  { h with
    lt := fun a ha => Nat.lt_succ_of_lt (h.lt a ha)
    known := fun x md q hx => by
      by_cases he : x = nextWorker
      · subst he
        rw [Function.update_self] at hx
        cases hx
        exact ⟨nofun, fun hq => absurd (h.lt _ hq) (Nat.lt_irrefl _)⟩
      · rw [Function.update_of_ne he] at hx
        exact h.known x md q hx }

theorem use {p} (hp : (w, p) ∈ assigned) : Isolated assigned ((w, p) :: used) metadata nextWorker :=
  { h with used := forall_mem_cons.mpr ⟨hp, h.used⟩ }

end Isolated

theorem Move.isolates {c m x y} (hm : Move c m x y) (hb : Base c x) (h : Isolates x) : Isolates y := by
  cases hm with
  | unqueue s g ds q r =>
    simp only [Isolates, settleAll_eq]
    rw [assignments, uses, filterMap_settled (fun _ _ => rfl), filterMap_settled (fun _ _ => rfl)]
    exact h
  | assign s g w p md hm ha => exact Isolated.assign h hm ha (hb.places.known_lt w (by simp [hm]))
  | create s g => exact Isolated.create h
  | drop s g w | shrink s g w | dropParked s g w | scrub s g w => exact Isolated.remove h
  | startQueued s g w d q hw hq hd hp => exact Isolated.use h (Isolated.project h hp)
  | startFresh s g w d md hw hk hd hb' hca hm ha =>
    have h1 := Isolated.assign h hm ha (hb.places.known_lt w (by simp [hm]))
    exact h1.use mem_cons_self
  | preheatStart s g j hid hp hpr => exact Isolated.use h (Isolated.project h hpr)
  | _ => exact h

theorem isolates_initial {c} : Isolates (Pool.initial c, {}) := by
  have h0 := untouched_initial (c := c)
  have hass : assignments (Pool.initial c).log = [] := h0.filterMap_log fun _ => rfl
  have hus : uses (Pool.initial c).log = [] := h0.filterMap_log fun _ => rfl
  simp only [Isolates, hass, hus]
  exact {
    lt := nofun
    unique := nofun
    known := fun w md p hm => by simp [h0.metadata w md hm]
    used := nofun }

/-! ## 割り当ての例外 -/

section Throws

variable {c : Config} {m : Mode} {s : Pool} {w : Worker} {a : Worker × AssignError}

theorem Move.throws {x y} (hm : Move c m x y) : throws y.1.log = throws x.1.log ∨
      m.tidy = false ∧ ∃ w, throws y.1.log = (w, .missingMetadata) :: throws x.1.log := by
  cases hm with
  | unqueue s g ds q r =>
    simp only [settleAll_eq]
    exact .inl (filterMap_settled (fun _ _ => rfl) ds r s.log)
  | threw s g w hw hm ht => exact .inr ⟨ht, w, rfl⟩
  | _ => exact .inl rfl

theorem Moves.throws_tidy {x y} (hm : Moves c m x y) (ht : m.tidy = true) : throws y.1.log = throws x.1.log := by
  induction hm with
  | refl => rfl
  | tail _ h ih =>
    rcases h.throws with h | ⟨hf, -⟩
    · exact h.trans ih
    · rw [ht] at hf
      cases hf

theorem throws_run (events) (ha : a ∈ throws (run c (Pool.initial c) events).log) : a.2 = .missingMetadata := by
  refine run_invariant (m := {}) (I := fun x => ∀ a ∈ throws x.1.log, a.2 = .missingMetadata) ?_ ?_ allowsRun_any a ha
  · intro a ha
    rw [throws, untouched_initial.filterMap_log fun _ => rfl] at ha
    cases ha
  · intro x y hm _ h a ha
    rcases hm.throws with he | ⟨-, w, he⟩
    · exact h a (he ▸ ha)
    · rw [he] at ha
      rcases mem_cons.mp ha with rfl | ha
      · rfl
      · exact h a ha

variable {f : String}

theorem preheatWorker_throws {p h o} (ha : a ∈ throws (s.preheatWorker w p f h o).1.log) :
    a ∈ throws s.log ∨ a.1 = w ∧ (a.2 = .missingMetadata → s.metadata w = none) := by
  unfold preheatWorker assignWorkerProject at ha
  cases hm : s.metadata w with
  | none =>
    simp only [hm] at ha
    rcases mem_cons.mp ha with rfl | ha
    · exact .inr ⟨rfl, fun _ => rfl⟩
    · exact .inl ha
  | some md =>
    simp only [hm] at ha
    split at ha
    · rename_i heq
      split at heq
      · cases heq
        rcases mem_cons.mp ha with rfl | ha
        · exact .inr ⟨rfl, nofun⟩
        · exact .inl ha
      · cases heq
    · rename_i heq
      split at heq
      · cases heq
      · cases heq
        exact .inl ha

theorem preheatWorker_known {p h o x} (hx : (s.preheatWorker w p f h o).1.metadata x = none) : s.metadata x = none := by
  unfold preheatWorker assignWorkerProject at hx
  cases hm : s.metadata w with
  | none =>
    simp only [hm] at hx
    exact hx
  | some md =>
    simp only [hm] at hx
    split at hx
    · rename_i heq
      split at heq
      · cases heq
        exact hx
      · cases heq
    · rename_i heq
      split at heq
      · cases heq
      · cases heq
        by_cases he : x = w
        · simp [record, he] at hx
        · simpa [record, he] using hx

theorem preheatWorkers_throws {r ws} (ha : a ∈ throws (preheatWorkers r f ws s).1.log) :
    a ∈ throws s.log ∨ a.1 ∈ ws ∧ (a.2 = .missingMetadata → s.metadata a.1 = none) := by
  induction ws generalizing s with
  | nil => exact .inl ha
  | cons w rest ih => grind [→ preheatWorker_throws, → preheatWorker_known, preheatWorkers]

theorem startMember_throws {b remaining} (ha : a ∈ throws (startMember s b f remaining).log) :
    a ∈ throws s.log ∨ a.1 ∈ b.workers ∧ (a.2 = .missingMetadata → s.metadata a.1 = none) := by
  refine preheatWorkers_throws (r := b.request) (f := f) ?_
  unfold startMember at ha
  split at ha
  · rename_i heq
    rw [heq]
    exact ha
  · rename_i heq
    rw [heq]
    exact ha

theorem onBulkSettled_startsNext {b} (h : s.startsNext b = true) : ∃ f rest, onBulkSettled c s b =
      startMember { s with preheats := s.preheats.filter fun j => j.owner ≠ .bulk } b f rest := by
  simp only [startsNext, Bool.and_eq_true, decide_eq_true_eq, Bool.not_eq_true', all_eq_true, Bool.or_eq_true] at h
  obtain ⟨⟨⟨hp, hki⟩, hrem⟩, hjo⟩ := h
  obtain ⟨f, rest, hrem⟩ := exists_cons_of_ne_nil (isEmpty_eq_false_iff.mp hrem)
  have hdo : ∀ j ∈ s.preheats.filter fun j => j.owner = .bulk, j.phase = .done true true := by grind
  have hall : ((s.preheats.filter fun j => j.owner = .bulk).all fun j => j.phase = .done true true) = true :=
    all_eq_true.mpr fun j hj => decide_eq_true (hdo j hj)
  have hisD : (s.preheats.filter fun j => j.owner = .bulk).all PreheatJob.isDone = true :=
    all_eq_true.mpr fun j hj => by simp [PreheatJob.isDone, hdo j hj]
  refine ⟨f, rest, ?_⟩
  simp [onBulkSettled, hp, hki, hrem, hall, hisD]

theorem step_throws (h : Base c (s, {})) {e} (ha : a ∈ throws (step c s e).log) :
    a ∈ throws s.log ∨ e = .bulkSettled ∧ ∃ b, s.bulk = some b ∧ a.1 ∈ b.workers ∧ (a.2 = .missingMetadata → s.metadata a.1 = none) := by
  cases hk : keepsReserved s e with
  | true =>
    have hmos := step_moves (m := { tidy := true }) h (e := e) ⟨nofun, fun _ => hk, nofun⟩
    exact .inl (Moves.throws_tidy hmos rfl ▸ ha)
  | false =>
    unfold keepsReserved at hk
    split at hk
    · split at hk
      · rename_i b hb
        simp only [Bool.or_eq_false_iff, Bool.not_eq_false'] at hk
        obtain ⟨f, rest, heq⟩ := onBulkSettled_startsNext (c := c) hk.1
        simp only [step, hb, heq] at ha
        rcases startMember_throws ha with ha | ⟨hw, hm⟩
        · exact .inl ha
        · exact .inr ⟨rfl, b, hb, hw, hm⟩
      · cases hk
    · cases hk

end Throws

end Supacloud.EdgeRuntime

/-! ## 古い実行者の締め出し -/

namespace Supacloud.EdgeRuntime

open Library Pool

def Duty (generation : Nat) (suspect : Worker → Prop) (barred : Nat → Prop) (earlier : List LogEvent) : LogEvent → Prop
  | .rotated n => n ≤ generation ∧ ∀ w k, .created w k ∈ earlier → k < n → suspect w
  | .invalidated p => (∀ w, .assigned w p ∈ earlier → suspect w) ∧ ∀ k, .admitted k p ∈ earlier → barred k
  | _ => True

def FenceOrder (earlier : List LogEvent) : LogEvent → LogEvent → Prop
  | .rotated n, .created _ k => n ≤ k
  | .rotated n, .started _ w _ => ∀ k, .created w k ∈ earlier → n ≤ k
  | .rotated n, .preheatSucceeded w => ∀ k, .created w k ∈ earlier → n ≤ k
  | .invalidated p, .started k w _ => .assigned w p ∉ earlier ∧ .admitted k p ∉ earlier
  | _, _ => True

structure Fenced (log : List LogEvent) (queue : MultiQueue ProjectRef Dispatch) (metadata : Worker → Option Metadata)
    (tainted : Worker → Bool) (generation nextWorker : Nat) (rotating : List Worker) (fresh : Option Nat) : Prop where
  created_lt : ∀ w k, .created w k ∈ log → w < nextWorker
  created_generation : ∀ w k md, .created w k ∈ log → metadata w = some md → md.generation = k
  turning : ∀ w md, metadata w = some md → md.generation < generation → tainted w = true ∨ w ∈ rotating
  duties : Since (Duty generation (fun w => metadata w ≠ none → tainted w = true)
    (fun k => (∀ d ∈ queue.all, d.key ≠ k) ∧ fresh ≠ some k)) log
  ordered : Ordered FenceOrder log

def Fences (x : Stage) : Prop :=
  Fenced x.1.log x.1.queue x.1.metadata x.1.tainted x.1.workerGeneration x.1.nextWorker x.2.rotating x.2.fresh

variable {earlier : List LogEvent}

theorem Duty.mono {generation generation' suspect suspect' barred barred' log}
    {old} (hsub : earlier ⊆ log) (hg : generation ≤ generation')
    (hs : ∀ w, (∃ k, .created w k ∈ log) ∨ (∃ p, .assigned w p ∈ log) → suspect w → suspect' w)
    (hb : ∀ k p, .admitted k p ∈ log → barred k → barred' k) (h : Duty generation suspect barred earlier old) :
    Duty generation' suspect' barred' earlier old := by
  cases old with
  | rotated n => exact ⟨h.1.trans hg, fun w k hw hk => hs w (.inl ⟨k, hsub hw⟩) (h.2 w k hw hk)⟩
  | invalidated p =>
    exact ⟨fun w hw => hs w (.inr ⟨p, hsub hw⟩) (h.1 w hw), fun k hk => hb k p (hsub hk) (h.2 k hk)⟩
  | _ => trivial

/-! ## 記録 -/

def LogEvent.quiet : LogEvent → Bool
  | .created .. => false
  | .started .. => false
  | .preheatSucceeded .. => false
  | .rotated .. => false
  | .invalidated .. => false
  | _ => true

theorem LogEvent.quiet_duty {e} (h : e.quiet = true) {generation suspect barred} : Duty generation suspect barred earlier e := by
  cases e with
  | rotated | invalidated => cases h
  | _ => trivial

theorem LogEvent.quiet_order {e} (h : e.quiet = true) {old} : FenceOrder earlier old e := by
  cases e with
  | created | started | preheatSucceeded | rotated | invalidated => cases h
  | _ => cases old <;> trivial

section Fenced

variable {log : List LogEvent} {queue queue' : MultiQueue ProjectRef Dispatch} {metadata metadata' : Worker → Option Metadata}
  {tainted tainted' : Worker → Bool} {generation nextWorker : Nat} {rotating : List Worker} {fresh fresh' : Option Nat}
  {e : LogEvent} {w : Worker} {k : Nat} {p : ProjectRef}

namespace Fenced

variable (h : Fenced log queue metadata tainted generation nextWorker rotating fresh)

include h

theorem extend (hc : ∀ w k, .created w k ≠ e) (hd : Duty generation (fun w => metadata w ≠ none → tainted w = true)
      (fun k => (∀ d ∈ queue.all, d.key ≠ k) ∧ fresh ≠ some k) log e) (ho : Since (fun earlier old => FenceOrder earlier old e) log) :
    Fenced (e :: log) queue metadata tainted generation nextWorker rotating fresh where
  created_lt := fun w k hw => h.created_lt w k (List.mem_of_ne_of_mem (hc w k) hw)
  created_generation := fun w k md hw => h.created_generation w k md (List.mem_of_ne_of_mem (hc w k) hw)
  turning := h.turning
  duties := h.duties.cons hd
  ordered := h.ordered.cons ho

theorem record (he : e.quiet = true) : Fenced (e :: log) queue metadata tainted generation nextWorker rotating fresh :=
  h.extend (fun w k hw => by rw [← hw] at he; cases he) (LogEvent.quiet_duty he) fun _ _ _ _ => LogEvent.quiet_order he

theorem records {news} (hn : ∀ e ∈ news, e.quiet = true) :
    Fenced (news ++ log) queue metadata tainted generation nextWorker rotating fresh := by
  induction news with
  | nil => exact h
  | cons a news ih => exact (ih fun e he => hn e (List.mem_cons_of_mem _ he)).record (hn a List.mem_cons_self)

theorem change (hm : ∀ w md', metadata' w = some md' → ∃ md, metadata w = some md ∧ md.generation = md'.generation)
    (ht : ∀ w, metadata' w ≠ none → tainted w = true → tainted' w = true) :
    Fenced log queue metadata' tainted' generation nextWorker rotating fresh where
  created_lt := h.created_lt
  created_generation := fun w k md' hw hmd' => by
    obtain ⟨md, hmd, hg⟩ := hm w md' hmd'
    exact hg ▸ h.created_generation w k md hw hmd
  turning := fun w md' hmd' hlt => by
    obtain ⟨md, hmd, hg⟩ := hm w md' hmd'
    exact (h.turning w md hmd (hg ▸ hlt)).imp_left (ht w (by simp [hmd']))
  duties := h.duties.mono fun earlier old hsub =>
    Duty.mono hsub (Nat.le_refl _) (fun w _ hs hk => ht w hk (hs fun hno => by
      obtain ⟨md', hmd'⟩ := Option.ne_none_iff_exists'.mp hk
      obtain ⟨md, hmd, -⟩ := hm w md' hmd'
      rw [hmd] at hno
      cases hno)) fun _ _ _ hb => hb
  ordered := h.ordered

theorem remove :
    Fenced log queue (Function.update metadata w none) (Function.update tainted w false) generation nextWorker rotating fresh := by
  refine h.change (fun x md' hx => ?_) fun x hx ht => ?_
  · grind
  · grind

theorem assign {md} (hm : metadata w = some md) :
    Fenced log queue (Function.update metadata w (some { md with projectRef := some p })) tainted generation nextWorker
      rotating fresh := by
  refine h.change (fun x md' hx => ?_) fun _ _ ht => ht
  by_cases he : x = w
  · subst he
    rw [Function.update_self] at hx
    cases hx
    exact ⟨md, hm, rfl⟩
  · rw [Function.update_of_ne he] at hx
    exact ⟨md', hx, rfl⟩

theorem requeue (hk : ∀ k p, .admitted k p ∈ log → (∀ d ∈ queue.all, d.key ≠ k) → fresh ≠ some k →
      (∀ d ∈ queue'.all, d.key ≠ k) ∧ fresh' ≠ some k) : Fenced log queue' metadata tainted generation nextWorker rotating fresh' :=
  { h with
    duties := h.duties.mono fun _ _ hsub =>
      Duty.mono hsub (Nat.le_refl _) (fun _ _ hs => hs) fun k p hmem hb => hk k p hmem hb.1 hb.2 }

theorem create (ha : ∀ w p, .assigned w p ∈ log → w < nextWorker) :
    Fenced (.created nextWorker generation :: log) queue (Function.update metadata nextWorker (some { generation })) tainted
      generation (nextWorker + 1) rotating fresh where
  created_lt := fun w k hw => by
    rcases List.mem_cons.mp hw with hw | hw
    · cases hw
      exact Nat.lt_succ_self _
    · exact Nat.lt_succ_of_lt (h.created_lt w k hw)
  created_generation := fun w k md hw hm => by
    rcases List.mem_cons.mp hw with hw | hw
    · cases hw
      rw [Function.update_self] at hm
      cases hm
      rfl
    · grind [→ h.created_lt, → h.created_generation]
  turning := fun w md hm hlt => by
    by_cases he : w = nextWorker
    · rw [he, Function.update_self] at hm
      cases hm
      exact absurd hlt (Nat.lt_irrefl _)
    · rw [Function.update_of_ne he] at hm
      exact h.turning w md hm hlt
  duties := by
    refine (h.duties.mono fun earlier old hsub => ?_).cons trivial
    refine Duty.mono hsub (Nat.le_refl _) (fun w hw hs => ?_) fun _ _ _ hb => hb
    have hlt : w < nextWorker := hw.elim (fun ⟨k, hk⟩ => h.created_lt w k hk) fun ⟨p, hp⟩ => ha w p hp
    rw [Function.update_of_ne (Nat.ne_of_lt hlt)]
    exact hs
  ordered := h.ordered.cons (h.duties.mono fun _ old _ hd => by
    cases old with
    | rotated n => exact hd.1
    | _ => trivial)

theorem start (hm : metadata w ≠ none) (ht : tainted w = false) (hk : (∃ d ∈ queue.all, d.key = k) ∨ fresh = some k) :
    Fenced (.started k w p :: log) queue metadata tainted generation nextWorker rotating fresh := by
  have hnot : ¬(metadata w ≠ none → tainted w = true) := fun hs => by
    rw [hs hm] at ht
    cases ht
  refine h.extend nofun trivial (h.duties.mono fun earlier old _ hd => ?_)
  cases old with
  | rotated n =>
    intro g hg
    by_contra hlt
    exact hnot (hd.2 w g hg (Nat.lt_of_not_le hlt))
  | invalidated q =>
    refine ⟨fun hw => hnot (hd.1 w hw), fun hmem => ?_⟩
    obtain ⟨hq, hf⟩ := hd.2 k hmem
    rcases hk with ⟨d, hmem, he⟩ | hk
    · exact hq d hmem he
    · exact hf hk
  | _ => trivial

theorem succeed (hm : metadata w ≠ none) (ht : tainted w = false) :
    Fenced (.preheatSucceeded w :: log) queue metadata tainted generation nextWorker rotating fresh := by
  refine h.extend nofun trivial (h.duties.mono fun earlier old _ hd => ?_)
  cases old with
  | rotated n =>
    intro g hg
    by_contra hlt
    have hs := hd.2 w g hg (Nat.lt_of_not_le hlt) hm
    rw [ht] at hs
    cases hs
  | _ => trivial

theorem rotated (hr : rotating = []) : Fenced (.rotated generation :: log) queue metadata tainted generation nextWorker
    rotating fresh := by
  refine h.extend nofun ⟨Nat.le_refl _, fun w k hw hk hne => ?_⟩ fun _ old _ _ => by cases old <;> trivial
  obtain ⟨md, hm⟩ := Option.ne_none_iff_exists'.mp hne
  rcases h.turning w md hm (h.created_generation w k md hw hm ▸ hk) with ht | ht
  · exact ht
  · rw [hr] at ht
    cases ht

theorem rotate {ws} (hws : ∀ w md, metadata w = some md → w ∈ ws) :
    Fenced log queue metadata tainted (generation + 1) nextWorker ws fresh :=
  { h with
    turning := fun w md hm _ => .inr (hws w md hm)
    duties := h.duties.mono fun _ _ hsub =>
      Duty.mono hsub (Nat.le_succ _) (fun _ _ hs => hs) fun _ _ _ hb => hb }

end Fenced

end Fenced

/-! ## 一手 -/

theorem barred_of_empty {c s g k p} (hb : Base c (s, g)) (hreg : Registers (s, g)) (hq : s.queue.at p = []) (hk : .admitted k p ∈ s.log) :
    (∀ d ∈ s.queue.all, d.key ≠ k) ∧ g.fresh ≠ some k := by
  have hk := mem_admissions.mpr hk
  refine ⟨fun d hd he => ?_, fun hf => hreg.fresh_new k hf _ hk rfl⟩
  obtain ⟨q, hd'⟩ := MultiQueue.mem_all.mp hd
  have hsa := List.inj_on_of_nodup_map hreg.nodup (hreg.queued d hd) hk he
  have hp : d.projectRef = p := congrArg Prod.snd hsa
  rw [← hb.keys.refs q d hd', hp, hq] at hd'
  cases hd'

theorem Move.fences {c m x y} (hm : Move c m x y) (hb : Base c x) (hreg : Registers x) (hiso : Isolates x) (h : Fences x) : Fences y := by
  cases hm with
  | newKey s g =>
    refine Fenced.requeue h fun k p hk hq _ => ⟨hq, fun he => ?_⟩
    cases he
    exact Nat.lt_irrefl _ (hreg.lt _ (mem_admissions.mpr hk))
  | refuse s g k r => exact Fenced.record (Fenced.requeue h fun k p _ hq _ => ⟨hq, nofun⟩) rfl
  | settle s g k r | resolve s g e e' r | preheatStart s g j | threw s g w => exact Fenced.record h rfl
  | unqueue s g ds q r hall =>
    simp only [Fences, settleAll_eq]
    refine Fenced.records (Fenced.requeue h fun k p _ hq hf => ⟨fun d hd => ?_, hf⟩) fun e he => ?_
    · exact hq d (hall.symm.subset (List.mem_append_right _ hd))
    · obtain ⟨d, -, rfl⟩ := List.mem_map.mp (List.mem_reverse.mp he)
      rfl
  | enqueue s g d hk =>
    refine Fenced.record (Fenced.requeue h fun k p _ hq hf => ⟨fun x hx => ?_, nofun⟩) rfl
    rcases List.mem_cons.mp (MultiQueue.all_push.subset hx) with rfl | hx
    · exact fun he => hf (he ▸ hk)
    · exact hq x hx
  | assign s g w p md hm => exact (Fenced.assign h hm).record rfl
  | create s g =>
    exact Fenced.create h fun w p hw => hiso.lt _ (mem_assignments.mpr hw)
  | drop s g w | shrink s g w | dropParked s g w | scrub s g w => exact Fenced.remove h
  | startQueued s g w d q hw hq hd hp ht =>
    obtain ⟨-, -, hpe⟩ := MultiQueue.popFor_some hq
    have hkn : s.metadata w ≠ none := hb.places.active_known (hb.places.loose_active w hw)
    have h1 := Fenced.start h (p := d.projectRef) hkn ht (.inl ⟨d, hpe.symm.subset List.mem_cons_self, rfl⟩)
    exact h1.requeue fun k p _ hq' hf => ⟨fun x hx => hq' x (hpe.symm.subset (List.mem_cons_of_mem _ hx)), hf⟩
  | startFresh s g w d md hw hk hd hb' hca hm ha ht =>
    have h1 := (Fenced.record (e := .admitted d.key d.projectRef) h rfl).assign (p := d.projectRef) hm
    have h2 := (h1.record (e := .assigned w d.projectRef) rfl).start (w := w) (p := d.projectRef) (by simp) ht (.inr hk)
    exact h2.requeue fun k p _ hq' _ => ⟨hq', nofun⟩
  | taint s g t ht => exact Fenced.change h (fun w md hm => ⟨md, hm, rfl⟩) fun w _ hw => ht w hw
  | rotateBegin s g ws hr hl ht hws => exact Fenced.rotate h hws
  | rotateNext s g w rest hr hw =>
    exact { h with
      turning := fun x md hm hlt => by
        have := h.turning x md hm hlt
        simp only [hr, List.mem_cons] at this
        rcases this with ht | rfl | hmem
        · exact .inl ht
        · rcases hw with hw | hw
          · exact .inl hw
          · rw [hw] at hm
            cases hm
        · exact .inr hmem }
  | rotateEnd s g hr => exact Fenced.rotated h hr
  | succeed s g w ht hm => exact Fenced.succeed h hm ht
  | invalidated s g p hq hl ht hw =>
    refine Fenced.extend h nofun ⟨fun w ha hne => ?_, fun k hk => barred_of_empty (s := s) (g := g) hb hreg hq hk⟩ fun _ old _ _ => by
      cases old <;> trivial
    obtain ⟨md, hmd⟩ := Option.ne_none_iff_exists'.mp hne
    have hpr := (hiso.known w md p hmd).mpr (mem_assignments.mpr ha)
    exact hw w (workerProjectRef_eq_some.mpr ⟨md, hmd, hpr⟩)
  | _ => exact h

/-! ## 走行 -/

theorem fences_initial {c} : Fences (Pool.initial c, {}) := by
  have h0 := untouched_initial (c := c)
  have hsp : ∀ {later old earlier}, (Pool.initial c).log = later ++ old :: earlier → ∃ w, old = .created w 0 := by
    intro later old earlier he
    obtain ⟨w, -, hw⟩ := h0.created old (by rw [he]; simp)
    exact ⟨w, hw⟩
  exact {
    created_lt := fun w k hw => by
      obtain ⟨x, hx, he⟩ := h0.created _ hw
      cases he
      exact hx
    created_generation := fun w k md hw hm => by
      obtain ⟨x, -, he⟩ := h0.created _ hw
      cases he
      rw [h0.metadata w md hm]
    turning := fun w md _ hlt => by
      rw [h0.generation] at hlt
      exact absurd hlt (Nat.not_lt_zero _)
    duties := fun later old earlier he => by
      obtain ⟨w, rfl⟩ := hsp he
      trivial
    ordered := fun later old earlier he new _ => by
      obtain ⟨w, rfl⟩ := hsp he
      trivial }

theorem fences_run {c} (events) : Fences (run c (Pool.initial c) events, {}) := by
  have h : Registers (run c (Pool.initial c) events, {}) ∧ Isolates (run c (Pool.initial c) events, {}) ∧
      Fences (run c (Pool.initial c) events, {}) :=
    run_invariant (m := {}) (I := fun x => Registers x ∧ Isolates x ∧ Fences x)
      ⟨registers_run [], isolates_initial, fences_initial⟩
      (fun _ _ hm hb ⟨hreg, hiso, h⟩ => ⟨hm.registers hb hreg, hm.isolates hb hiso, hm.fences hb hreg hiso h⟩) allowsRun_any
  exact h.2.2

end Supacloud.EdgeRuntime
