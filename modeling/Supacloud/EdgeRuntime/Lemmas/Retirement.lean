import Supacloud.EdgeRuntime.Lemmas.Base

/-!
# 引退と枠の受け渡し

実行者を除く関数と、枠を別のプロジェクトに渡す関数を、一手の列に分ける。
-/

namespace Supacloud.EdgeRuntime

open Library Pool Function Move List

variable {c : Config} {m : Mode} {s s' : Pool} {g : Ghost} {w r : Worker} {p : ProjectRef} {calm : Bool} {l : List Worker} {x y : Stage}

def Gone (s : Pool) (w : Worker) : Prop := s.metadata w = none ∧ w < s.nextWorker

theorem Move.gone (hm : Move c m x y) (h : Gone x.1 w) : Gone y.1 w := by
  have hup : ∀ {f : Worker → Option Metadata} {v}, f w = none → Function.update f v none w = none := by
    intro f v hf
    by_cases he : w = v
    · simp [he]
    · simpa [he] using hf
  cases hm with
  | unqueue s g ds q r =>
    rw [settleAll_eq]
    exact h
  | assign s g v p md hv | startFresh s g v d md hw hk hd hb hca hv =>
    have hne : w ≠ v := fun he => by simp [Gone, he, hv] at h
    exact ⟨(Function.update_of_ne hne _ _).trans h.1, h.2⟩
  | create s g =>
    exact ⟨(Function.update_of_ne (Nat.ne_of_lt h.2) _ _).trans h.1, Nat.lt_succ_of_lt h.2⟩
  | drop s g v | shrink s g v | dropParked s g v | scrub s g v => exact ⟨hup h.1, h.2⟩
  | _ => exact h

theorem Moves.gone (hm : Moves c m x y) (h : Gone x.1 w) : Gone y.1 w := by
  induction hm with
  | refl => exact h
  | tail _ hst ih => exact hst.gone ih

def Absent (s : Pool) (w : Worker) : Prop := Gone s w ∧ w ∉ s.retiredWorkers

theorem Absent.leaveWorker {s : Pool} {v w tracked} (h : Absent s w) (hg : Gone (s.leaveWorker v tracked) w) (hv : s.metadata v ≠ none) :
    Absent (s.leaveWorker v tracked) w := by
  refine ⟨hg, ?_⟩
  have hne : w ≠ v := fun he => hv (he ▸ h.1.1)
  cases tracked with
  | false => exact h.2
  | true => exact fun hw => (mem_setAdd.mp hw).elim h.2 hne

theorem Move.absent (hm : Move c m x y) (hb : Base c x) (h : Absent x.1 w) : Absent y.1 w := by
  have hg := hm.gone h.1
  cases hm with
  | unqueue s g ds q r =>
    rw [settleAll_eq] at hg ⊢
    exact ⟨hg, h.2⟩
  | drop s g v tracked hv | shrink s g v hv => exact h.leaveWorker hg (hb.places.active_known hv)
  | dropParked s g v tracked hv => exact h.leaveWorker hg (hb.places.parked_known hv)
  | untrack s g v => exact ⟨hg, fun hw => h.2 (mem_setDelete.mp hw).1⟩
  | _ => exact ⟨hg, h.2⟩

theorem Moves.absent (hm : Moves c m x y) (hb : Base c x) (h : Absent x.1 w) : Absent y.1 w := by
  induction hm with
  | refl => exact h
  | tail hms hst ih => exact hst.absent (Moves.base hms hb) ih

theorem Base.not_active_of_gone (h : Base c (s, g)) (hw : Gone s w) : w ∉ s.activeWorkers := fun ha =>
  h.places.active_known ha hw.1

theorem Base.new_untainted (h : Base c (s, g)) : s.tainted s.nextWorker = false := by
  by_contra hne
  exact Nat.lt_irrefl _ (h.tainted_lt s.nextWorker (by simpa using hne))

/-! ## 副次的な項目と停止 -/

def Bookkeeping.Keeps (b b' : Bookkeeping) : Prop :=
  b'.moduleControls = b.moduleControls ∧ b'.workerMemory ⊆ b.workerMemory

theorem Base.book (h : Base c (s, g)) (b) (hb : s.book.Keeps b) : Move c m (s, g) ({ s with book := b }, g) :=
  .aux s g b s.admissionRecovering s.bulkWaiting (fun ws hws => h.below ws (hb.1 ▸ hws)) (fun _ hr => .inl hr)
    fun _ hx => .inl (hb.2 hx)

theorem clearQueue_moves (r) : Move c m (s, g) (s.clearQueue r, g) :=
  .unqueue s g s.queue.all .empty r (by simp) fun p => by simp

theorem stopDispatching_moves : Moves c m (s, g) (s.stopDispatching, g) := by
  have h1 : Move c m (s, g) (s.clearQueue .serverShuttingDown, g) := clearQueue_moves _
  have h2 := flags (c := c) (m := m) (s.clearQueue .serverShuttingDown) g true s.admissionBlocked (fun _ => rfl)
    fun _ p => MultiQueue.at_empty p
  have he : { s.clearQueue .serverShuttingDown with draining := true, admissionBlocked := s.admissionBlocked } = s.stopDispatching := by
    simp [stopDispatching, clearQueue, settleAll_eq]
  exact .tail (.single h1) (he ▸ h2)

def Halts (s s' : Pool) : Prop :=
  ∃ retired queue draining log book, s' = { s with retiredWorkers := retired, queue, draining, log, book } ∧
    (draining = true ∨ (queue = s.queue ∧ draining = s.draining))

theorem trackRetiredWorker_halts : Halts s (trackRetiredWorker c s w) := by
  unfold trackRetiredWorker
  dsimp only
  split
  · unfold triggerRetirementFailSafe
    split
    · exact ⟨_, _, _, _, _, rfl, .inr ⟨rfl, rfl⟩⟩
    · simp only [stopDispatching, clearQueue, settleAll_eq]
      exact ⟨_, _, _, _, _, rfl, .inl rfl⟩
  · exact ⟨_, _, _, _, _, rfl, .inr ⟨rfl, rfl⟩⟩

theorem trackRetiredWorker_moves (h : Base c (s.leaveWorker w true, g)) :
    Moves c m (s.leaveWorker w true, g) (trackRetiredWorker c (s.dropWorker w) w, g) := by
  show Moves c m (s.leaveWorker w true, g) (if (s.leaveWorker w true).retiredWorkers.length > c.maxRetiredWorkers then
    (s.leaveWorker w true).triggerRetirementFailSafe else s.leaveWorker w true, g)
  split
  · unfold triggerRetirementFailSafe
    split
    · exact .refl
    · exact .head (h.book { (s.leaveWorker w true).book with retirementBudgetExceeded := true } ⟨rfl, fun _ h => h⟩) stopDispatching_moves
  · exact .refl

theorem checkWorkerRecycleBudget_eq : ∃ b, checkWorkerRecycleBudget c s = { s with book := b } ∧ s.book.Keeps b := by
  unfold checkWorkerRecycleBudget
  split
  · exact ⟨_, rfl, rfl, fun _ h => h⟩
  · exact ⟨s.book, rfl, rfl, fun _ h => h⟩

theorem recordWorkerReplacement_eq : ∃ b, recordWorkerReplacement c s = { s with book := b } ∧ s.book.Keeps b := by
  unfold recordWorkerReplacement
  obtain ⟨b, hb, hm⟩ := checkWorkerRecycleBudget_eq (c := c)
    (s := { s with book := { s.book with totalWorkerReplacements := s.book.totalWorkerReplacements + 1 } })
  exact ⟨b, hb, hm⟩

theorem retireWorker_gone (ha : w ∉ s.activeWorkers) (hp : w ∉ s.parkedWorkers) (b) : retireWorker c s w b =
      ({ s with book := { s.book with workerMemory := s.book.workerMemory.filter fun x => x.1 ≠ w } }, none) := by
  simp [retireWorker, ha, hp]

theorem retireWorker_parked (ha : w ∉ s.activeWorkers) (hp : w ∈ s.parkedWorkers) (b) :
    retireWorker c s w b = (trackRetiredWorker c (s.dropWorker w) w, none) := by
  simp [retireWorker, ha, hp, dropWorker]

theorem retireWorker_active (ha : w ∈ s.activeWorkers) (b) : retireWorker c s w b =
      if (trackRetiredWorker c (s.dropWorker w) w).draining = false ∧ b = true then
        replaceWorker c (trackRetiredWorker c (s.dropWorker w) w)
      else (trackRetiredWorker c (s.dropWorker w) w, none) := by
  simp only [retireWorker, ha, not_true_eq_false, false_and, if_false, true_and, Bool.not_eq_true']
  rfl

theorem dropWorker_gone (hw : w < s.nextWorker) : Gone (s.dropWorker w) w := by
  simpa [Gone, dropWorker, removeWorkerReferences] using hw

/-! ## 手番 -/

structure Ghost.Rest (g : Ghost) : Prop where
  credit : g.credit = none
  vacant : g.vacant = false
  transit : g.transit = none
  overflow : g.overflow = false
  calm : g.calm = false

def TurnOk (c : Config) (m : Mode) (x : Stage) (g : Ghost) (t : Pool × Option Worker) : Prop :=
  ∃ credit, Moves c m x (t.1, { g with loose := t.2.toList ++ g.loose, credit }) ∧
    (credit = none ∨ ∃ w, t.2 = some w ∧ t.1.workerProjectRef w = none ∧ t.1.tainted w = false)

theorem TurnOk.of_none (hg : g.Rest) (h : Moves c m x (s, g)) : TurnOk c m x g (s, none) := by
  refine ⟨none, ?_, .inl rfl⟩
  have : ({ g with loose := [] ++ g.loose, credit := none } : Ghost) = g := by
    rw [nil_append, ← hg.credit]
  exact this ▸ h

theorem TurnOk.head {t} (hxy : Moves c m x y) (h : TurnOk c m y g t) : TurnOk c m x g t := by
  obtain ⟨credit, hm, hc⟩ := h
  exact ⟨credit, hxy.trans hm, hc⟩

theorem filter_ne_of_not_mem (h : w ∉ l) : l.filter (· ≠ w) = l := setDelete_of_not_mem h

theorem replaceWorker_turn {credit} (hg : g.Rest) (h : Base c (s, { g with vacant := true, credit })) :
    TurnOk c m (s, { g with vacant := true, credit }) g (replaceWorker c s) := by
  obtain ⟨b, hb, hctl⟩ := recordWorkerReplacement_eq (c := c) (s := s)
  have h1 := h.book (m := m) b hctl
  have h2 := create (c := c) (m := m) { s with book := b } { g with vacant := true, credit } (.inl rfl) hg.transit
  have hgh : ({ g with vacant := false, credit, loose := s.nextWorker :: g.loose } : Ghost) =
      { g with loose := s.nextWorker :: g.loose, credit } := by
    simp [hg.vacant]
  unfold replaceWorker
  rw [hb]
  refine ⟨credit, .tail (.single h1) (hgh ▸ h2), .inr ⟨s.nextWorker, rfl, ?_, h.new_untainted⟩⟩
  simp [workerProjectRef, createWorker, record]

theorem retireWorker_turn (hg : g.Rest) (h : Base c (s, { g with loose := l }))
    (hl : l.filter (· ≠ w) = g.loose) (hu : w ∈ s.activeWorkers → Unowned s { g with loose := l } w)
    (hun : w ∉ g.unchecked) : TurnOk c m (s, { g with loose := l }) g (retireWorker c s w true) := by
  by_cases ha : w ∈ s.activeWorkers
  · have h1 := drop (c := c) (m := m) s { g with loose := l } w true ha (hu ha) hg.vacant hg.credit hun
    have hgh : ∀ credit, ({ g with loose := l.filter (· ≠ w), vacant := true, credit, calm := false } : Ghost) =
        { g with vacant := true, credit } := by
      intro credit
      rw [hl, ← hg.calm]
    dsimp only at h1
    rw [hgh] at h1
    have h2 := h1.base h
    have h3 := trackRetiredWorker_moves (m := m) h2
    rw [retireWorker_active ha]
    split
    · exact .head (.trans (.single h1) h3) (replaceWorker_turn hg (h3.base h2))
    · rename_i hd
      have h4 := abandon (c := c) (m := m) (trackRetiredWorker c (s.dropWorker w) w)
        { g with vacant := true, credit := if w ∈ s.idle then none else s.workerProjectRef w } (by simpa using hd)
      have hre : ({ g with vacant := false, credit := none } : Ghost) = g := by
        rw [← hg.vacant, ← hg.credit]
      exact .of_none hg (.tail (.trans (.single h1) h3) (hre ▸ h4))
  · have hwl : w ∉ l := fun hw => ha (h.places.loose_active w hw)
    rw [filter_ne_of_not_mem hwl] at hl
    subst hl
    by_cases hp : w ∈ s.parkedWorkers
    · have h1 := dropParked (c := c) (m := m) s g w true hp
      have h2 := trackRetiredWorker_moves (m := m) (h1.base h)
      rw [retireWorker_parked ha hp]
      exact .of_none hg (.trans (.single h1) h2)
    · rw [retireWorker_gone ha hp]
      exact .of_none hg (.single (h.book _ ⟨rfl, fun _ hx => mem_of_mem_filter hx⟩))

theorem retireSurplusWorker_moves {credit} (hg : g.Rest) (h : Base c (s, { g with loose := l, credit })) (hl : l.filter (· ≠ w) = g.loose)
    (ha : w ∈ s.activeWorkers) (hu : Unowned s { g with loose := l, credit } w) (hun : w ∉ g.unchecked)
    (hs : c.size < s.activeWorkers.length) (hq : ∀ p, s.queue.at p = []) :
    Moves c m (s, { g with loose := l, credit }) (retireSurplusWorker c s w, g) := by
  let s₁ := { s with book := { s.book with totalWorkerSurplusRetirements := s.book.totalWorkerSurplusRetirements + 1 } }
  have h1 : Move c m (s, { g with loose := l, credit }) (s₁, { g with loose := l, credit }) := h.book _ ⟨rfl, fun _ h => h⟩
  have h2 := shrink (c := c) (m := m) s₁ { g with loose := l, credit } w ha hu hun hs hq
  have hgh : ({ g with loose := l.filter (· ≠ w), credit := none, calm := false } : Ghost) = g := by
    rw [hl, ← hg.calm, ← hg.credit]
  dsimp only at h2
  rw [hgh] at h2
  have h3 := h2.base (h1.base h)
  have h4 := trackRetiredWorker_moves (m := m) h3
  obtain ⟨b, hb, hctl⟩ := checkWorkerRecycleBudget_eq (c := c) (s := trackRetiredWorker c (s₁.dropWorker w) w)
  have he : retireSurplusWorker c s w = { trackRetiredWorker c (s₁.dropWorker w) w with book := b } := by
    rw [← hb]
    have hr := retireWorker_active (c := c) (s := s₁) ha false
    change checkWorkerRecycleBudget c (retireWorker c s₁ w false).1 = _
    rw [hr, if_neg (by simp)]
  rw [he]
  exact .tail (.trans (.tail (.single h1) h2) h4) ((h4.base h3).book b hctl)

/-! ## 停め置き -/

structure Evicts (s s' : Pool) : Prop where
  active : s'.activeWorkers = s.activeWorkers
  idle : s'.idle = s.idle
  metadata : ∀ x, x ∉ s.parkedWorkers → s'.metadata x = s.metadata x
  tainted : ∀ x, x ∉ s.parkedWorkers → s'.tainted x = s.tainted x
  parked : ∀ x ∈ s'.parkedWorkers, x ∈ s.parkedWorkers
  nextWorker : s'.nextWorker = s.nextWorker
  queue : s'.draining = true ∨ (s'.queue = s.queue ∧ s'.draining = s.draining)

theorem Evicts.refl (s) : Evicts s s :=
  ⟨rfl, rfl, fun _ _ => rfl, fun _ _ => rfl, fun _ h => h, rfl, .inr ⟨rfl, rfl⟩⟩

theorem Evicts.trans {s₁ s₂ s₃} (h : Evicts s₁ s₂) (h' : Evicts s₂ s₃) : Evicts s₁ s₃ where
  active := h'.active.trans h.active
  idle := h'.idle.trans h.idle
  metadata x hx := (h'.metadata x fun hp => hx (h.parked x hp)).trans (h.metadata x hx)
  tainted x hx := (h'.tainted x fun hp => hx (h.parked x hp)).trans (h.tainted x hx)
  parked x hx := h.parked x (h'.parked x hx)
  nextWorker := h'.nextWorker.trans h.nextWorker
  queue := by
    rcases h'.queue with hd | ⟨hq, hd⟩
    · exact .inl hd
    · grind [h.queue]

theorem evictParkedWorker_evicts (h : Base c (s, g)) : Evicts s (evictParkedWorker c s w) := by
  unfold evictParkedWorker
  split
  · rename_i hp
    have ha := h.places.parked_active w hp
    have hi : w ∉ s.idle := fun hi => ha (h.places.idle_active w hi)
    rw [retireWorker_parked ha hp]
    obtain ⟨retired, queue, draining, log, book, he, hq⟩ := trackRetiredWorker_halts (c := c) (s := s.dropWorker w) (w := w)
    rw [he]
    have hne : ∀ x, x ∉ s.parkedWorkers → x ≠ w := fun x hx he => hx (he ▸ hp)
    exact {
      active := setDelete_of_not_mem ha
      idle := setDelete_of_not_mem hi
      metadata := fun x hx => update_of_ne (hne x hx) _ _
      tainted := fun x hx => update_of_ne (hne x hx) _ _
      parked := fun x hx => (mem_setDelete.mp hx).1
      nextWorker := rfl
      queue := hq }
  · exact .refl s

theorem evictParkedWorker_moves (h : Base c (s, g)) : Moves c m (s, g) (evictParkedWorker c s w, g) := by
  unfold evictParkedWorker
  split
  · rename_i hp
    have h1 := dropParked (c := c) (m := m) s g w true hp
    rw [retireWorker_parked (h.places.parked_active w hp) hp]
    exact .trans (.single h1) (trackRetiredWorker_moves (h1.base h))
  · exact .refl

theorem evictOverflow_spec (n) (h : Base c (s, g)) : Moves c m (s, g) (evictOverflow c n s, g) ∧ Evicts s (evictOverflow c n s) := by
  induction n generalizing s with
  | zero => exact ⟨.refl, .refl s⟩
  | succ n ih =>
    unfold evictOverflow
    split
    · split
      · exact ⟨.refl, .refl s⟩
      · rename_i oldest rest _
        have hm := evictParkedWorker_moves (m := m) (w := oldest) h
        obtain ⟨hms, hes⟩ := ih (hm.base h)
        exact ⟨hm.trans hms, (evictParkedWorker_evicts h).trans hes⟩
    · exact ⟨.refl, .refl s⟩

theorem evictOverflow_length (n) (h : Base c (s, g)) (hn : s.parkedWorkers.length ≤ n) :
    (evictOverflow c n s).parkedWorkers.length ≤ c.maxExtraProjectWorkers := by
  have hmax : c.maxWorkers - c.maxConcurrentExecutions = c.maxExtraProjectWorkers := by
    unfold Config.maxWorkers
    omega
  induction n generalizing s with
  | zero =>
    unfold evictOverflow
    omega
  | succ n ih =>
    unfold evictOverflow
    rw [hmax]
    split
    · split
      · rename_i he
        rw [he]
        exact Nat.zero_le _
      · rename_i oldest rest he
        have hp : oldest ∈ s.parkedWorkers := he ▸ mem_cons_self
        have hm := evictParkedWorker_moves (m := {}) (w := oldest) h
        refine ih (hm.base h) ?_
        have hlen := length_setDelete h.places.parked_nodup hp
        have : (evictParkedWorker c s oldest).parkedWorkers = setDelete s.parkedWorkers oldest := by
          unfold evictParkedWorker
          rw [if_pos hp, retireWorker_parked (h.places.parked_active oldest hp) hp]
          obtain ⟨_, _, _, _, _, he, -⟩ := trackRetiredWorker_halts (c := c) (s := s.dropWorker oldest) (w := oldest)
          rw [he]
          rfl
        rw [this]
        dsimp only at hlen
        omega
    · omega

theorem assignWorkerProject_eq {md} (hm : s.metadata w = some md)
    (ha : md.projectRef = none ∨ md.projectRef = some p) : s.assignWorkerProject w p = (s.assignTo w p md, true) := by
  unfold assignWorkerProject
  rw [hm]
  dsimp only
  rw [if_neg (by rintro ⟨h1, h2⟩; exact ha.elim h1 h2)]
  rfl

def Pool.parkedState (s : Pool) (w : Worker) : Pool :=
  { s.clearSurplusTimer w with
    activeWorkers := setDelete s.activeWorkers w
    idle := setDelete s.idle w
    parkedWorkers := setAdd s.parkedWorkers w }

def CanPark (c : Config) (s : Pool) (g : Ghost) (w : Worker) : Prop :=
  s.draining = true ∨ s.admissionBlocked = true ∨ (g.calm = true ∧ g.loose = [w]) ∨
    ∃ p, s.queue.at p ≠ [] ∧ s.workerProjectRef w ≠ some p ∧ projectWithinFunctionCap c s p (some w) = true

theorem parkWorker_spec (h : Base c (s, g)) (hw : w ∈ g.loose) (hv : g.vacant = false) (hc : g.credit = none) (hq : CanPark c s g w) :
    Moves c m (s, g) (parkWorker c s w, { g with loose := g.loose.filter (· ≠ w), vacant := true, overflow := true }) ∧
      Evicts (s.parkedState w) (parkWorker c s w) := by
  have h1 : Move c m (s, g) (s.clearSurplusTimer w, g) := h.book _ ⟨rfl, fun _ h => h⟩
  have h2 := park (c := c) (m := m) (s.clearSurplusTimer w) g w hw hv hc hq
  have h3 := h2.base (h1.base h)
  have hmos := Relation.ReflTransGen.tail (.single h1) h2
  unfold parkWorker
  dsimp only
  split
  · exact ⟨hmos, .refl _⟩
  · split
    · exact ⟨hmos.trans (evictParkedWorker_moves h3), evictParkedWorker_evicts h3⟩
    · exact ⟨hmos.tail (h3.book _ ⟨rfl, fun _ h => h⟩), { Evicts.refl (s.parkedState w) with }⟩

structure Switched (c : Config) (m : Mode) (s : Pool) (g : Ghost) (w : Worker) (p : ProjectRef) (calm : Bool) (s' : Pool)
    (r : Worker) : Prop where
  moves : Moves c m (s, { g with loose := w :: g.loose, calm }) (s', { g with loose := r :: g.loose, calm })
  project : s'.workerProjectRef r = some p
  tainted : s'.tainted r = false
  active : ∀ x ∈ s'.activeWorkers, x ≠ r → x ∈ s.activeWorkers ∧ x ≠ w ∧ s'.metadata x = s.metadata x
  idle : s'.idle = setDelete s.idle w
  queue : s'.draining = true ∨ (s'.queue = s.queue ∧ s'.draining = s.draining)

theorem Base.filter_loose (h : Base c (s, g)) (hl : g.loose = w :: l) : (w :: l).filter (· ≠ w) = l := by
  have hco := (h.loose_owners (w := w) (hl ▸ mem_cons_self)).2
  rw [hl, count_cons_self] at hco
  have hw : w ∉ l := count_eq_zero.mp (by omega)
  rw [filter_cons_of_neg (by simp), filter_ne_of_not_mem hw]

theorem vacate_spec (hg : g.Rest) {transit} (h : Base c (s, { g with loose := w :: g.loose, calm, transit }))
    (hq : CanPark c s { g with loose := w :: g.loose, calm, transit } w) {s₁ s₂} (h₁ : parkWorker c s w = s₁)
    (h₂ : evictOverflow c s₁.parkedWorkers.length s₁ = s₂) :
    Moves c m (s, { g with loose := w :: g.loose, calm, transit }) (s₂, { g with vacant := true, calm, transit }) ∧
      Evicts (s.parkedState w) s₂ := by
  obtain ⟨hm1, he1⟩ := parkWorker_spec (m := m) h mem_cons_self hg.vacant hg.credit hq
  rw [h₁] at hm1 he1
  have hb1 := hm1.base h
  obtain ⟨hm2, he2⟩ := evictOverflow_spec (m := m) s₁.parkedWorkers.length hb1
  have hlen := evictOverflow_length s₁.parkedWorkers.length hb1 (Nat.le_refl _)
  rw [h₂] at hm2 he2 hlen
  have h3 := trim (c := c) (m := m) s₂
    { g with loose := (w :: g.loose).filter (· ≠ w), calm, transit, vacant := true, overflow := true } hlen
  have hgh : ({ g with loose := (w :: g.loose).filter (· ≠ w), calm, transit, vacant := true, overflow := false } :
      Ghost) = { g with vacant := true, calm, transit } := by
    rw [h.filter_loose rfl, ← hg.overflow]
  exact ⟨(hm1.trans hm2).tail (hgh ▸ h3), he1.trans he2⟩

theorem cachedWorker_some (h : s.cachedWorker p = some r) : r ∈ s.parkedWorkers ∧ s.workerProjectRef r = some p ∧
      (s.metadata r).map (·.generation) = some s.workerGeneration ∧ s.tainted r = false := by
  have hp := find?_some h
  simp only [Bool.and_eq_true, beq_iff_eq, Bool.not_eq_true'] at hp
  exact ⟨mem_of_find?_eq_some h, hp.1.1, hp.1.2, hp.2⟩

theorem workerProjectRef_eq_some : s.workerProjectRef w = some p ↔ ∃ md, s.metadata w = some md ∧ md.projectRef = some p := by
  simp [workerProjectRef, Option.bind_eq_some_iff]

section

variable (hg : g.Rest) (h : Base c (s, { g with loose := w :: g.loose, calm })) (hq : CanPark c s { g with loose := w :: g.loose, calm } w)

include hg h hq

theorem switchProjectSlot_cached (hr : s.cachedWorker p = some r) :
    ∃ s', switchProjectSlot c s w p = (s', some r) ∧ Switched c m s g w p calm s' r := by
  obtain ⟨hp, hpr, hgen, hta⟩ := cachedWorker_some hr
  obtain ⟨md, hmd, hpd⟩ := workerProjectRef_eq_some.mp hpr
  have hwa : w ∈ s.activeWorkers := h.places.loose_active w mem_cons_self
  have hra : r ∉ s.activeWorkers := h.places.parked_active r hp
  have hne : r ≠ w := fun he => hra (he ▸ hwa)
  have h1 := unpark (c := c) (m := m) s { g with loose := w :: g.loose, calm } r hp hg.transit hgen hta
  have h2 := (h1.base h).book (m := m) { s.book with parkedTimer := update s.book.parkedTimer r false } ⟨rfl, fun _ h => h⟩
  have hb2 := h2.base (h1.base h)
  obtain ⟨hm3, he3⟩ := vacate_spec (m := m) (s := s.unparkWorker r) hg hb2 hq rfl rfl
  generalize hs3 : evictOverflow c (parkWorker c (s.unparkWorker r) w).parkedWorkers.length
    (parkWorker c (s.unparkWorker r) w) = s₃ at hm3 he3
  have hb3 := hm3.base hb2
  have hout : r ∉ ((s.unparkWorker r).parkedState w).parkedWorkers := by
    simp [parkedState, unparkWorker, hne]
  have hmd3 : s₃.metadata r = some md := (he3.metadata r hout).trans hmd
  have h4 := assign (c := c) (m := m) s₃ { g with vacant := true, calm, transit := some r } r p md hmd3 (.inr hpd)
    (.inr (.inl rfl)) (.inl hg.credit)
  have h5 := activate (c := c) (m := m) (s₃.assignTo r p md)
    { g with vacant := true, calm, transit := some r, credit := none } r rfl rfl
  have hgh : ({ g with vacant := false, calm, transit := none, credit := none, loose := r :: g.loose } : Ghost) =
      { g with loose := r :: g.loose, calm } := by
    rw [← hg.vacant, ← hg.transit, ← hg.credit]
  refine ⟨{ s₃.assignTo r p md with activeWorkers := setAdd s₃.activeWorkers r }, ?_, ?_⟩
  · simp only [switchProjectSlot, hr, hs3, assignWorkerProject_eq hmd3 (.inr hpd)]
    rfl
  · exact {
      moves := ((((Relation.ReflTransGen.single h1).tail h2).trans hm3).tail h4).tail (hgh ▸ h5)
      project := by simp [workerProjectRef, assignTo, record]
      tainted := (he3.tainted r hout).trans hta
      active := fun x hx hxr => by
        have hx : x ∈ s₃.activeWorkers := (mem_setAdd.mp hx).resolve_right hxr
        rw [he3.active] at hx
        have hxw := mem_setDelete.mp hx
        refine ⟨hxw.1, hxw.2, ?_⟩
        refine (update_of_ne hxr _ _).trans (he3.metadata x ?_)
        simp only [parkedState, unparkWorker, mem_setAdd, mem_setDelete, not_or, not_and]
        exact ⟨fun hpx => absurd hxw.1 (h.places.parked_active x hpx), hxw.2⟩
      idle := he3.idle
      queue := he3.queue }

theorem switchProjectSlot_created (hr : s.cachedWorker p = none) :
    ∃ s', switchProjectSlot c s w p = (s', some s.nextWorker) ∧ Switched c m s g w p calm s' s.nextWorker := by
  have hgh₀ : ({ g with loose := w :: g.loose, calm, transit := none } : Ghost) = { g with loose := w :: g.loose, calm } := by
    rw [← hg.transit]
  obtain ⟨hm3, he3⟩ := vacate_spec (m := m) hg (hgh₀ ▸ h) (hgh₀ ▸ hq) rfl rfl
  rw [hgh₀] at hm3
  generalize hs3 : evictOverflow c (parkWorker c s w).parkedWorkers.length (parkWorker c s w) = s₃ at hm3 he3
  have hb3 := hm3.base h
  obtain ⟨b, hb, hctl⟩ := recordWorkerReplacement_eq (c := c) (s := s₃)
  have h4 := hb3.book (m := m) b hctl
  have hb4 := h4.base hb3
  have h5 := create (c := c) (m := m) { s₃ with book := b } { g with vacant := true, calm, transit := none } (.inl rfl) rfl
  let s₄ : Pool := { ({ s₃ with book := b }).createWorker.1 with activeWorkers := setAdd s₃.activeWorkers s₃.nextWorker }
  have hmd : s₄.metadata s₃.nextWorker = some { generation := s₃.workerGeneration } := update_self _ _ _
  have h6 := assign (c := c) (m := m) s₄
    { g with vacant := false, calm, transit := none, loose := s₃.nextWorker :: g.loose } s₃.nextWorker p
    { generation := s₃.workerGeneration } hmd (.inl rfl) (.inl mem_cons_self) (.inl hg.credit)
  have hgh : ({ g with vacant := false, calm, transit := none, credit := none, loose := s₃.nextWorker :: g.loose } :
      Ghost) = { g with loose := s₃.nextWorker :: g.loose, calm } := by
    rw [← hg.vacant, ← hg.transit, ← hg.credit]
  have hnx : s₃.nextWorker = s.nextWorker := he3.nextWorker
  refine ⟨s₄.assignTo s₃.nextWorker p { generation := s₃.workerGeneration }, ?_, ?_⟩
  · simp only [switchProjectSlot, hr, hs3, hb]
    rw [← hnx]
    have ha := assignWorkerProject_eq (s := ({ s₃ with book := b }).createWorker.1) (p := p) hmd (.inl rfl)
    have hw : ({ s₃ with book := b }).createWorker.2 = s₃.nextWorker := rfl
    rw [hw, ha]
    rfl
  · rw [← hnx]
    exact {
      moves := (((hm3.tail h4).tail h5).tail (hgh ▸ h6))
      project := by simp [workerProjectRef, assignTo, record]
      tainted := hb3.new_untainted
      active := fun x hx hxr => by
        have hx : x ∈ s₃.activeWorkers := (mem_setAdd.mp hx).resolve_right hxr
        rw [he3.active] at hx
        have hxw := mem_setDelete.mp hx
        refine ⟨hxw.1, hxw.2, ?_⟩
        refine (update_of_ne hxr _ _).trans ((update_of_ne hxr _ _).trans (he3.metadata x ?_))
        simp only [parkedState, mem_setAdd, not_or]
        exact ⟨fun hpx => absurd hxw.1 (h.places.parked_active x hpx), hxw.2⟩
      idle := he3.idle
      queue := he3.queue }

theorem switchProjectSlot_spec : ∃ s' r, switchProjectSlot c s w p = (s', some r) ∧ Switched c m s g w p calm s' r := by
  cases hr : s.cachedWorker p with
  | some r =>
    obtain ⟨s', he, hs⟩ := switchProjectSlot_cached (m := m) hg h hq hr
    exact ⟨s', r, he, hs⟩
  | none =>
    obtain ⟨s', he, hs⟩ := switchProjectSlot_created (m := m) hg h hq hr
    exact ⟨s', s.nextWorker, he, hs⟩

end

end Supacloud.EdgeRuntime
