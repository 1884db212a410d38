import Supacloud.EdgeRuntime.Lemmas.Preheats

/-!
# 一括の予熱の手番

空いた実行者を取り、関数を順に予熱し、最後に手放すまでを、一手の列に分ける。
-/

namespace Supacloud.EdgeRuntime

open Library Pool Move List

variable {c : Config} {m : Mode} {s s' : Pool} {w : Worker} {p : ProjectRef} {b : Bulk} {f : String} {r : BulkRequest}
  {ws : List Worker} {x : Option Bulk}

/-! ## 実行者を取る -/

theorem setDelete_setDelete {l} : setDelete (setDelete l w) w = setDelete l w :=
  setDelete_of_not_mem (by simp)

theorem switchProjectSlot_idle : switchProjectSlot c { s with idle := setDelete s.idle w } w p = switchProjectSlot c s w p := by
  have hpa : ∀ s, parkWorker c { s with idle := setDelete s.idle w } w = parkWorker c s w := by
    intro s
    simp only [parkWorker, clearSurplusTimer, setDelete_setDelete]
    rfl
  unfold switchProjectSlot
  have hca : ({ s with idle := setDelete s.idle w }).cachedWorker p = s.cachedWorker p := rfl
  rw [hca]
  cases s.cachedWorker p with
  | none =>
    dsimp only
    rw [hpa s]
  | some r =>
    have hu : ({ s with idle := setDelete s.idle w }).unparkWorker r =
        { s.unparkWorker r with idle := setDelete (s.unparkWorker r).idle w } := rfl
    dsimp only
    rw [hu, hpa (s.unparkWorker r)]

theorem replaceMismatchedIdleWorkers_moves (hn : ws.Nodup) (h : Base c (s, {}))
    (hws : ∀ w ∈ ws, w ∈ s.idle) : Moves c m (s, {}) (replaceMismatchedIdleWorkers c p ws s, {}) := by
  induction ws generalizing s with
  | nil => exact .refl
  | cons w rest ih =>
    rw [nodup_cons] at hn
    have hw := hws w mem_cons_self
    have h1 := takeIdle (c := c) (m := m) s {} w true hw fun _ => ⟨rfl, rfl, nofun⟩
    have hb1 := h1.base h
    obtain ⟨s₁, r, he, hs⟩ := switchProjectSlot_spec (m := m) (p := p) (s := { s with idle := setDelete s.idle w })
      (g := {}) Ghost.rest_empty hb1 (.inr (.inr (.inl ⟨rfl, rfl⟩)))
    have hb2 := hs.moves.base hb1
    have h3 := putIdle_turn (m := m) (g := {}) Ghost.rest_empty hb2
      (.inr (.inr (.inl ⟨rfl, rfl⟩)))
    rw [switchProjectSlot_idle] at he
    unfold replaceMismatchedIdleWorkers
    rw [he]
    refine .trans (.trans (.trans (.single h1) hs.moves) h3) (ih hn.2 (h3.base hb2) fun x hx => ?_)
    have hne : x ≠ w := fun he => hn.1 (he ▸ hx)
    refine mem_append_left _ ?_
    rw [hs.idle]
    exact mem_setDelete.mpr ⟨mem_setDelete.mpr ⟨hws x (mem_cons_of_mem _ hx), hne⟩, hne⟩

theorem replaceMismatchedIdleWorkers_still : Still s (replaceMismatchedIdleWorkers c p ws s) := by
  induction ws generalizing s with
  | nil => exact .refl s
  | cons w rest ih =>
    have h := switchProjectSlot_still (c := c) (s := s) (w := w) (p := p)
    unfold replaceMismatchedIdleWorkers
    split
    · rename_i he
      rw [he] at h
      exact h
    · rename_i he
      rw [he] at h
      exact ih.after { h with }

theorem takeIdles_moves {l} (hn : ws.Nodup) (h : Base c (s, { loose := l }))
    (hws : ∀ w ∈ ws, w ∈ s.idle) :
    Moves c m (s, { loose := l }) ({ s with idle := s.idle.filter fun w => w ∉ ws }, { loose := ws.reverse ++ l }) := by
  induction ws generalizing s l with
  | nil =>
    have : s.idle.filter (fun w => w ∉ ([] : List Worker)) = s.idle := filter_eq_self.mpr (by simp)
    rw [this]
    exact .refl
  | cons w rest ih =>
    rw [nodup_cons] at hn
    have h1 := takeIdle (c := c) (m := m) s { loose := l } w false (hws w mem_cons_self) nofun
    have h2 := ih (s := { s with idle := setDelete s.idle w }) (l := w :: l) hn.2 (h1.base h) fun x hx =>
      mem_setDelete.mpr ⟨hws x (mem_cons_of_mem _ hx), fun he => hn.1 (he ▸ hx)⟩
    have hidl : (setDelete s.idle w).filter (fun x => x ∉ rest) = s.idle.filter fun x => x ∉ w :: rest := by
      unfold setDelete
      rw [filter_filter]
      refine filter_congr fun x _ => ?_
      by_cases hx : x = w <;> simp [hx]
    dsimp only at h2
    rw [hidl] at h2
    rw [reverse_cons, append_assoc]
    exact .trans (.single h1) h2

structure Taken (c : Config) (m : Mode) (s : Pool) (p : ProjectRef) (ws : List Worker) (s' : Pool) : Prop where
  moves : Moves c m (s, {}) (s', { loose := ws.reverse })
  still : Still s s'
  accepts : ∀ w ∈ ws, s'.workerAcceptsProject w p = true

theorem takeIdleWorkersForProject_taken (h : Base c (s, {})) {maxWorkers : Nat}
    (he : takeIdleWorkersForProject c s p maxWorkers = (ws, s')) : Taken c m s p ws s' := by
  unfold takeIdleWorkersForProject at he
  dsimp only at he
  generalize hmis : (s.idle.filter fun w => !s.workerAcceptsProject w p).take (s.requestedPreheatWorkers maxWorkers -
    (s.idle.filter fun w => s.workerAcceptsProject w p && !s.tainted w).length) = mis at he
  have hsub : mis.Sublist s.idle := by
    rw [← hmis]
    exact (take_sublist _ _).trans filter_sublist
  have h1 := replaceMismatchedIdleWorkers_moves (m := m) (p := p) (h.idle_nodup.sublist hsub) h fun w hw => hsub.subset hw
  have hb1 := h1.base h
  have hs1 : Still s (replaceMismatchedIdleWorkers c p mis s) := replaceMismatchedIdleWorkers_still
  generalize replaceMismatchedIdleWorkers c p mis s = s₁ at he h1 hb1 hs1
  have hws : (s₁.idle.filter fun w => s₁.workerAcceptsProject w p && !s₁.tainted w).take
      (s.requestedPreheatWorkers maxWorkers) = ws := congrArg Prod.fst he
  have hs' : { s₁ with idle := s₁.idle.filter fun w => w ∉ ws } = s' := by
    rw [← hws]
    exact congrArg Prod.snd he
  have hsu2 : ws.Sublist (s₁.idle.filter fun w => s₁.workerAcceptsProject w p && !s₁.tainted w) := by
    rw [← hws]
    exact take_sublist _ _
  have h2 := takeIdles_moves (m := m) (l := []) (hb1.idle_nodup.sublist (hsu2.trans filter_sublist)) hb1 fun w hw =>
    (hsu2.trans filter_sublist).subset hw
  rw [append_nil, hs'] at h2
  subst hs'
  exact {
    moves := h1.trans h2
    still := { hs1 with }
    accepts := fun w hw => by
      have := (mem_filter.mp (hsu2.subset hw)).2
      rw [Bool.and_eq_true] at this
      exact this.1 }

/-! ## 関数一つを始める -/

theorem assignWorkerProject_bulk : ({ s with bulk := x }).assignWorkerProject w p =
      ({ (s.assignWorkerProject w p).1 with bulk := x }, (s.assignWorkerProject w p).2) := by
  unfold assignWorkerProject
  cases s.metadata w with
  | none => rfl
  | some md =>
    dsimp only
    split <;> rfl

theorem preheatWorker_bulk {heap} : ({ s with bulk := x }).preheatWorker w p f heap .bulk =
      ({ (s.preheatWorker w p f heap .bulk).1 with bulk := x }, (s.preheatWorker w p f heap .bulk).2) := by
  unfold preheatWorker
  rw [assignWorkerProject_bulk]
  obtain ⟨s₁, ok⟩ := s.assignWorkerProject w p
  cases ok <;> rfl

theorem preheatWorkers_bulk :
    preheatWorkers r f ws { s with bulk := x } = ({ (preheatWorkers r f ws s).1 with bulk := x }, (preheatWorkers r f ws s).2) := by
  induction ws generalizing s with
  | nil => rfl
  | cons w rest ih =>
    unfold preheatWorkers
    rw [preheatWorker_bulk]
    dsimp only
    rw [ih]

theorem preheatWorker_moves (h : Base c (s, {})) (hb : s.bulk = some b) (hw : w ∈ reserved s.bulk) (hp : b.phase = .running)
    (ht : m.tidy = true → s.metadata w ≠ none) {heap t} (he : s.preheatWorker w b.request.projectRef f heap .bulk = t) :
    Moves c m (s, {}) (t.1, {}) ∧ t.1.bulk = s.bulk ∧ (∀ x, s.metadata x ≠ none → t.1.metadata x ≠ none) ∧
      (t.2 = false → m.tidy = false) := by
  subst he
  unfold preheatWorker
  cases hmd : s.metadata w with
  | none =>
    have hti : m.tidy = false := by
      by_contra hne
      exact ht (by simpa using hne) hmd
    have ha : s.assignWorkerProject w b.request.projectRef = (s.record (.threw w .missingMetadata), false) := by
      simp [assignWorkerProject, hmd]
    rw [ha]
    exact ⟨.single (.threw s {} w hw hmd hti), rfl, fun _ hx => hx, fun _ => hti⟩
  | some md =>
    have hacc := workerAcceptsProject_true hmd (h.accepts b hb w hw)
    rw [assignWorkerProject_eq hmd hacc]
    have h1 := assign (c := c) (m := m) s {} w b.request.projectRef md hmd hacc
      (.inr (.inr ⟨hw, fun b' hb' => by rw [hb] at hb'; cases hb'; rfl⟩)) (.inl rfl)
    have h2 := preheatStart (c := c) (m := m) (s.assignTo w b.request.projectRef md) {}
      { id := s.nextPreheat, worker := w, projectRef := b.request.projectRef, functionId := f, maxHeapBytes := heap,
        owner := .bulk, phase := .preparing }
      rfl rfl (by simp [workerProjectRef, assignTo, record])
      (.inr ⟨rfl, hw, fun b' hb' => by
        have hb' : s.bulk = some b' := hb'
        rw [hb] at hb'
        cases hb'
        exact hp⟩)
    refine ⟨.tail (.single h1) h2, rfl, fun x hx => ?_, fun hf => by cases hf⟩
    by_cases hxw : x = w
    · simp [assignTo, record, hxw]
    · simpa [assignTo, record, hxw] using hx

theorem preheatWorkers_moves (ws) (h : Base c (s, {})) (hb : s.bulk = some b)
    (hws : ∀ w ∈ ws, w ∈ reserved s.bulk) (hp : b.phase = .running) (ht : m.tidy = true → ∀ w ∈ ws, s.metadata w ≠ none) :
    Moves c m (s, {}) ((preheatWorkers b.request f ws s).1, {}) ∧ (preheatWorkers b.request f ws s).1.bulk = s.bulk ∧
      ((preheatWorkers b.request f ws s).2 = false → m.tidy = false) := by
  induction ws generalizing s with
  | nil => exact ⟨.refl, rfl, nofun⟩
  | cons w rest ih =>
    obtain ⟨h1, hb1, hm1, hf1⟩ := preheatWorker_moves (m := m) (f := f) h hb
      (hws w mem_cons_self) hp (fun hti => ht hti w mem_cons_self) rfl
    obtain ⟨h2, hb2, hf2⟩ := ih (h1.base h) (hb1.trans hb) (fun x hx => hb1 ▸ hws x (mem_cons_of_mem _ hx))
      fun hti x hx => hm1 x (ht hti x (mem_cons_of_mem _ hx))
    unfold preheatWorkers
    dsimp only
    refine ⟨h1.trans h2, hb2.trans hb1, fun hok => ?_⟩
    rw [Bool.and_eq_false_iff] at hok
    exact hok.elim hf1 hf2

theorem held_orphan (js) : held (js.map fun j => if j.owner = .bulk then { j with owner := .orphan } else j) = held js := by
  unfold held
  induction js with
  | nil => rfl
  | cons j js ih => grind

theorem startMember_moves {remaining} (h : Base c ({ s with bulk := some { b with remaining, phase := .running } }, {}))
    (ht : m.tidy = true → ∀ w ∈ b.workers, s.metadata w ≠ none) :
    Moves c m ({ s with bulk := some { b with remaining, phase := .running } }, {}) (startMember s b f remaining, {}) := by
  have hres : reserved (some { b with remaining, phase := .running }) = b.workers := by simp [reserved]
  obtain ⟨h1, hb1, hf1⟩ := preheatWorkers_moves (m := m) (f := f) (b := { b with remaining, phase := .running })
    b.workers h rfl (fun w hw => hres ▸ hw) rfl ht
  rw [preheatWorkers_bulk] at h1 hb1 hf1
  dsimp only at h1 hf1
  have hba := h1.base h
  unfold startMember
  generalize preheatWorkers b.request f b.workers s = t at h1 hb1 hf1 hba
  obtain ⟨s₁, ok⟩ := t
  cases ok with
  | true => exact h1
  | false =>
    dsimp only at h1 hba hf1 ⊢
    have hti := hf1 rfl
    have h2 := jobs (c := c) (m := m) { s₁ with bulk := some { b with remaining, phase := .running } } {}
      (s₁.preheats.map fun j => if j.owner = .bulk then { j with owner := .orphan } else j) (held_orphan _) (fun j hj => by
        obtain ⟨i, hi, rfl⟩ := mem_map.mp hj
        refine ⟨i, hi, ?_⟩
        split
        · exact ⟨rfl, rfl, .inr ⟨hti, rfl⟩⟩
        · exact ⟨rfl, rfl, .inl rfl⟩) (by
        rw [map_map]
        have : s₁.preheats.map ((fun j => j.id) ∘ fun j => if j.owner = .bulk then { j with owner := .orphan } else j) =
            s₁.preheats.map (·.id) := by
          refine map_congr_left fun j _ => ?_
          by_cases ho : j.owner = .bulk <;> simp [ho]
        rw [this])
    have hno : ∀ j ∈ s₁.preheats.map (fun j => if j.owner = .bulk then { j with owner := .orphan } else j), j.owner ≠ .bulk := by
      intro j hj
      obtain ⟨i, hi, rfl⟩ := mem_map.mp hj
      split
      · exact PreheatOwner.noConfusion
      · assumption
    have h3 := bulkUpdate (c := c) (m := m) { s₁ with
      bulk := some { b with remaining, phase := .running }
      preheats := s₁.preheats.map fun j => if j.owner = .bulk then { j with owner := .orphan } else j } {}
      (some { b with remaining, phase := .rejected }) (by simp [reserved]) (fun _ _ _ => hno) (fun x hx w hw => by
        cases hx
        exact hba.accepts _ rfl w (by simpa [reserved] using hw))
    exact (h1.tail h2).tail h3

/-! ## 始まりと終わり -/

theorem Base.no_bulk_jobs {g} (h : Base c (s, g)) (hr : reserved s.bulk = []) : ∀ j ∈ s.preheats, j.owner ≠ .bulk := by
  intro j hj ho
  have := h.jobs.reserved_worker j hj ho
  simp [hr] at this

theorem idleBulk_move (hr : reserved s.bulk = []) (hx : reserved x = [])
    (hj : ∀ j ∈ s.preheats, j.owner ≠ .bulk) : Move c m (s, {}) ({ s with bulk := x }, {}) :=
  .bulkUpdate s {} x (hx.trans hr.symm) (fun _ _ _ => hj) fun _ _ w hw => by simp [hx] at hw

section

variable (h : Base c (s, {})) (hr : reserved s.bulk = []) (hm : r.members ≠ [])

include h hr hm

theorem takeAndStart_moves : Moves c m (s, {}) (takeAndStart c s r, {}) := by
  unfold takeAndStart
  cases hta : takeIdleWorkersForProject c s r.projectRef r.maxWorkers with
  | mk ws s₁ =>
    have ht := takeIdleWorkersForProject_taken (m := m) h hta
    have hb1 := ht.moves.base h
    have hr1 : reserved s₁.bulk = [] := (congrArg reserved ht.still.bulk).trans hr
    dsimp only
    cases ws with
    | nil => exact ht.moves.tail (idleBulk_move hr1 rfl (hb1.no_bulk_jobs hr1))
    | cons w ws =>
      cases hmem : r.members with
      | nil => exact absurd hmem hm
      | cons f rest =>
        dsimp only
        have h2 := bulkTake (c := c) (m := m) s₁ { loose := (w :: ws).reverse }
          { request := r, remaining := rest, workers := w :: ws, phase := .running } hr1
          (reverse_perm _).symm (hb1.no_bulk_jobs hr1) rfl ht.accepts
        have h3 := startMember_moves (m := m) (s := s₁) (f := f)
          (b := { BulkRequest.settled r with workers := w :: ws }) (h2.base hb1) fun _ x hx =>
            hb1.places.active_known (hb1.places.loose_active x (mem_reverse.mpr hx))
        exact (ht.moves.tail h2).trans h3

theorem startBulk_moves : Moves c m (s, {}) (startBulk c s r, {}) := by
  unfold startBulk
  split
  · exact .single (idleBulk_move hr rfl (h.no_bulk_jobs hr))
  · split
    · exact takeAndStart_moves h hr hm
    · have h1 := rotateGeneration_moves (m := m) h
      have hbulk : (rotateGeneration c s).bulk = s.bulk :=
        (rotate_still (c := c) (s := { s with workerGeneration := s.workerGeneration + 1 }) _).bulk
      exact h1.trans (takeAndStart_moves (h1.base h) ((congrArg reserved hbulk).trans hr) hm)

end

theorem recycleBulkPreheatWorkers_moves {q} (h : Base c (s, { loose := ws.filter q }))
    (hgo : ∀ w ∈ ws, q w = false → Gone s w) :
    Moves c m (s, { loose := ws.filter q }) (recycleBulkPreheatWorkers c ws s, {}) := by
  induction ws generalizing s with
  | nil => exact .refl
  | cons w rest ih =>
    unfold recycleBulkPreheatWorkers
    cases hq : q w with
    | true =>
      rw [filter_cons_of_pos hq] at h ⊢
      have hw : w ∈ s.activeWorkers := h.places.loose_active w mem_cons_self
      rw [if_pos hw]
      have hre : ({ loose := rest.filter q } : Ghost).Rest := ⟨rfl, rfl, rfl, rfl, rfl⟩
      have htu := recycle_turn (m := m) (w := w) hre h nofun (by rw [if_pos hw])
      have h1 := finishTurn_moves hre h htu
      exact h1.trans (ih (h1.base h) fun x hx hqx => h1.gone (hgo x (mem_cons_of_mem _ hx) hqx))
    | false => grind [h.not_active_of_gone]

section

variable (h : Base c (s, {})) (hb : s.bulk = some b)

include h hb

theorem settleBulk_moves (hp : b.phase ≠ .settled)
    (hj : ∀ j ∈ s.preheats, j.owner ≠ .bulk) : Moves c m (s, {}) (settleBulk c s b, {}) := by
  have hres : reserved s.bulk = b.workers := by simp [reserved, hb, hp]
  have h1 := bulkRelease (c := c) (m := m) s {} (some { b with phase := .settled }) (by simp [reserved]) hj rfl
  have hb1 := h1.base h
  unfold settleBulk
  dsimp only
  split
  · rename_i hd
    rw [if_pos hd] at h1
    exact .single h1
  · rename_i hd
    rw [if_neg hd, hres] at h1 hb1
    refine .trans (.single h1) (recycleBulkPreheatWorkers_moves hb1 fun w hw hna => ?_)
    have hco : 0 < (reserved s.bulk).count w := count_pos_iff.mpr (hres ▸ hw)
    have hna : w ∉ s.activeWorkers := by simpa using hna
    refine ⟨?_, h.owned.lt w (by simp only [owners]; omega)⟩
    by_contra hne
    have := h.owned.outside w hne hna
    simp only [owners] at this
    omega

theorem onBulkSettled_moves (ht : m.tidy = true → s.startsNext b = true → ∀ w ∈ b.workers, s.metadata w ≠ none) :
    Moves c m (s, {}) (onBulkSettled c s b, {}) := by
  unfold onBulkSettled
  split
  · exact .refl
  · rename_i hp
    exact settleBulk_moves h hb (by simp [hp]) (h.jobs.rejected b hb hp)
  · rename_i hp
    dsimp only
    split
    · exact .refl
    · have hno : ∀ j ∈ s.preheats.filter (fun j => j.owner ≠ .bulk), j.owner ≠ .bulk := fun j hj => by
        simpa using (mem_filter.mp hj).2
      have h1 := jobs (c := c) (m := m) s {} (s.preheats.filter fun j => j.owner ≠ .bulk) (by
        unfold held
        rw [filter_filter]
        refine congrArg _ (filter_congr fun j _ => ?_)
        cases ho : j.owner <;> simp) (fun j hj => ⟨j, mem_of_mem_filter hj, rfl, rfl, .inl rfl⟩)
        (filter_sublist.map _)
      have hb1 := h1.base h
      split
      · rename_i m' rest hki hdo hrem
        have hnx : s.startsNext b = true := by grind [startsNext]
        have h2 := bulkUpdate (c := c) (m := m) { s with preheats := s.preheats.filter fun j => j.owner ≠ .bulk } {}
          (some { b with remaining := rest, phase := .running }) (by simp [reserved, hb, hp])
          (fun _ _ _ => hno) (fun x hx w hw => by
            cases hx
            exact h.accepts b hb w (by simpa [reserved, hb, hp] using hw))
        exact ((Relation.ReflTransGen.single h1).tail h2).trans (startMember_moves (h2.base hb1) fun hti =>
          ht hti hnx)
      · exact .trans (.single h1) (settleBulk_moves hb1 hb (by simp [hp]) hno)

theorem onBulkNext_moves : Moves c m (s, {}) (onBulkNext c s b, {}) := by
  unfold onBulkNext
  split
  · rename_i hp hw
    have hr : reserved s.bulk = [] := by simp [reserved, hb, hp]
    exact .single (idleBulk_move hr rfl (h.no_bulk_jobs hr))
  · rename_i r rest hp hw
    have hr : reserved s.bulk = [] := by simp [reserved, hb, hp]
    have h1 : Move c m (s, {}) ({ s with bulkWaiting := rest }, {}) :=
      .aux s {} s.book s.admissionRecovering rest h.below (fun x hx => .inl (hw ▸ mem_cons_of_mem _ hx)) fun _ => .inl
    have hm : r.members ≠ [] := h.jobs.members r (hw ▸ mem_cons_self)
    exact .trans (.single h1) (startBulk_moves (h1.base h) hr hm)
  · exact .refl

end

theorem enqueueBulkPreheat_moves (h : Base c (s, {})) : Moves c m (s, {}) (enqueueBulkPreheat c s r, {}) := by
  unfold enqueueBulkPreheat
  split
  · exact .refl
  · rename_i hv
    have hm : r.members ≠ [] := by grind [BulkRequest.valid]
    split
    · rename_i hb
      exact startBulk_moves h (by simp [reserved, hb]) hm
    · refine .single (.aux s {} s.book s.admissionRecovering (s.bulkWaiting ++ [r]) h.below (fun x hx => ?_) fun _ => .inl)
      rcases mem_append.mp hx with hx | hx
      · exact .inl hx
      · rw [mem_singleton] at hx
        exact .inr (hx ▸ hm)

end Supacloud.EdgeRuntime
