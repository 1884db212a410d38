import Supacloud.ProjectMutations.Lemmas.Soundness

/-!
# 一歩で変わる行
-/

namespace Supacloud.ProjectMutations

open Library Journal List Option

variable {w : World} {row row' : StoredProjectMutationRow} {key : MutationKey} {call : Nat}

namespace World

/-! ## 行の最も新しい姿 -/

theorem Sound.current_locked (h : w.Sound) {x} (hx : x ∈ w.executions) (hkey : x.lease.key = key) : w.current key = some x.draft := by
  rw [current]
  cases hfi : w.executions.find? fun y => y.lease.key = key with
  | none =>
    rw [find?_eq_none] at hfi
    exact absurd (by simpa using hkey) (hfi x hx)
  | some y =>
    have hyk : y.lease.key = key := by simpa using find?_some hfi
    have heq : y = x := eq_of_key h.exclusive (mem_of_find?_eq_some hfi) hx (hyk.trans hkey.symm)
    rw [heq]

theorem current_free (hfr : w.locked key = false) : w.current key = w.rows.find key := by
  rw [current]
  cases hfi : w.executions.find? fun y => y.lease.key = key with
  | none => rfl
  | some y => exact absurd (by simpa using find?_some hfi) (not_locked.mp hfr y (mem_of_find?_eq_some hfi))

section

variable (h : w.Sound)

include h

theorem find_of_mem (hrow : row ∈ w.rows) : w.rows.find row.key = some row := by
  cases hfi : w.rows.find row.key with
  | none => exact absurd rfl (find_none.mp hfi row hrow)
  | some row' => rw [eq_of_key h.keys (find_mem hfi) hrow (find_key hfi)]

theorem Sound.current_update {p} (w' : World) {f} (hro : w'.rows = update p f w.rows) (hexe : w'.executions = w.executions)
    (hf : ∀ row, p row = true → (f row).key = row.key) (hrow : w.current key = some row)
    (hro' : w'.current key = some row') : row' = row ∨ (row ∈ w.rows ∧ p row = true ∧ row' = f row) := by
  have hlo : w'.locked key = w.locked key := by rw [locked, locked, hexe]
  cases hl : w.locked key with
  | true =>
    obtain ⟨x, hx, hkey⟩ := locked_iff.mp hl
    rw [h.current_locked hx hkey] at hrow
    have hsa : w'.current key = w.current key := by grind [current]
    rw [hsa, h.current_locked hx hkey, hrow] at hro'
    exact .inl (some.inj hro').symm
  | false =>
    rw [current_free hl] at hrow
    rw [current_free (hlo.trans hl), find, hro, find?_update (fun a ha => by rw [hf a ha])] at hro'
    rw [find] at hrow
    rw [hrow, map_some, some.injEq] at hro'
    by_cases hp : p row = true
    · rw [if_pos hp] at hro'
      exact .inr ⟨mem_of_find?_eq_some hrow, hp, hro'.symm⟩
    · rw [if_neg hp] at hro'
      exact .inl hro'.symm

variable {lease : MutationLeaseInput}

theorem Sound.current_enter (hfr : w.locked lease.key = false) (hrow : w.current key = some row) : (w.enter lease).current key = some row := by
  rw [World.enter]
  cases hfi : w.rows.find? (lease.holds w.now) with
  | none => exact hrow
  | some found =>
    have hfoK := (holds_iff.mp (find?_some hfi)).1
    by_cases hkey : lease.key = key
    · subst hkey
      rw [current_free hfr] at hrow
      have heq : found = row := by grind [h.keys, eq_of_key, find_mem, find_key]
      simp [current, heq]
    · rw [current] at hrow ⊢
      simpa [hkey] using hrow

theorem Sound.current_drop (call) (hrow : w.current key = some row) :
    (w.drop call).current key = some row ∨ ∃ x, w.execution call = some x ∧ x.lease.key = key ∧ row = x.draft := by
  cases hl : w.locked key with
  | true =>
    obtain ⟨x, hx, hkey⟩ := locked_iff.mp hl
    rw [h.current_locked hx hkey, some.injEq] at hrow
    by_cases hca : x.call = call
    · right
      refine ⟨x, ?_, hkey, hrow.symm⟩
      rw [execution]
      cases hfi : w.executions.find? fun y => y.call = call with
      | none =>
        rw [find?_eq_none] at hfi
        exact absurd (by simpa using hca) (hfi x hx)
      | some y => grind [h.calls, eq_of_key]
    · left
      rw [(h.drop call).current_locked (mem_filter.mpr ⟨hx, by simpa using hca⟩) hkey, hrow]
  | false =>
    left
    have hfr : (w.drop call).locked key = false := by
      rw [not_locked] at hl ⊢
      exact fun x hx => hl x (mem_filter.mp hx).1
    rw [current_free hl] at hrow
    rw [current_free hfr]
    exact hrow

theorem Sound.current_leave (call) (hrow : w.current key = some row) : (w.leave call).current key = some row := by
  rw [World.leave]
  cases hx : w.execution call with
  | none => exact hrow
  | some x =>
    have hmem := (execution_mem hx).1
    obtain ⟨committed, hco, hkey, -, -, -, hdr⟩ := h.executing x hmem
    have hqu : ∀ a : StoredProjectMutationRow, decide (a.key = x.lease.key) = true →
        decide (x.draft.key = key) = decide (a.key = key) := by
      intro a ha
      have ha : a.key = x.lease.key := by simpa using ha
      simp [hdr.key, hkey, ha]
    by_cases hxk : x.lease.key = key
    · -- 手放した錠の行は、取引から見えていた姿になる。
      have hfr : ({ w.drop call with rows := update (fun row => row.key = x.lease.key) (fun _ => x.draft) w.rows } : World).locked
          key = false := hxk ▸ h.drop_unlocked hx
      have hfo := find_of_mem h hco
      rw [hkey, hxk, find] at hfo
      rw [h.current_locked hmem hxk] at hrow
      rw [current_free hfr, find, find?_update hqu, hfo, map_some, if_pos (by simp [hkey]), hrow]
    · rcases h.current_drop call hrow with hke | ⟨y, hy, hyk, -⟩
      · cases hl : (w.drop call).locked key with
        | true =>
          obtain ⟨z, hz, hzk⟩ := locked_iff.mp hl
          rw [current] at hke ⊢
          cases hfi : (w.drop call).executions.find? fun y => y.lease.key = key with
          | none =>
            rw [find?_eq_none] at hfi
            exact absurd (by simpa using hzk) (hfi z hz)
          | some y =>
            rw [hfi] at hke
            exact hke
        | false =>
          have hfr : ({ w.drop call with rows := update (fun row => row.key = x.lease.key) (fun _ => x.draft) w.rows } : World).locked
              key = false := hl
          rw [current_free hl] at hke
          have hke : w.rows.find? (fun row => row.key = key) = some row := hke
          have hroK : row.key = key := by simpa using find?_some hke
          rw [current_free hfr, find, find?_update hqu, hke, map_some, if_neg (by simpa [hroK] using Ne.symm hxk)]
      · rw [hx, some.injEq] at hy
        exact absurd (hy ▸ hyk) hxk

/-! ## 許された書き込み -/

theorem Sound.lastClaim_of_holds {committed} (hco : committed ∈ w.rows) (hwr : Written committed row)
    (hhos : lease.holds w.now row = true) :
    w.lastClaim row.key = some { key := row.key, leaseToken := some lease.leaseToken, fencingEpoch := lease.fencingEpoch } ∧
      row.leaseActive w.now = true := by
  obtain ⟨-, hsts, hto, hep, hac⟩ := holds_iff.mp hhos
  obtain ⟨hru, hsa⟩ := hwr.leaseToken hsts
  refine ⟨?_, hac⟩
  rw [hwr.key, h.tokens committed hco hru, Claim.of, ← hsa, hto, ← hwr.fencingEpoch, hep]

theorem Sound.guarded (e) : w.Guarded e := by
  intro key row row' hrow hro' hch
  have hsa : row' ≠ row := by
    rintro rfl
    simp at hch
  have hunc : w.current key = (ProjectMutations.step w e).current key → False := by
    intro heq
    rw [← heq, hrow] at hro'
    exact hsa (some.inj hro').symm
  cases e with
  | tick elapsed => exact (hunc rfl).elim
  | begin input =>
    exfalso
    rw [ProjectMutations.step] at hro'
    rcases begin_spec w.now w.rows input with hb | ⟨hb, -, -⟩
    · rw [hb] at hro'
      exact hunc (hrow.trans (by rw [← hrow, ProjectMutations.step, hb]))
    · cases hl : w.locked key with
      | true =>
        obtain ⟨x, hx, hkey⟩ := locked_iff.mp hl
        refine hunc ?_
        rw [h.current_locked hx hkey, (h.step (.begin input)).current_locked hx hkey]
      | false =>
        have hfr : (ProjectMutations.step w (.begin input)).locked key = false := hl
        rw [current_free hl] at hrow
        refine hunc ?_
        rw [current_free hl, current_free hfr, hrow, ProjectMutations.step, hb]
        simp only [find] at hrow ⊢
        rw [find?_append, hrow]
        rfl
  | claim input =>
    rw [ProjectMutations.step] at hro'
    rcases whenFree_cases (w := w) input.key (w.grant (input.matches w.now) (input.claim w.now)) with hwa | ⟨-, hgr⟩
    · rw [hwa, hrow] at hro'
      exact (hsa (some.inj hro').symm).elim
    · rw [hgr] at hro'
      rcases h.current_update (w.grant (input.matches w.now) (input.claim w.now)) rfl rfl (fun _ _ => rfl) hrow hro' with
        heq | ⟨-, hp, -⟩
      · exact (hsa heq).elim
      · exact (claim_matches hp).2
  | claimRecoverable input skip tokens =>
    rcases h.current_update (w.grant (input.matches w.now w.rows (w.skipped skip)) (input.claim w.now tokens)) rfl rfl
      (fun _ _ => rfl) hrow hro' with heq | ⟨hmem, hp, -⟩
    · exact (hsa heq).elim
    · exact (recover_matches h.keys hmem hp).2
  | write action =>
    rw [ProjectMutations.step] at hro'
    rcases whenFree_cases (w := w) action.lease.key { w with rows := action.apply w.now w.rows } with hwa | ⟨-, hwri⟩
    · rw [hwa, hrow] at hro'
      exact (hsa (some.inj hro').symm).elim
    · obtain ⟨f, hf, hwr⟩ := apply_spec w.now action
      rw [hwri] at hro'
      rcases h.current_update { w with rows := action.apply w.now w.rows } (hf w.rows) rfl (fun a _ => (hwr a).key) hrow hro' with heq | ⟨hmem, hp, -⟩
      · exact (hsa heq).elim
      · exact h.lastClaim_of_holds hmem (Written.refl row) hp
  | reconcile actor input =>
    rw [ProjectMutations.step] at hro'
    rcases whenFree_cases (w := w) input.key { w with rows := (reconcileProjectMutation w.now w.rows actor input).2 } with
      hwa | ⟨-, hwri⟩
    · rw [hwa, hrow] at hro'
      exact (hsa (some.inj hro').symm).elim
    · rw [hwri] at hro'
      rcases reconcile_spec w.now w.rows actor input with hke | hup
      · rw [hke, hrow] at hro'
        exact (hsa (some.inj hro').symm).elim
      · rcases h.current_update { w with rows := (reconcileProjectMutation w.now w.rows actor input).2 } hup rfl (fun _ _ => rfl) hrow hro' with heq | ⟨-, hp, -⟩
        · exact (hsa heq).elim
        · obtain ⟨-, hpri, hsts, hep⟩ := matches_iff.mp hp
          exact ⟨hsts, hpri, hep⟩
  | enter lease =>
    rw [ProjectMutations.step] at hro'
    rcases whenFree_cases (w := w) lease.key (w.enter lease) with hwa | ⟨hfr, hent⟩
    · rw [hwa, hrow] at hro'
      exact (hsa (some.inj hro').symm).elim
    · rw [hent, h.current_enter hfr hrow] at hro'
      exact (hsa (some.inj hro').symm).elim
  | inside call action =>
    rw [ProjectMutations.step] at hro'
    cases hl : w.locked key with
    | true =>
      obtain ⟨x, hx, hkey⟩ := locked_iff.mp hl
      obtain ⟨committed, hco, -, -, -, -, hdr⟩ := h.executing x hx
      rw [h.current_locked hx hkey, some.injEq] at hrow
      subst hrow
      have hmem : (if (decide (x.call = call) && decide (action.lease.key = x.lease.key)) = true then
          { x with draft := (action.apply w.now [x.draft]).headD x.draft } else x) ∈ (w.inside call action).executions :=
        mem_update.mpr ⟨x, hx, rfl⟩
      have hins : (w.inside call action).Sound := h.inside
      by_cases hmi : (decide (x.call = call) && decide (action.lease.key = x.lease.key)) = true
      · rw [if_pos hmi] at hmem
        rw [hins.current_locked hmem hkey, some.injEq] at hro'
        rcases written_inside w.now action x.draft with hke | ⟨hhos, -⟩
        · exact (hsa (hro'.symm.trans hke)).elim
        · exact h.lastClaim_of_holds hco hdr hhos
      · rw [if_neg hmi] at hmem
        rw [hins.current_locked hmem hkey, some.injEq] at hro'
        exact (hsa hro'.symm).elim
    | false =>
      have hfr : (w.inside call action).locked key = false := by
        rw [not_locked] at hl ⊢
        intro x hx
        obtain ⟨y, hy, rfl⟩ := mem_update.mp hx
        split
        · exact hl y hy
        · exact hl y hy
      rw [current_free hfr] at hro'
      rw [current_free hl] at hrow
      exact (hsa (some.inj (hro'.symm.trans hrow))).elim
  | leave call =>
    have hke := h.current_leave call hrow
    exact (hunc (hrow.trans hke.symm)).elim
  | abandon call =>
    rcases h.current_drop call hrow with hke | ⟨x, hx, hkey, rfl⟩
    · exact (hunc (hrow.trans hke.symm)).elim
    · have hmem := (execution_mem hx).1
      obtain ⟨committed, -, hco, -, -, -, hdr⟩ := h.executing x hmem
      exact locked_iff.mpr ⟨x, hmem, (hdr.key.trans hco).symm⟩

end

/-! ## 終わった変更 -/

theorem mem_update_of_not {p} {f : StoredProjectMutationRow → StoredProjectMutationRow} {rows : Journal}
    (hrow : row ∈ rows) (hp : p row = false) : row ∈ update p f rows := mem_update.mpr ⟨row, hrow, by simp [hp]⟩

theorem Sound.keeps (h : w.Sound) (e) (hrow : row ∈ w.rows) (hru : row.status ≠ .running) (hcl : row.claimable w.now = false) :
    row ∈ (ProjectMutations.step w e).rows ∨ ∃ actor input, e = .reconcile actor input ∧ input.matches actor row = true := by
  have hgr : ∀ (p) claim, (∀ row ∈ w.rows, p row = true → row.claimable w.now = true) → row ∈ (w.grant p claim).rows := by
    intro p claim hp
    refine mem_update_of_not hrow (Bool.eq_false_iff.mpr fun hpr => ?_)
    simp [hp row hrow hpr] at hcl
  cases e with
  | tick elapsed | inside call action | abandon call => exact .inl hrow
  | begin input =>
    left
    rw [ProjectMutations.step]
    rcases begin_spec w.now w.rows input with hb | ⟨hb, -, -⟩
    · rw [hb]
      exact hrow
    · rw [hb]
      exact mem_append_left _ hrow
  | claim input =>
    left
    rw [ProjectMutations.step]
    rcases whenFree_cases (w := w) input.key (w.grant (input.matches w.now) (input.claim w.now)) with hwa | ⟨-, hne⟩
    · rw [hwa]
      exact hrow
    · rw [hne]
      exact hgr _ _ fun _ _ hmas => (claim_matches hmas).2
  | claimRecoverable input skip tokens =>
    exact .inl (hgr _ _ fun _ hmem hmas => (recover_matches h.keys hmem hmas).2)
  | write action =>
    left
    rw [ProjectMutations.step]
    rcases whenFree_cases (w := w) action.lease.key { w with rows := action.apply w.now w.rows } with hwa | ⟨-, hne⟩
    · rw [hwa]
      exact hrow
    · obtain ⟨f, hf, -⟩ := apply_spec w.now action
      rw [hne, hf]
      exact mem_update_of_not hrow (Bool.eq_false_iff.mpr fun hhos => hru (holds_iff.mp hhos).2.1)
  | reconcile actor input =>
    rw [ProjectMutations.step]
    rcases whenFree_cases (w := w) input.key { w with rows := (reconcileProjectMutation w.now w.rows actor input).2 } with
      hwa | ⟨-, hne⟩
    · rw [hwa]
      exact .inl hrow
    · rw [hne]
      rcases reconcile_spec w.now w.rows actor input with hsa | hup
      · rw [hsa]
        exact .inl hrow
      · rw [hup]
        cases hmas : input.matches actor row with
        | true => exact .inr ⟨actor, input, rfl, hmas⟩
        | false => exact .inl (mem_update_of_not hrow hmas)
  | enter lease =>
    left
    rw [ProjectMutations.step]
    rcases whenFree_cases (w := w) lease.key (w.enter lease) with hwa | ⟨-, hne⟩
    · rw [hwa]
      exact hrow
    · rw [hne, World.enter]
      split
      · exact hrow
      · exact hrow
  | leave call =>
    left
    rw [ProjectMutations.step, World.leave]
    cases hx : w.execution call with
    | none => exact hrow
    | some x =>
      obtain ⟨committed, hco, hkey, hsts, -⟩ := h.executing x (execution_mem hx).1
      refine mem_update_of_not hrow ?_
      rw [decide_eq_false_iff_not]
      intro hroK
      rw [eq_of_key h.keys hrow hco (hroK.trans hkey.symm)] at hru
      exact hru hsts

theorem Sound.settled (h : w.Sound) (e) : w.Settled e := by
  intro row hrow
  have hidl : ∀ status, row.status = status → status ≠ .running → status ≠ .pending → status ≠ .failedRetryable →
      row.status ≠ .running ∧ row.claimable w.now = false := by
    rintro status rfl hru hpe hrt
    exact ⟨hru, by simp [StoredProjectMutationRow.claimable, hru, hpe, hrt]⟩
  have hen : row.status.unresolved = false → row.status ≠ .running → row.claimable w.now = false → row ∈ (ProjectMutations.step w e).rows := by
    intro hunr hru hcl
    rcases h.keeps e hrow hru hcl with hke | ⟨actor, input, -, hmas⟩
    · exact hke
    · rw [(matches_iff.mp hmas).2.2.1] at hunr
      cases hunr
  constructor
  · rintro (hsts | hsts)
    · obtain ⟨hru, hcl⟩ := hidl _ hsts (by decide) (by decide) (by decide)
      exact hen (by rw [hsts]; rfl) hru hcl
    · obtain ⟨hru, hcl⟩ := hidl _ hsts (by decide) (by decide) (by decide)
      exact hen (by rw [hsts]; rfl) hru hcl
  · grind [h.keeps, matches_iff]

/-! ## 操作の途中の変更 -/

theorem grant_undisturbed {p claim}
    (hc : Leases w.now claim) (hp : ∀ row ∈ w.rows, p row = true → w.locked row.key = false) (hlo : w.locked key = true) :
    (w.grant p claim).claims.filter (fun c => c.key = key) = w.claims.filter (fun c => c.key = key) := by
  have hno : ((w.rows.filter p).map fun row => Claim.of (claim row)).filter (fun c => c.key = key) = [] := by
    rw [filter_eq_nil_iff]
    intro c hmem
    obtain ⟨row, hrow, rfl⟩ := mem_map.mp hmem
    obtain ⟨hrow, hpr⟩ := mem_filter.mp hrow
    have hfr := hp row hrow hpr
    simp only [Claim.of, (hc.spec row).1, decide_eq_true_eq]
    rintro rfl
    simp [hfr] at hlo
  rw [grant, filter_append, hno, nil_append]

theorem Sound.undisturbed (h : w.Sound) (e) : w.Undisturbed e := by
  intro key hlo
  have hwa : ∀ (key') (next), next.claims = w.claims →
      (w.whenFree key' next).claims.filter (fun c => c.key = key) = w.claims.filter fun c => c.key = key := by
    intro key' next hne
    rw [whenFree]
    split
    · rfl
    · rw [hne]
  cases e with
  | claim input =>
    rw [ProjectMutations.step]
    rcases whenFree_cases (w := w) input.key (w.grant (input.matches w.now) (input.claim w.now)) with hke | ⟨hfr, hgr⟩
    · rw [hke]
    · rw [hgr]
      refine grant_undisturbed (fun row => ⟨_, _, _, rfl⟩) ?_ hlo
      intro row _ hmas
      rw [(claim_matches hmas).1]
      exact hfr
  | claimRecoverable input skip tokens =>
    refine grant_undisturbed (fun row => ⟨_, _, _, rfl⟩) ?_ hlo
    intro row hrow hmas
    refine not_locked.mpr fun x hx hkey => (recover_matches h.keys hrow hmas).1 ?_
    exact mem_append_left _ (mem_map.mpr ⟨x, hx, hkey⟩)
  | write action => exact hwa _ { w with rows := action.apply w.now w.rows } rfl
  | reconcile actor input => exact hwa _ { w with rows := (reconcileProjectMutation w.now w.rows actor input).2 } rfl
  | enter lease =>
    apply hwa
    rw [World.enter]
    split
    · rfl
    · rfl
  | leave call =>
    rw [ProjectMutations.step, World.leave]
    split
    · rfl
    · rfl
  | tick _ | begin _ | inside _ _ | abandon _ => rfl

theorem refusesMismatch (w : World) : w.RefusesMismatch := by
  intro input existing hex
  have hit : insertProjectMutation w.now w.rows input = (none, w.rows) := by
    rw [insertProjectMutation, if_pos (.inl (by rw [hex]; rfl))]
  have hre : beginProjectMutation w.now w.rows input = (.ok (existingMutationResult existing input), w.rows) := by
    rw [beginProjectMutation, hit]
    dsimp only
    rw [hex]
  rw [hre, existingMutationResult]
  constructor
  · intro hdis
    rw [if_pos]
    exact hdis.imp Ne.symm (Or.imp Ne.symm Ne.symm)
  · grind

end World

end Supacloud.ProjectMutations
