import Supacloud.FrontendActivation.Lemmas.Statements

/-!
# 受け持ちのもとでの文
-/

namespace Supacloud.FrontendActivation

open Library Triple Spec Option
open ProjectMutations

variable {site : Site} {α : Type} {F : World → Prop} {w : World} {key : MutationKey} {checkpoint stored : FrontendActivationCheckpoint}
  {input : ActivateFrontendReleaseInput} {claim : ClaimedActivation} {E : Failure → World → Prop} {deployment : FrontendDeployment}

theorem leaseLost_benign : leaseLost.Benign := ⟨by decide, by decide⟩

def World.Held (site : Site) (w : World) (key : MutationKey) (checkpoint : FrontendActivationCheckpoint) : Prop :=
  w.Open key ∧ w.Follows site key checkpoint

theorem World.Inv.write (h : w.Inv site) (hhe : w.Held site key checkpoint) {w' : World} (hrw : w'.rows = w.rows)
    (hcls : w'.claims = w.claims) (hbg : w'.begun = w.begun) (hfi : w'.finished = w.finished)
    (hbe : w'.Between site checkpoint) : w'.Inv site := by
  have htrs := h.tracks hhe.1 hhe.2
  obtain ⟨row, hrow, rfl, hunr⟩ := hhe.1
  obtain ⟨how, found, hfo, hcr⟩ := hhe.2 row hrow rfl hunr
  refine ⟨hrw ▸ h.keys, hrw ▸ h.single, ?_, ?_, ?_, ?_, ?_, ?_⟩
  · intro row' hro' how' hun'
    obtain rfl := h.single row' (hrw ▸ hro') row hrow how' how hun' hunr
    have htr' : w'.Tracks site row'.key checkpoint :=
      ⟨htrs.deployment, htrs.activation, htrs.consistent, hbe, hbg.symm ▸ htrs.begun⟩
    exact ⟨found, hfo, htr'.of_core hcr⟩
  · intro hidl
    have hen := hidl row (hrw.symm ▸ hrow) how
    rw [hunr] at hen
    cases hen
  · intro claim hcl
    exact hrw ▸ h.known claim (hcls ▸ hcl)
  · intro claim hcl how'
    obtain ⟨checkpoint', hdc, hde, hfos⟩ := h.claimed claim (hcls ▸ hcl) how'
    exact ⟨checkpoint', hdc, hde, fun row' hro' => hfos row' (hrw ▸ hro')⟩
  · intro finished hmem hsts
    exact (h.succeeded finished (hfi ▸ hmem) hsts).mono (hbg ▸ List.Subset.refl _)
  · intro finished hmem hsts
    exact (h.failed finished (hfi ▸ hmem) hsts).mono (hbg ▸ List.Subset.refl _)

theorem World.Held.of_rows (h : w.Held site key checkpoint) {w' : World} (hrw : w'.rows = w.rows) : w'.Held site key checkpoint := by
  obtain ⟨⟨row, hrow, hkey, hunr⟩, hfos⟩ := h
  exact ⟨⟨row, hrw.symm ▸ hrow, hkey, hunr⟩, fun row' hro' => hfos row' (hrw ▸ hro')⟩

namespace Spec

theorem saveCheckpoint (hF : Facial F) (hkey : mutationKey input = key) (hcr : stored.core = checkpoint.core) :
    Spec site (fun w => w.Follows site key checkpoint ∧ F w) (saveCheckpoint site input claim stored)
      (fun _ w => w.Follows site key checkpoint ∧ F w) (fun e w => w.Follows site key checkpoint ∧ e.Benign) := by
  subst hkey
  refine Triple.bind (Spec.journal (Q := fun _ w => w.Follows site (mutationKey input) checkpoint ∧ F w) (calm_follows.and hF.calm) ?_ ?_
    fun _ _ _ _ _ herr => nomatch herr) fun updated => ?_
  · intro w ω updated w' hi hw hok
    cases hok
    let saved : CheckpointProjectMutationInput := { lease := leaseOf input claim, checkpoint := site.codec.encode stored
                                                    leaseSeconds := mutationLeaseSeconds, recoveryNotBefore := none }
    have hrw : ∀ row ∈ w.rows, saved.lease.holds w.now row = true →
        World.Rewrites site (saved.lease.holds w.now) (StoredProjectMutationRow.checkpointed w.now saved) row :=
      World.rewrites_checkpointed hw.1 rfl hcr
    have hinv := hi.rewrite hrw fun row _ hp _ _ hen => by
      obtain ⟨-, hunr⟩ := World.unresolved_of_holds hp
      exact absurd (hunr.symm.trans hen) (by decide)
    have hfos := hw.1.rewrite hrw
    exact ⟨hinv, ⟨hfos, hF w _ rfl rfl hw.2⟩, fun error => ⟨hfos, Failure.benign_external error⟩⟩
  · exact fun w error hw => ⟨hw.1, Failure.benign_external error⟩
  · refine Triple.post (Spec.ensure fun w _ hw => ⟨hw.1, leaseLost_benign⟩) fun _ w _ hw => hw.1

theorem finish {status finishing} (hF : Facial F) (hkey : ∀ ω, (finishing ω).lease.key = key) (hsts : ∀ ω, (finishing ω).status = status)
    (hsu : status = .succeeded → ∀ w, F w → ∃ record, w.active = some record ∧ record.projectRef = site.projectRef ∧
      record.deploymentId = site.deploymentId ∧ record.releaseId = checkpoint.releaseId ∧ record.activationId = key.mutationId ∧
      record.mutationId = key.mutationId ∧ w.root = site.rootAfter checkpoint)
    (hfl : status = .failedTerminal → ∀ w, F w → w.Before site checkpoint) :
    Spec site (fun w => w.Follows site key checkpoint ∧ F w) (Mutations.finish status finishing)
      (fun _ w => w.Follows site key checkpoint) (fun e w => w.Follows site key checkpoint ∧ e.Benign) := by
  refine Spec.journal (calm_follows.and hF.calm) ?_ (fun w error hw => ⟨hw.1, Failure.benign_external error⟩) fun _ _ _ _ _ herr => nomatch herr
  intro w ω updated w' hi hw hok
  have hrw : ∀ row ∈ w.rows, (finishing ω).lease.holds w.now row = true →
      World.Rewrites site ((finishing ω).lease.holds w.now) (StoredProjectMutationRow.finished w.now (finishing ω)) row :=
    World.rewrites_finished
  simp only [finishProjectMutation] at hok
  split at hok
  · rename_i hva
    have hen : ∀ row ∈ w.rows, (finishing ω).lease.holds w.now row = true →
        (∀ finished, finished.key = key → finished.active = w.active → finished.root = w.root →
          (status = .succeeded → w.Committed site finished) ∧ (status = .failedTerminal → w.Restored finished)) ∧
        ((status = .succeeded ∨ status = .failedTerminal) → w.Agrees site) := by
      intro row hrow hhos
      obtain ⟨hrwk, hunr⟩ := World.unresolved_of_holds hhos
      have htrs := hi.tracks ⟨row, hrow, hrwk.trans (hkey ω), hunr⟩ hw.1
      obtain ⟨begun, hbg, hbeg, hre, hac, hro⟩ := htrs.begun
      constructor
      · intro finished hfk hfa hfr
        constructor
        · intro hs
          obtain ⟨record, hrc, hpr, hde, hid, hact, hmu, hnow⟩ := hsu hs w hw.2
          refine ⟨begun, hbg, hbeg.trans hfk.symm, record, hfa.trans hrc, hpr, hde, hid.trans hre.symm, ?_, ?_, ?_⟩
          · rw [hfk, hact]
          · rw [hfk, hmu]
          · rw [hfr, hnow, hre, Site.rootAfter]
        · intro hs
          obtain ⟨hnow, hnw⟩ := hfl hs w hw.2
          exact ⟨begun, hbg, hbeg.trans hfk.symm, hfa.trans (hnow.trans hac.symm), hfr.trans (hnw.trans hro.symm)⟩
      · grind [htrs.agrees, World.Agrees, Site.rootAfter]
    have hinv := hi.rewrite hrw fun row hrow hhos _ _ hrs => (hen row hrow hhos).2 (by
      rw [StoredProjectMutationRow.finished, hsts ω] at hrs
      cases hs : status with
      | succeeded => exact .inl rfl
      | failedTerminal => exact .inr rfl
      | failedRetryable => rw [hs] at hrs; cases hrs
      | outcomeUnknown => rw [hs] at hrs; cases hrs)
    have hfos := hw.1.rewrite hrw
    have hfn : w'.Inv site ∧ w'.Follows site key checkpoint := by
      simp only [updateReturning, Except.ok.injEq, Prod.mk.injEq] at hok
      obtain ⟨-, rfl⟩ := hok
      cases hfin : w.rows.find? ((finishing ω).lease.holds w.now) with
      | none =>
        simp only [map_none, isSome_none, World.noteFinished]
        exact ⟨hinv, hfos⟩
      | some row =>
        simp only [map_some, isSome_some, World.noteFinished, if_true]
        refine ⟨hinv.frame rfl rfl rfl (List.Subset.refl _) (fun _ => .inl) ?_, hfos⟩
        intro finished hfi
        rcases List.mem_cons.mp hfi with rfl | hold
        · obtain ⟨hcom, -⟩ := hen row (List.mem_of_find?_eq_some hfin) (List.find?_some hfin)
          obtain ⟨hs, hf⟩ := hcom { key := (finishing ω).lease.key, status := (finishing ω).status, active := w.active, root := w.root }
            (hkey ω) rfl rfl
          exact .inr ⟨fun h => hs ((hsts ω).symm.trans h), fun h => hf ((hsts ω).symm.trans h)⟩
        · exact .inl hold
    exact ⟨hfn.1, hfn.2, fun error => ⟨hfn.2, Failure.benign_external error⟩⟩
  · simp only [isSome_none, World.noteFinished, Except.ok.injEq, Prod.mk.injEq] at hok
    obtain ⟨-, rfl⟩ := hok
    exact ⟨hi, hw.1, fun error => ⟨hw.1, Failure.benign_external error⟩⟩

theorem query {P label} (hP : Calm site P) (find : World → α) (hE : ∀ e w, P w → e.Benign → E e w) :
    Spec site P (FrontendActivation.journal label fun _ w => .ok (find w, w)) (fun a w => P w ∧ a = find w) E := by
  refine Spec.journal hP ?_ (fun w error hw => hE _ w hw (Failure.benign_external error)) fun _ _ _ _ _ herr => nomatch herr
  intro w ω a w' hi hw hok
  cases hok
  exact ⟨hi, ⟨hw, rfl⟩, fun error => hE _ w hw (Failure.benign_external error)⟩

theorem withLease {G : α → World → Prop} {operation} (hF : Facial F) (hG : ∀ a, Facial (G a))
    (hE : ∀ e w, e.Benign → E e w) (hkey : mutationKey input = key)
    (hop : Spec site (fun w => w.Held site key checkpoint ∧ F w) operation (fun a w => w.Held site key checkpoint ∧ G a w)
      (fun e w => w.Held site key checkpoint ∧ E e w)) :
    Spec site (fun w => w.Follows site key checkpoint ∧ F w) (withLease input claim operation)
      (fun a w => w.Follows site key checkpoint ∧ G a w) (fun e w => w.Follows site key checkpoint ∧ E e w) := by
  subst hkey
  have hcm : ∀ P, Calm site P → Spec site (fun w => w.Follows site (mutationKey input) checkpoint ∧ P w)
      (FrontendActivation.journal .commit fun _ w => .ok ((), w)) (fun _ w => w.Follows site (mutationKey input) checkpoint ∧ P w)
      (fun e w => w.Follows site (mutationKey input) checkpoint ∧ E e w) := by
    intro P hP
    refine Triple.post (Spec.query (calm_follows.and hP) (fun _ => ()) fun e w hw he => ⟨hw.1, hE e w he⟩) fun _ _ _ hw => hw.1
  refine Triple.bind (Q := fun a w => w.Follows site (mutationKey input) checkpoint ∧ ∀ value, a = some value → G value w) ?_ fun a => ?_
  · refine Triple.bind (Spec.query (calm_follows.and hF.calm) (fun w => w.rows.any ((leaseOf input claim).holds w.now)) fun e w hw he =>
      ⟨hw.1, hE e w he⟩) fun held => ?_
    cases held with
    | true =>
      refine Triple.bind (Q := fun a w => w.Held site (mutationKey input) checkpoint ∧ G a w) ?_ fun a => ?_
      · refine Triple.tryCatch (Triple.pre hop ?_) fun e => ?_
        · rintro w - ⟨⟨hfos, hw⟩, hhe⟩
          obtain ⟨row, hrow, hhos⟩ := List.any_eq_true.mp hhe.symm
          obtain ⟨hkey, hunr⟩ := World.unresolved_of_holds hhos
          exact ⟨⟨⟨row, hrow, hkey, hunr⟩, hfos⟩, hw⟩
        · refine Triple.bind (Spec.idle fun e' w hw he => ⟨hw.1.2, hE e' w he⟩) fun _ => ?_
          exact Triple.throw e fun w _ hw => ⟨hw.1.2, hw.2⟩
      · refine Triple.bind (Triple.pre (hcm (G a) (hG a).calm) fun w _ hw => ⟨hw.1.2, hw.2⟩) fun _ => ?_
        refine Triple.pure _ fun w _ hw => ⟨hw.1, ?_⟩
        rintro value ⟨⟩
        exact hw.2
    | false =>
      refine Triple.bind (Triple.pre (hcm F hF.calm) fun w _ hw => hw.1) fun _ => ?_
      exact Triple.pure _ fun w _ hw => ⟨hw.1, nofun⟩
  · cases a with
    | some value => exact Triple.pure _ fun w _ hw => ⟨hw.1, hw.2 value rfl⟩
    | none => exact Triple.throw _ fun w _ hw => ⟨hw.1, hE _ w leaseLost_benign⟩

end Spec

/-!
## 有効化の段階
-/

variable {P R : World → Prop} {release : FrontendReleaseRecord}

structure Serves (site : Site) (input : ActivateFrontendReleaseInput) (checkpoint : FrontendActivationCheckpoint) : Prop where
  projectRef : input.projectRef = site.projectRef
  deploymentId : input.deploymentId = site.deploymentId
  releaseId : checkpoint.releaseId = input.releaseId
  activationId : checkpoint.activationId = input.mutationId

theorem Serves.previousRoot (h : Serves site input checkpoint) : previousRoot site input checkpoint = site.rootBefore checkpoint := by
  cases hrt : checkpoint.previousRoute with
  | absent => simp [FrontendActivation.previousRoot, Site.rootBefore, hrt]
  | legacy | release => simp only [FrontendActivation.previousRoot, Site.rootBefore, hrt, h.projectRef, h.deploymentId]

theorem Serves.desiredRoot (h : Serves site input checkpoint) : some (desiredRoot site input checkpoint) = site.rootAfter checkpoint := by
  rw [FrontendActivation.desiredRoot, Site.rootAfter, h.projectRef, h.deploymentId]

def Failure.Mild (site : Site) (checkpoint : FrontendActivationCheckpoint) (error : Failure) (w : World) : Prop :=
  error.code ≠ some .revisionConflict ∧ (error.code = some .routeRejected → w.Before site checkpoint)

theorem Failure.Benign.mild {error : Failure} (h : error.Benign) (w) : error.Mild site checkpoint w :=
  ⟨h.1, fun hrj => absurd hrj h.2⟩

theorem desired_of_ids {active} (h : checkpoint.releaseId ≠ "absent")
    (hre : Storage.releaseIdOf active = checkpoint.releaseId) (hact : Storage.activationIdOf active = checkpoint.activationId) :
    checkpoint.Desired active := by
  cases active with
  | none => exact absurd hre.symm h
  | some record => exact ⟨record, rfl, hre, hact⟩

theorem before_of_ids (hbe : w.Between site checkpoint) (hre : Storage.releaseIdOf w.active = checkpoint.expectedActiveReleaseId)
    (hact : Storage.activationIdOf w.active = checkpoint.expectedActivationId) : w.Before site checkpoint := by
  rcases hbe with hbf | ⟨hfre, ⟨record, hrc, hid, haid⟩, -⟩
  · exact hbf
  · rw [hrc] at hre hact
    rcases hfre with hfre | hfre
    · exact absurd (hid.symm.trans hre) hfre
    · exact absurd (haid.symm.trans hact) hfre

theorem facial_before : Facial fun w => w.Before site checkpoint := by
  intro w w' hac hro h
  rw [World.Before, hac, hro]
  exact h

theorem facial_desired : Facial fun w => checkpoint.Desired w.active := by
  intro w w' hac _ h
  exact hac.symm ▸ h

namespace Spec

theorem writeActiveRelease {record} (hR : Facial R)
    (hwr : ∀ w, w.Inv site → P w → w.Held site key checkpoint ∧ World.Between site checkpoint { w with active := record } ∧
      R { w with active := record }) (hP : ∀ w, P w → w.Held site key checkpoint) :
    Spec site P (Storage.writeActiveRelease record) (fun _ w => w.Held site key checkpoint ∧ R w)
      (fun e w => w.Held site key checkpoint ∧ e.Benign) := by
  refine Spec.effect ?_ fun w error hw => ⟨hP w hw, Failure.benign_external error⟩
  intro w hi hw
  obtain ⟨hhe, hbe, hr⟩ := hwr w hi hw
  refine ⟨hi.write hhe rfl rfl rfl rfl hbe, ⟨hhe.of_rows rfl, hR { w with active := record } _ rfl rfl hr⟩, fun error => ?_⟩
  exact ⟨hhe.of_rows rfl, Failure.benign_external error⟩

theorem configureFrontendRoute {root} (hro : some root = site.rootAfter checkpoint) :
    Spec site (fun w => w.Held site key checkpoint ∧ checkpoint.Desired w.active) (Gateway.configureFrontendRoute root)
      (fun _ w => w.Held site key checkpoint) (fun e w => (w.Held site key checkpoint ∧ checkpoint.Desired w.active) ∧ e.Benign) := by
  refine Spec.effect ?_ fun w error hw => ⟨hw, Failure.benign_external error⟩
  rintro w hi ⟨hhe, hds⟩
  have hbe : World.Between site checkpoint { w with root := some root, writes := .configureFrontendRoute root :: w.writes } := by
    have htrs := hi.tracks hhe.1 hhe.2
    rcases htrs.between with ⟨hac, -⟩ | ⟨hfre, hde', -⟩
    · refine .inl ⟨hac, ?_⟩
      obtain ⟨record, hrc, hid, -⟩ := hds
      obtain ⟨hre, -⟩ := htrs.consistent.previous record (hac.symm.trans hrc)
      rw [hro, Site.rootBefore, Site.rootAfter, hre, ← hac, hrc, ← hid]
      rfl
    · exact .inr ⟨hfre, hde', .inr hro⟩
  refine ⟨hi.write hhe rfl rfl rfl rfl hbe, hhe.of_rows rfl, fun error => ⟨⟨hhe.of_rows rfl, hds⟩, ?_⟩⟩
  exact Failure.benign_external error

/-! ## 部品 -/

theorem ensureAuthority (hses : Serves site input checkpoint) (hre : release.releaseId = input.releaseId) :
    Spec site (fun w => w.Held site key checkpoint ∧ True) (ensureAuthority input release checkpoint)
      (fun _ w => w.Held site key checkpoint ∧ checkpoint.Desired w.active) (fun e w => w.Held site key checkpoint ∧ e.Benign) := by
  refine Triple.bind (Spec.activeRelease fun e w hw he => ⟨hw.1, he⟩) fun current => ?_
  split
  · rename_i hany
    refine pure () fun w _ hw => ⟨hw.1.1, ?_⟩
    cases current with
    | none => cases hany
    | some record =>
      simp only [any_some, Bool.and_eq_true, decide_eq_true_eq] at hany
      refine ⟨record, hw.2.1.symm, ?_, ?_⟩
      · rw [hany.1.1, hre, hses.releaseId]
      · rw [hany.2, hses.activationId]
  · rename_i hany
    refine bind (ensure fun w _ hw => ⟨hw.1.1, by decide, by decide⟩) fun _ => ?_
    refine writeActiveRelease facial_desired ?_ fun w hw => hw.1.1.1
    rintro w hi ⟨⟨⟨hhe, -⟩, hcu, hids⟩, hex, hexA⟩
    have htrs := hi.tracks hhe.1 hhe.2
    rw [hcu] at hex hexA
    obtain ⟨hac, hro⟩ := before_of_ids htrs.between hex hexA
    have hds : checkpoint.Desired (some (desiredAuthority input release checkpoint.activatedAt)) :=
      ⟨_, rfl, hre.trans hses.releaseId.symm, hses.activationId.symm⟩
    refine ⟨hhe, .inr ⟨?_, hds, .inl hro⟩, hds⟩
    -- 期待した版と同じ版なら、記録はもう求めた版である。
    by_contra hsa
    rw [FrontendActivationCheckpoint.Fresh, not_or, not_not, not_not] at hsa
    obtain ⟨record, hrc, hid, haid⟩ := desired_of_ids htrs.consistent.release (hex.trans hsa.1.symm)
      (hexA.trans hsa.2.symm)
    have hfo : current = some record := hcu.trans hrc
    apply hany
    rw [hfo]
    have hmu := hids record hfo
    simp [hid, haid, hre, hses.releaseId, ← hmu, hses.activationId]

theorem restorePreviousAuthority :
    Spec site (fun w => w.Held site key checkpoint ∧ w.root = site.rootBefore checkpoint) (restorePreviousAuthority input checkpoint)
      (fun _ w => w.Held site key checkpoint ∧ w.Before site checkpoint) (fun e w => w.Held site key checkpoint ∧ e.Benign) := by
  refine Triple.bind (Q := fun restored w => w.Held site key checkpoint ∧ (restored = true → w.Before site checkpoint)) ?_ fun restored => ?_
  · refine Triple.bind (Spec.activeRelease fun e w hw he => ⟨hw.1, he⟩) fun current => ?_
    split
    · exact pure false fun w _ hw => ⟨hw.1.1, nofun⟩
    · refine bind (writeActiveRelease (R := fun w => w.Before site checkpoint) facial_before ?_ fun w hw => hw.1.1) fun _ => ?_
      · rintro w - ⟨⟨hhe, hro⟩, -⟩
        exact ⟨hhe, .inl ⟨rfl, hro⟩, rfl, hro⟩
      · refine bind (activeRelease fun e w hw he => ⟨hw.1, he⟩) fun readBack => ?_
        refine bind (ensure fun w _ hw => ⟨hw.1.1, by decide, by decide⟩) fun _ => ?_
        exact pure true fun w _ hw => ⟨hw.1.1.1, fun _ => hw.1.1.2⟩
  · refine post (ensure fun w _ hw => ⟨hw.1, by decide, by decide⟩) ?_
    exact fun _ w _ hw => ⟨hw.1.1, hw.1.2 hw.2⟩

theorem handleRouteFailure (hses : Serves site input checkpoint) (error) :
    Spec site (fun w => w.Held site key checkpoint) (handleRouteFailure site input checkpoint error)
      (fun _ w => w.Held site key checkpoint) (fun e w => w.Held site key checkpoint ∧ e.Mild site checkpoint w) := by
  have hunk : ∀ message, (outcomeUnknown message).Benign := fun message => ⟨nofun, nofun⟩
  refine Triple.bind (Spec.ensure fun w _ hw => ⟨hw, (hunk _).mild w⟩) fun _ => ?_
  refine bind (Q := fun root w => w.Held site key checkpoint ∧ root = w.root) ?_ fun liveRoot => ?_
  · refine tryCatch (post (readFrontendStaticRoot (E := fun _ w => w.Held site key checkpoint) fun e w hw he => hw.1) fun _ _ _ hw => ⟨hw.1.1, hw.2⟩) fun e => ?_
    exact throw _ fun w _ hw => ⟨hw, (hunk _).mild w⟩
  split
  · exact pure () fun w _ hw => hw.1
  · split
    · rename_i hro
      refine bind (Q := fun _ w => w.Held site key checkpoint ∧ w.Before site checkpoint)
        (conseq restorePreviousAuthority ?_ (fun _ _ _ hq => hq) ?_) fun _ => ?_
      · exact fun w _ hw => ⟨hw.1, hw.2.symm.trans (hro.trans hses.previousRoot)⟩
      · exact fun e w _ he => ⟨he.1, he.2.mild w⟩
      · exact throw _ fun w _ hw => ⟨hw.1, nofun, fun _ => hw.2⟩
    · exact throw _ fun w _ hw => ⟨hw.1, (hunk _).mild w⟩

theorem verifiedActivation (hE : ∀ e w, P w → e.Benign → E e w) : Spec site P (verifiedActivation site input release checkpoint)
      (fun _ w => P w ∧ w.active = some (desiredAuthority input release checkpoint.activatedAt) ∧
        w.root = some (releaseBuildDir site input.projectRef input.deploymentId release.releaseId)) E := by
  refine Triple.bind (Spec.activeRelease hE) fun active => ?_
  refine bind (readFrontendStaticRoot fun e w hw => hE e w hw.1) fun root => ?_
  refine bind (ensure fun w _ hw => hE _ w hw.1.1 ⟨by decide, by decide⟩) fun _ => ?_
  refine bind (releaseRecord fun e w hw => hE e w hw.1.1.1) fun storedRelease => ?_
  refine post (ensure fun w _ hw => hE _ w hw.1.1.1.1 ⟨by decide, by decide⟩) ?_
  rintro _ w - ⟨⟨⟨⟨⟨hw, hac, -⟩, hro⟩, hsa, hsaR⟩, -⟩, -⟩
  exact ⟨hw, hac.symm.trans hsa, hro.symm.trans hsaR⟩

end Spec

/-!
## 受け持った有効化の走行
-/

def World.Applied (site : Site) (input : ActivateFrontendReleaseInput) (release : FrontendReleaseRecord) (w : World) : Prop :=
  ∃ activatedAt, w.active = some (desiredAuthority input release activatedAt) ∧
    w.root = some (releaseBuildDir site input.projectRef input.deploymentId release.releaseId)

theorem facial_applied : Facial (World.Applied site input release) := by
  rintro w w' hac hro ⟨activatedAt, h, hrt'⟩
  exact ⟨activatedAt, hac.trans h, hro.trans hrt'⟩

theorem facial_true : Facial fun _ => True := fun _ _ _ _ _ => trivial

namespace Serves

theorem phase (h : Serves site input checkpoint) (phase) : Serves site input { checkpoint with phase } :=
  ⟨h.projectRef, h.deploymentId, h.releaseId, h.activationId⟩

end Serves

namespace Spec

theorem reconciledCheckpoint (hses : Serves site input checkpoint) (hab : input.releaseId ≠ "absent") :
    Spec site (fun w => w.Follows site key checkpoint) (reconciledCheckpoint site input checkpoint)
      (fun reconciled w => (∃ phase, reconciled = { checkpoint with phase }) ∧ w.Follows site key checkpoint ∧
        (reconciled.phase ≠ .prepared → checkpoint.Desired w.active)) (fun e w => w.Follows site key checkpoint ∧ e.Benign) := by
  refine Triple.bind (Spec.activeRelease fun e w hw he => ⟨hw, he⟩) fun active => ?_
  refine bind (ensure fun w _ hw => ⟨hw.1, by decide, by decide⟩) fun _ => ?_
  refine bind (readFrontendStaticRoot fun e w hw he => ⟨hw.1.1, he⟩) fun currentRoot => ?_
  refine bind (checked fun e w herr hw => ⟨hw.1.1.1, ?_⟩) fun phase => ?_
  · simp only [reconciledPhase] at herr
    have hunk : e = recoveryStateUnknown := by grind
    rw [hunk]
    exact ⟨by decide, by decide⟩
  · refine pure _ ?_
    rintro w - ⟨⟨⟨⟨hfos, hac, -⟩, hmas⟩, -⟩, hph⟩
    refine ⟨⟨phase, rfl⟩, hfos, fun had => ?_⟩
    rw [reconciledPhase] at hph
    split at hph
    · split at hph
      · cases hph
        exact absurd rfl had
      · cases hph
    · grind [hses.releaseId, desired_of_ids]

section

variable (hkey : mutationKey input = key) (hses : Serves site input checkpoint)

include hkey hses

theorem applyAuthority (hre : release.releaseId = input.releaseId) :
    Spec site (fun w => w.Follows site key checkpoint) (applyAuthority site input release claim checkpoint)
      (fun applied w => applied = { checkpoint with phase := .authorityApplied } ∧ w.Follows site key checkpoint ∧ checkpoint.Desired w.active)
      (fun e w => w.Follows site key checkpoint ∧ e.Benign) := by
  refine Triple.bind (Triple.pre (Spec.withLease (G := fun _ w => checkpoint.Desired w.active) (E := fun e _ => e.Benign) facial_true
    (fun _ => facial_desired) (fun _ _ he => he) hkey (ensureAuthority hses hre)) fun _ _ hw => ⟨hw, trivial⟩) fun _ => ?_
  refine bind (saveCheckpoint facial_desired hkey rfl) fun _ => ?_
  refine bind (idle fun e w hw he => ⟨hw.1, he⟩) fun _ => ?_
  exact pure _ fun w _ hw => ⟨rfl, hw⟩

theorem applyRoute (hre : release.releaseId = input.releaseId) (hde : deployment.projectRef = input.projectRef ∧ deployment.id = input.deploymentId) :
    Spec site (fun w => w.Follows site key checkpoint ∧ checkpoint.Desired w.active)
      (applyRoute site input deployment release claim checkpoint)
      (fun applied w => applied = { checkpoint with phase := .routeApplied } ∧ w.Follows site key checkpoint)
      (fun e w => w.Follows site key checkpoint ∧ e.Mild site checkpoint w) := by
  have hro : some (releaseBuildDir site deployment.projectRef deployment.id release.releaseId) = site.rootAfter checkpoint := by
    rw [hde.1, hde.2, hre, ← hses.releaseId]
    exact hses.desiredRoot
  have hcn : Spec site (fun w => w.Held site key checkpoint ∧ checkpoint.Desired w.active)
      (tryCatch (configureDesiredRoute site deployment release) (FrontendActivation.handleRouteFailure site input checkpoint))
      (fun _ w => w.Held site key checkpoint ∧ True) (fun e w => w.Held site key checkpoint ∧ e.Mild site checkpoint w) := by
    refine Triple.tryCatch (Triple.post (Spec.configureFrontendRoute hro) fun _ _ _ hq => ⟨hq, trivial⟩) fun e => ?_
    exact conseq (handleRouteFailure hses e) (fun _ _ hw => hw.1.1) (fun _ _ _ hq => ⟨hq, trivial⟩) fun _ _ _ he => he
  refine bind (withLease (G := fun _ _ => True) facial_desired (fun _ => facial_true) (fun e w he => he.mild w) hkey hcn)
    fun _ => ?_
  refine bind (raise (saveCheckpoint facial_true hkey rfl) fun e w _ he => ⟨he.1, he.2.mild w⟩) fun _ => ?_
  refine bind (idle fun e w hw he => ⟨hw.1, he.mild w⟩) fun _ => ?_
  exact pure _ fun w _ hw => ⟨rfl, hw.1⟩

theorem applyPhases (hab : input.releaseId ≠ "absent") (hre : release.releaseId = input.releaseId)
    (hde : deployment.projectRef = input.projectRef ∧ deployment.id = input.deploymentId) :
    Spec site (fun w => w.Follows site key checkpoint) (applyPhases site input deployment release claim checkpoint)
      (fun _ w => w.Follows site key checkpoint ∧ w.Applied site input release)
      (fun e w => w.Follows site key checkpoint ∧ e.Mild site checkpoint w) := by
  have hmi : ∀ (e : Failure) (w : World), w.Inv site → w.Follows site key checkpoint ∧ e.Benign →
      w.Follows site key checkpoint ∧ e.Mild site checkpoint w := fun e w _ he => ⟨he.1, he.2.mild w⟩
  refine Triple.bind (Triple.raise (Spec.reconciledCheckpoint hses hab) hmi)
    fun reconciled => Triple.given ?_
  rintro ⟨phase, rfl⟩
  have hse' : ∀ phase, Serves site input { checkpoint with phase } := hses.phase
  refine bind (Q := fun _ w => w.Follows site key checkpoint ∧ (phase ≠ .prepared → checkpoint.Desired w.active)) ?_ fun _ => ?_
  · cases phase == checkpoint.phase with
    | true => exact pure () fun w _ hw => hw
    | false =>
      refine raise (saveCheckpoint ?_ hkey rfl) hmi
      exact fun w w' hac hro h hph => facial_desired w w' hac hro (h hph)
  refine bind (Q := fun applied w => (∃ phase, applied = { checkpoint with phase }) ∧ w.Follows site key checkpoint ∧
    checkpoint.Desired w.active) ?_ fun applied => given ?_
  · cases hph : phase == .prepared with
    | true =>
      refine conseq (applyAuthority hkey (hse' phase) hre) (fun _ _ hw => hw.1) ?_ hmi
      exact fun applied w _ hq => ⟨⟨_, hq.1⟩, hq.2⟩
    | false =>
      refine pure _ fun w _ hw => ⟨⟨phase, rfl⟩, hw.1, hw.2 ?_⟩
      simpa using hph
  rintro ⟨phase, rfl⟩
  refine bind (Q := fun applied w => (∃ phase, applied = { checkpoint with phase }) ∧ w.Follows site key checkpoint) ?_
    fun applied => given ?_
  · cases phase == .authorityApplied with
    | true =>
      refine conseq (applyRoute hkey (hse' phase) hre hde) (fun _ _ hw => hw) ?_ fun _ _ _ he => he
      exact fun applied w _ hq => ⟨⟨_, hq.1⟩, hq.2⟩
    | false => exact pure _ fun w _ hw => ⟨⟨phase, rfl⟩, hw.1⟩
  rintro ⟨phase, rfl⟩
  refine conseq (withLease (G := fun _ => World.Applied site input release) (E := fun e _ => e.Benign) facial_true
    (fun _ => facial_applied) (fun _ _ he => he) hkey
    (post (verifiedActivation fun e w hw he => ⟨hw.1, he⟩) ?_))
    (fun _ _ hw => ⟨hw, trivial⟩) (fun _ _ _ hq => hq) hmi
  exact fun _ w _ hq => ⟨hq.1.1, _, hq.2⟩

end

/-! ## 終わり -/

theorem verifiedSuccessfulMutation (hP : Calm site P) (hE : ∀ e w, P w → e.Benign → E e w) :
    Spec site P (verifiedSuccessfulMutation site input release) (fun _ w => P w) E := by
  refine Triple.bind (Spec.query hP _ hE) fun mutation => ?_
  refine bind (checked fun e w herr hw => hE e w hw.1 (successfulMutation_benign herr)) fun checkpoint => ?_
  exact post (verifiedActivation fun e w hw he => hE e w hw.1.1 he) fun _ _ _ hq => hq.1.1.1

theorem completeSuccess (hkey : mutationKey input = key) (hses : Serves site input checkpoint)
    (hre : release.releaseId = input.releaseId) :
    Spec site (fun w => w.Follows site key checkpoint ∧ w.Applied site input release) (completeSuccess site input release claim)
      (fun _ w => w.Follows site key checkpoint) (fun e w => w.Follows site key checkpoint ∧ e.Benign) := by
  subst hkey
  have hap : ∀ w, World.Applied site input release w → ∃ record, w.active = some record ∧ record.projectRef = site.projectRef ∧
      record.deploymentId = site.deploymentId ∧ record.releaseId = checkpoint.releaseId ∧ record.activationId = input.mutationId ∧
      record.mutationId = input.mutationId ∧ w.root = site.rootAfter checkpoint := by
    rintro w ⟨activatedAt, hac, hro⟩
    have hid : release.releaseId = checkpoint.releaseId := hre.trans hses.releaseId.symm
    refine ⟨_, hac, hses.projectRef, hses.deploymentId, hid, rfl, rfl, ?_⟩
    rw [hro, hid]
    exact hses.desiredRoot
  refine Triple.bind (Spec.finish facial_applied (fun _ => rfl) (fun _ => rfl) (fun _ => hap) nofun) fun completed => ?_
  refine Triple.bind (Spec.ensure fun w _ hw => ⟨hw, by decide, by decide⟩) fun _ => ?_
  exact Triple.pre (Spec.verifiedSuccessfulMutation calm_follows fun e w hw he => ⟨hw, he⟩) fun _ _ hw => hw.1

theorem preserveRecoverableFailure {α : Type} {Q : α → World → Prop} {error} (hco : error.code ≠ some .revisionConflict)
    (hkey : mutationKey input = key) :
    Spec site (fun w => w.Follows site key checkpoint ∧ (error.code = some .routeRejected → w.Before site checkpoint))
      (preserveRecoverableFailure site input claim error) Q fun e _ => e.code ≠ some .revisionConflict := by
  subst hkey
  have hfc : Facial fun w => error.code = some .routeRejected → w.Before site checkpoint :=
    fun w w' hac hro h hrj => facial_before w w' hac hro (h hrj)
  refine Triple.bind (Q := fun _ w => w.Follows site (mutationKey input) checkpoint ∧
    (error.code = some .routeRejected → w.Before site checkpoint)) ?_ fun terminal => ?_
  · exact Triple.attempt (Triple.post (Spec.query (calm_follows.and hfc.calm) _ fun e w hw _ => hw) fun _ _ _ hq => hq.1)
  refine bind (ensure fun w _ _ => by exact nofun) fun _ => ?_
  refine bind (Q := fun _ _ => True) ?_ fun completed => ?_
  · refine conseq (finish hfc (fun _ => rfl) (fun _ => rfl) ?_ ?_) (fun _ _ hw => hw.1) (fun _ _ _ _ => trivial)
      fun e w _ he => he.2.1
    · grind [failureStatus]
    · grind [failureStatus]
  refine bind (ensure fun w _ _ => by exact nofun) fun _ => ?_
  split
  · exact throw _ fun w _ _ => hco
  · exact throw _ fun w _ _ => by exact nofun

/-! ## 受け持った有効化 -/

theorem failClaimed {Q : Executed → World → Prop} (error) (hkey : mutationKey input = key) :
    Spec site (fun w => w.Follows site key checkpoint ∧ error.Mild site checkpoint w) (failClaimed site input claim error) Q
      fun e _ => e.code ≠ some .revisionConflict := by
  have hgi : Spec site (fun w => error.code ≠ some .revisionConflict ∧
      (w.Follows site key checkpoint ∧ (error.code = some .routeRejected → w.Before site checkpoint)))
      (FrontendActivation.failClaimed site input claim error) Q fun e _ => e.code ≠ some .revisionConflict := by
    refine Triple.given fun hco => ?_
    rw [FrontendActivation.failClaimed, if_neg hco]
    exact Spec.preserveRecoverableFailure hco hkey
  exact hgi.pre fun w _ hw => ⟨hw.2.1, hw.1, hw.2.2⟩

theorem attemptClaimed {preparedDeployment : Option FrontendDeployment} {preparedRelease}
    (hkey : mutationKey input = key) (hses : Serves site input checkpoint) (hab : input.releaseId ≠ "absent")
    (hrp : claim.replayed = false) (hcl : claim.checkpoint = some checkpoint)
    (hde : ∀ deployment ∈ preparedDeployment, deployment.projectRef = input.projectRef ∧ deployment.id = input.deploymentId)
    (hre : ∀ release ∈ preparedRelease, release.releaseId = input.releaseId) :
    Spec site (fun w => w.Follows site key checkpoint) (attemptClaimed site input claim preparedDeployment preparedRelease)
      (fun executed _ => ∃ response, executed = .activated response)
      (fun e w => w.Follows site key checkpoint ∧ e.Mild site checkpoint w) := by
  refine Triple.bind (Q := fun deployment w => (deployment.projectRef = input.projectRef ∧ deployment.id = input.deploymentId) ∧
    w.Follows site key checkpoint) ?_ fun deployment => Triple.given fun hde => ?_
  · cases preparedDeployment with
    | some deployment => exact Triple.pure deployment fun w _ hw => ⟨hde deployment rfl, hw⟩
    | none =>
      exact Triple.post (Spec.deployment fun e w hw he => ⟨hw, he.mild w⟩) fun _ _ _ hq => ⟨hq.2, hq.1⟩
  refine Triple.bind (Q := fun release w => release.releaseId = input.releaseId ∧ w.Follows site key checkpoint) ?_
    fun release => Triple.given fun hre => ?_
  · cases preparedRelease with
    | some release => exact Triple.pure release fun w _ hw => ⟨hre release rfl, hw⟩
    | none =>
      exact Triple.conseq (Spec.releaseRecord fun e w hw he => ⟨hw, he.mild w⟩) (fun _ _ hw => hw) (fun _ _ _ hq => ⟨hq.2.1, hq.1⟩)
        fun _ _ _ he => he
  rw [hrp]
  refine Triple.bind (Q := fun (found) (w : World) => found = checkpoint ∧ w.Follows site key checkpoint) ?_ fun found => Triple.given ?_
  · rw [claimedCheckpoint, hcl]
    refine Triple.bind (Q := fun _ w => w.Follows site key checkpoint) ?_ fun _ => Triple.pure _ fun w _ hw => ⟨rfl, hw⟩
    cases claim.preparedNow with
    | true => exact Spec.idle fun e w hw he => ⟨hw, he.mild w⟩
    | false => exact Triple.pure () fun w _ hw => hw
  intro hfo
  rw [hfo]
  refine Triple.bind (Spec.applyPhases hkey hses hab hre hde) fun _ => ?_
  refine Triple.bind (Triple.raise (Spec.completeSuccess hkey hses hre) fun e w _ he => ⟨he.1, he.2.mild w⟩) fun _ => ?_
  exact Triple.pure _ fun w _ _ => ⟨_, rfl⟩

theorem assertInput_benign {e} (h : assertInput input = .error e) : e.Benign := by
  simp only [assertInput, assertExpectedActiveReleaseId, assertExpectedFrontendActivationId, bind_eq_error, require_eq_error] at h
  rcases h with h | ⟨_, -, h | ⟨_, -, ⟨-, rfl⟩ | ⟨_, -, ⟨-, rfl⟩ | ⟨_, -, -, rfl⟩⟩⟩⟩
  · exact assertFrontendIdentity_benign h
  · exact assertReleaseId_benign h
  all_goals exact ⟨by decide, by decide⟩

theorem assertInput_absent {result} (h : assertInput input = .ok result) : input.releaseId ≠ "absent" := by
  simp only [assertInput, assertReleaseId, bind_eq_ok, require_eq_ok] at h
  obtain ⟨_, -, _, hid, -⟩ := h
  exact isReleaseId_ne_absent hid

theorem executeClaimed {preparedDeployment preparedRelease}
    (hkey : mutationKey input = key) (hses : Serves site input checkpoint) (hrp : claim.replayed = false)
    (hcl : claim.checkpoint = some checkpoint)
    (hde : ∀ deployment ∈ preparedDeployment, deployment.projectRef = input.projectRef ∧ deployment.id = input.deploymentId)
    (hre : ∀ release ∈ preparedRelease, release.releaseId = input.releaseId) :
    Spec site (fun w => w.Follows site key checkpoint) (executeClaimed site input claim preparedDeployment preparedRelease)
      (fun _ _ => True) fun e _ => e.code ≠ some .revisionConflict := by
  refine Triple.bind (Q := fun _ (w : World) => input.releaseId ≠ "absent" ∧ w.Follows site key checkpoint)
    (Triple.post (Spec.checked fun e w herr _ => (assertInput_benign herr).1) fun _ w _ hq => ⟨assertInput_absent hq.2, hq.1⟩) fun _ => Triple.given fun hab => ?_
  have hat := Spec.attemptClaimed hkey hses hab hrp hcl hde hre
  refine bind (hat.tryCatch fun e => failClaimed e hkey) fun executed => ?_
  cases executed with
  | replay release =>
    refine ⟨fun w _ hw => ?_⟩
    obtain ⟨response, hres⟩ := hw
    cases hres
  | activated response => exact pure response fun _ _ _ => trivial

theorem replayClaimed (hrp : claim.replayed = true) :
    Spec site (fun _ => True) (FrontendActivation.executeClaimed site input claim (some deployment) (some release))
      (fun _ _ => True) fun e _ => e.code ≠ some .revisionConflict := by
  refine Triple.bind (Triple.post (Spec.checked (E := fun e _ => e.code ≠ some .revisionConflict) fun e w herr _ => (assertInput_benign herr).1) fun _ _ _ _ => trivial) fun _ => ?_
  rw [FrontendActivation.attemptClaimed, hrp]
  refine bind (Q := fun (executed) (_) => executed = .replay release ∧ True) ?_ fun executed => given ?_
  · exact tryCatch (E := fun _ _ => False) (pure _ fun _ _ _ => ⟨rfl, trivial⟩) fun e => ⟨fun _ _ hfal => hfal.elim⟩
  intro hexe
  rw [hexe]
  refine bind (verifiedSuccessfulMutation (P := fun _ => True) facial_true.calm fun e _ _ he => he.1) fun _ => ?_
  exact pure _ fun _ _ _ => trivial

end Spec

end Supacloud.FrontendActivation
