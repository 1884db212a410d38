import Supacloud.FrontendActivation.Activation
import Supacloud.ProjectMutations.Lemmas.Soundness

/-! # 台帳と、記録と経路のあいだの不変条件 -/

namespace Supacloud.FrontendActivation

open Library List
open ProjectMutations

variable {site : Site} {w w' : World} {key : MutationKey} {checkpoint stored : FrontendActivationCheckpoint}
  {row : StoredProjectMutationRow} {p : StoredProjectMutationRow → Bool} {f : StoredProjectMutationRow → StoredProjectMutationRow}
  {active : FrontendActiveReleaseRecord} {candidate releaseId : String} {e : Failure} {release : FrontendReleaseRecord}

/-! ## 局面 -/

namespace FrontendActivationCheckpoint

def core (checkpoint : FrontendActivationCheckpoint) : FrontendActivationCheckpoint := { checkpoint with phase := .prepared }

theorem eq_of_core (h : stored.core = checkpoint.core) : stored = { checkpoint with phase := stored.phase } := by
  cases stored
  cases checkpoint
  simp only [core, mk.injEq, true_and] at h
  simp [h]

structure Consistent (checkpoint : FrontendActivationCheckpoint) : Prop where
  release : checkpoint.releaseId ≠ "absent"
  previous : ∀ previous ∈ checkpoint.previousAuthority, checkpoint.previousRoute = .release ∧
    previous.releaseId = checkpoint.expectedActiveReleaseId ∧ previous.activationId = checkpoint.expectedActivationId
  absent : checkpoint.previousAuthority = none → checkpoint.previousRoute ≠ .release ∧
    checkpoint.expectedActiveReleaseId = "absent" ∧ checkpoint.expectedActivationId = "absent"

def Fresh (checkpoint : FrontendActivationCheckpoint) : Prop :=
  checkpoint.releaseId ≠ checkpoint.expectedActiveReleaseId ∨ checkpoint.activationId ≠ checkpoint.expectedActivationId

def Desired (checkpoint : FrontendActivationCheckpoint) (active : Option FrontendActiveReleaseRecord) : Prop :=
  ∃ record, active = some record ∧ record.releaseId = checkpoint.releaseId ∧ record.activationId = checkpoint.activationId

end FrontendActivationCheckpoint

def Site.rootBefore (site : Site) (checkpoint : FrontendActivationCheckpoint) : Option String :=
  match checkpoint.previousRoute with
  | .absent => none
  | .legacy => some (legacyBuildDir site site.projectRef site.deploymentId)
  | .release =>
    checkpoint.previousAuthority.map fun previous => releaseBuildDir site site.projectRef site.deploymentId previous.releaseId

def Site.rootAfter (site : Site) (checkpoint : FrontendActivationCheckpoint) : Option String :=
  some (releaseBuildDir site site.projectRef site.deploymentId checkpoint.releaseId)

namespace World

def Before (site : Site) (checkpoint : FrontendActivationCheckpoint) (w : World) : Prop :=
  w.active = checkpoint.previousAuthority ∧ w.root = site.rootBefore checkpoint

def Between (site : Site) (checkpoint : FrontendActivationCheckpoint) (w : World) : Prop :=
  w.Before site checkpoint ∨
    (checkpoint.Fresh ∧ checkpoint.Desired w.active ∧ (w.root = site.rootBefore checkpoint ∨ w.root = site.rootAfter checkpoint))

structure Tracks (site : Site) (w : World) (key : MutationKey) (checkpoint : FrontendActivationCheckpoint) : Prop where
  deployment : checkpoint.deploymentId = site.deploymentId
  activation : checkpoint.activationId = key.mutationId
  consistent : checkpoint.Consistent
  between : w.Between site checkpoint
  begun : ∃ begun ∈ w.begun, begun.key = key ∧ begun.releaseId = checkpoint.releaseId ∧ begun.active = checkpoint.previousAuthority ∧
    begun.root = site.rootBefore checkpoint

theorem Tracks.of_core (h : w.Tracks site key checkpoint) (hcr : stored.core = checkpoint.core) : w.Tracks site key stored := by
  rw [FrontendActivationCheckpoint.eq_of_core hcr]
  exact ⟨h.deployment, h.activation, ⟨h.consistent.release, h.consistent.previous, h.consistent.absent⟩, h.between, h.begun⟩

theorem Tracks.frame (h : w.Tracks site key checkpoint) (hac : w'.active = w.active) (hrt : w'.root = w.root)
    (hbe : w.begun ⊆ w'.begun) : w'.Tracks site key checkpoint := by
  refine ⟨h.deployment, h.activation, h.consistent, ?_, ?_⟩
  · rw [Between, Before, hac, hrt]
    exact h.between
  · obtain ⟨begun, hmem, heq⟩ := h.begun
    exact ⟨begun, hbe hmem, heq⟩

def Follows (site : Site) (w : World) (key : MutationKey) (checkpoint : FrontendActivationCheckpoint) : Prop :=
  ∀ row ∈ w.rows, row.key = key → row.status.unresolved = true → site.owns row = true ∧
    ∃ stored, site.codec.decode row.checkpoint = some stored ∧ stored.core = checkpoint.core

def Open (w : World) (key : MutationKey) : Prop := ∃ row ∈ w.rows, row.key = key ∧ row.status.unresolved = true

def Committed (site : Site) (w : World) (finished : Finished) : Prop :=
  ∃ begun ∈ w.begun, begun.key = finished.key ∧
    ∃ record, finished.active = some record ∧ record.projectRef = site.projectRef ∧ record.deploymentId = site.deploymentId ∧
      record.releaseId = begun.releaseId ∧ record.activationId = finished.key.mutationId ∧ record.mutationId = finished.key.mutationId ∧
      finished.root = some (releaseBuildDir site site.projectRef site.deploymentId begun.releaseId)

def Restored (w : World) (finished : Finished) : Prop :=
  ∃ begun ∈ w.begun, begun.key = finished.key ∧ finished.active = begun.active ∧ finished.root = begun.root

structure Inv (site : Site) (w : World) : Prop where
  keys : (w.rows.map StoredProjectMutationRow.key).Nodup
  single : ∀ a ∈ w.rows, ∀ b ∈ w.rows, site.owns a = true → site.owns b = true → a.status.unresolved = true →
    b.status.unresolved = true → a = b
  tracked : ∀ row ∈ w.rows, site.owns row = true → row.status.unresolved = true →
    ∃ checkpoint, site.codec.decode row.checkpoint = some checkpoint ∧ w.Tracks site row.key checkpoint
  idle : w.Idle site → w.Agrees site
  known : ∀ claim ∈ w.claims, claim.key ∈ w.rows.map StoredProjectMutationRow.key
  claimed : ∀ claim ∈ w.claims, site.owns claim = true → ∃ checkpoint, site.codec.decode claim.checkpoint = some checkpoint ∧
    checkpoint.deploymentId = site.deploymentId ∧ w.Follows site claim.key checkpoint
  succeeded : ∀ finished ∈ w.finished, finished.status = .succeeded → w.Committed site finished
  failed : ∀ finished ∈ w.finished, finished.status = .failedTerminal → w.Restored finished

theorem Committed.mono {finished} (h : w.Committed site finished) (hbe : w.begun ⊆ w'.begun) : w'.Committed site finished := by
  obtain ⟨begun, hmem, heq⟩ := h
  exact ⟨begun, hbe hmem, heq⟩

theorem Restored.mono {finished} (h : w.Restored finished) (hbe : w.begun ⊆ w'.begun) : w'.Restored finished := by
  obtain ⟨begun, hmem, heq⟩ := h
  exact ⟨begun, hbe hmem, heq⟩

theorem Inv.frame (h : w.Inv site) (hro : w'.rows = w.rows) (hac : w'.active = w.active) (hrt : w'.root = w.root)
    (hbe : w.begun ⊆ w'.begun) (hcls : ∀ claim ∈ w'.claims, claim ∈ w.claims ∨ (claim.key ∈ w.rows.map StoredProjectMutationRow.key ∧
      (site.owns claim = true → ∃ checkpoint, site.codec.decode claim.checkpoint = some checkpoint ∧
        checkpoint.deploymentId = site.deploymentId ∧ w.Follows site claim.key checkpoint)))
    (hfi : ∀ finished ∈ w'.finished, finished ∈ w.finished ∨
      ((finished.status = .succeeded → w.Committed site finished) ∧ (finished.status = .failedTerminal → w.Restored finished))) :
    w'.Inv site where
  keys := hro ▸ h.keys
  single := hro ▸ h.single
  tracked := by
    intro row hrow how hunr
    obtain ⟨checkpoint, hde, htrs⟩ := h.tracked row (hro ▸ hrow) how hunr
    exact ⟨checkpoint, hde, htrs.frame hac hrt hbe⟩
  idle := by
    rw [Idle, hro, Agrees, hac, hrt]
    exact h.idle
  known := by
    intro claim hcl
    rw [hro]
    rcases hcls claim hcl with hold | ⟨hnew, -⟩
    · exact h.known claim hold
    · exact hnew
  claimed := by
    intro claim hcl how
    have hfos : ∀ key checkpoint, w.Follows site key checkpoint → w'.Follows site key checkpoint := by
      intro key checkpoint hfos row hrow
      exact hfos row (hro ▸ hrow)
    rcases hcls claim hcl with hold | ⟨-, hnew⟩
    · grind [h.claimed, claim]
    · grind
  succeeded := by
    intro finished hmem hsts
    rcases hfi finished hmem with hold | ⟨hnew, -⟩
    · exact (h.succeeded finished hold hsts).mono hbe
    · exact (hnew hsts).mono hbe
  failed := by
    intro finished hmem hsts
    rcases hfi finished hmem with hold | ⟨-, hnew⟩
    · exact (h.failed finished hold hsts).mono hbe
    · exact (hnew hsts).mono hbe

theorem Inv.tracks (h : w.Inv site) (hop : w.Open key) (hfos : w.Follows site key checkpoint) : w.Tracks site key checkpoint := by
  obtain ⟨row, hrow, rfl, hunr⟩ := hop
  obtain ⟨hos, stored, hst, hcr⟩ := hfos row hrow rfl hunr
  obtain ⟨checkpoint', hche, htrs⟩ := h.tracked row hrow hos hunr
  cases hst.symm.trans hche
  exact htrs.of_core hcr.symm

theorem Tracks.agrees (h : w.Tracks site key checkpoint) (hbf : w.Before site checkpoint) : w.Agrees site := by
  obtain ⟨hac, hrt⟩ := hbf
  rw [Agrees, hac, hrt, Site.rootBefore]
  cases hprs : checkpoint.previousAuthority with
  | some previous => rw [(h.consistent.previous previous hprs).1]; rfl
  | none => grind [h.consistent.absent]

/-! ## 行の書き換え -/

structure Rewrites (site : Site) (p : StoredProjectMutationRow → Bool) (f : StoredProjectMutationRow → StoredProjectMutationRow)
    (row : StoredProjectMutationRow) : Prop where
  key : (f row).key = row.key
  resourceKey : (f row).resourceKey = row.resourceKey
  unresolved : (f row).status.unresolved = true → row.status.unresolved = true
  checkpoint : site.owns row = true → (f row).status.unresolved = true → ∀ checkpoint, site.codec.decode row.checkpoint = some checkpoint →
    ∃ stored, site.codec.decode (f row).checkpoint = some stored ∧ stored.core = checkpoint.core

theorem Rewrites.owns (h : Rewrites site p f row) : site.owns (f row) = site.owns row := by
  rw [Site.owns, Site.owns, h.key, h.resourceKey]

section

variable (h : ∀ row ∈ w.rows, p row = true → Rewrites site p f row)

include h

theorem keys_rewrite : (update p f w.rows).map StoredProjectMutationRow.key = w.rows.map StoredProjectMutationRow.key := by
  rw [update, map_map]
  apply map_congr_left
  intro row hrow
  by_cases hp : p row = true
  · simp [hp, (h row hrow hp).key]
  · simp [hp]

theorem mem_rewritten {row'} (hro' : row' ∈ update p f w.rows) : ∃ row ∈ w.rows, row'.key = row.key ∧ site.owns row' = site.owns row ∧
      (row'.status.unresolved = true → row.status.unresolved = true) ∧
      (site.owns row = true → row'.status.unresolved = true → ∀ checkpoint, site.codec.decode row.checkpoint = some checkpoint →
        ∃ stored, site.codec.decode row'.checkpoint = some stored ∧ stored.core = checkpoint.core) := by
  obtain ⟨row, hrow, rfl⟩ := mem_update.mp hro'
  by_cases hp : p row = true
  · have hf := h row hrow hp
    rw [if_pos hp]
    exact ⟨row, hrow, hf.key, hf.owns, hf.unresolved, hf.checkpoint⟩
  · rw [if_neg hp]
    exact ⟨row, hrow, rfl, rfl, id, fun _ _ c hc => ⟨c, hc, rfl⟩⟩

end

theorem Follows.rewrite (h : w.Follows site key checkpoint) (hro : ∀ row ∈ w.rows, p row = true → Rewrites site p f row) :
    World.Follows site { w with rows := update p f w.rows } key checkpoint := by
  intro row' hro' hkey hunr
  obtain ⟨row, hrow, hke', hos, hba, hche⟩ := mem_rewritten hro hro'
  obtain ⟨hon', stored, hst, hcr⟩ := h row hrow (hke'.symm.trans hkey) (hba hunr)
  obtain ⟨stored', hst', hco'⟩ := hche hon' hunr stored hst
  exact ⟨hos.trans hon', stored', hst', hco'.trans hcr⟩

theorem Inv.rewrite (h : w.Inv site) (hro : ∀ row ∈ w.rows, p row = true → Rewrites site p f row)
    (hen : ∀ row ∈ w.rows, p row = true → site.owns row = true → row.status.unresolved = true → (f row).status.unresolved = false →
      w.Agrees site) : World.Inv site { w with rows := update p f w.rows } where
  keys := (keys_rewrite hro).symm ▸ h.keys
  single := by
    intro a' ha' b' hb' ha hb hua hub
    obtain ⟨a, ham, hak, hao, hau, -⟩ := mem_rewritten hro ha'
    obtain ⟨b, hbm, hbk, hbo, hbu, -⟩ := mem_rewritten hro hb'
    have hab : a = b := h.single a ham b hbm (hao ▸ ha) (hbo ▸ hb) (hau hua) (hbu hub)
    exact eq_of_key ((keys_rewrite hro).symm ▸ h.keys) ha' hb' (hak.trans ((congrArg _ hab).trans hbk.symm))
  tracked := by
    intro row' hro' how hunr
    obtain ⟨row, hrow, hkey, hos, hba, hche⟩ := mem_rewritten hro hro'
    obtain ⟨checkpoint, hde, htrs⟩ := h.tracked row hrow (hos ▸ how) (hba hunr)
    obtain ⟨stored, hst, hcr⟩ := hche (hos ▸ how) hunr checkpoint hde
    have htr' := htrs.of_core hcr
    exact ⟨stored, hst, hkey ▸ htr'.frame rfl rfl (List.Subset.refl _)⟩
  idle := by
    intro hidl
    by_cases hbf : w.Idle site
    · exact h.idle hbf
    · simp only [Idle, not_forall] at hbf
      obtain ⟨row, hrow, how, hunr⟩ := hbf
      have hun' : row.status.unresolved = true := by simpa using hunr
      have hnow : (if p row = true then f row else row) ∈ update p f w.rows := mem_update.mpr ⟨row, hrow, rfl⟩
      by_cases hp : p row = true
      · rw [if_pos hp] at hnow
        exact hen row hrow hp how hun' (hidl _ hnow ((hro row hrow hp).owns.trans how))
      · rw [if_neg hp] at hnow
        exact absurd hun' (by rw [hidl row hnow how]; exact nofun)
  known := by
    intro claim hcl
    exact (keys_rewrite hro).symm ▸ h.known claim hcl
  claimed := by
    intro claim hcl how
    obtain ⟨checkpoint, hde, hdp, hfos⟩ := h.claimed claim hcl how
    exact ⟨checkpoint, hde, hdp, hfos.rewrite hro⟩
  succeeded := h.succeeded
  failed := h.failed

theorem Inv.follows (h : w.Inv site) (hrow : row ∈ w.rows) (how : site.owns row = true)
    (hde : site.codec.decode row.checkpoint = some checkpoint) : w.Follows site row.key checkpoint := by
  intro row' hro' hkey _
  obtain rfl := eq_of_key h.keys hro' hrow hkey
  exact ⟨how, checkpoint, hde, rfl⟩

/-! ## 受け持ち -/

theorem rewrites_lease {owner token seconds} (hcla : row.claimable w.now = true)
    (hf : f row = row.lease w.now owner token seconds) : Rewrites site p f row := by
  refine ⟨?_, ?_, fun _ => claimable_unresolved hcla, fun _ _ checkpoint hde => ⟨checkpoint, ?_, rfl⟩⟩
  all_goals rw [hf]
  · rfl
  · rfl
  · exact hde

theorem rewrites_recoverable (h : w.Inv site) {leaseOwner skip tokens} :
    ∀ row ∈ w.rows, (recoverableClaims leaseOwner).matches w.now w.rows skip row = true →
      Rewrites site ((recoverableClaims leaseOwner).matches w.now w.rows skip) ((recoverableClaims leaseOwner).claim w.now tokens) row :=
  fun _ hrow hmas => rewrites_lease (recover_matches h.keys hrow hmas).2 rfl

theorem Inv.interfere (h : w.Inv site) (interference) : (w.interfere interference).Inv site := by
  cases interference with
  | elapse milliseconds => exact h.frame rfl rfl rfl (List.Subset.refl _) (fun _ => .inl) fun _ => .inl
  | claimRecoverable leaseOwner skip tokens =>
    have hro : ∀ row ∈ w.rows, (recoverableClaims leaseOwner).matches w.now w.rows skip row = true →
        Rewrites site ((recoverableClaims leaseOwner).matches w.now w.rows skip) ((recoverableClaims leaseOwner).claim w.now tokens) row :=
      rewrites_recoverable h
    have hinv := h.rewrite hro fun row _ _ _ _ hen => absurd hen (by exact nofun)
    refine hinv.frame rfl rfl rfl (List.Subset.refl _) ?_ fun _ => .inl
    intro claim hcl
    rcases mem_append.mp hcl with hnew | hold
    · obtain ⟨row, hrow, rfl⟩ := mem_map.mp hnew
      obtain ⟨hrow, hmas⟩ := mem_filter.mp hrow
      refine .inr ⟨(keys_rewrite hro).symm ▸ mem_map.mpr ⟨row, hrow, rfl⟩, fun how => ?_⟩
      have how' : site.owns row = true := (hro row hrow hmas).owns.symm.trans how
      have hunr := claimable_unresolved (recover_matches h.keys hrow hmas).2
      obtain ⟨checkpoint, hde, htrs⟩ := h.tracked row hrow how' hunr
      exact ⟨checkpoint, hde, htrs.deployment, (h.follows hrow how' hde).rewrite hro⟩
    · exact .inl hold

theorem Follows.interfere (hfos : w.Follows site key checkpoint) (h : w.Inv site) (interference) :
    (w.interfere interference).Follows site key checkpoint := by
  cases interference with
  | elapse milliseconds => exact hfos
  | claimRecoverable leaseOwner skip tokens => exact hfos.rewrite (rewrites_recoverable h)

theorem interfere_face (w : World) (interference) : (w.interfere interference).active = w.active ∧
    (w.interfere interference).root = w.root ∧ (w.interfere interference).writes = w.writes := by
  cases interference with
  | elapse milliseconds | claimRecoverable leaseOwner skip tokens => exact ⟨rfl, rfl, rfl⟩

theorem unresolved_of_holds {lease : MutationLeaseInput} (h : lease.holds w.now row = true) :
    row.key = lease.key ∧ row.status.unresolved = true := by
  obtain ⟨hkey, hru, -⟩ := holds_iff.mp h
  exact ⟨hkey, by rw [hru]; rfl⟩

theorem rewrites_checkpointed {input} (hfos : w.Follows site input.lease.key checkpoint)
    (hinp : input.checkpoint = site.codec.encode stored) (hcr : stored.core = checkpoint.core) :
    ∀ row ∈ w.rows, input.lease.holds w.now row = true →
      Rewrites site (input.lease.holds w.now) (StoredProjectMutationRow.checkpointed w.now input) row := by
  intro row hrow hhos
  obtain ⟨hkey, hunr⟩ := unresolved_of_holds hhos
  refine ⟨rfl, rfl, fun _ => hunr, fun _ _ found hfo => ⟨stored, ?_, ?_⟩⟩
  · rw [StoredProjectMutationRow.checkpointed, hinp, site.codec.decode_encode]
  · obtain ⟨-, found', hfo', hco'⟩ := hfos row hrow hkey hunr
    cases hfo.symm.trans hfo'
    exact hcr.trans hco'.symm

theorem rewrites_finished {input} : ∀ row ∈ w.rows, input.lease.holds w.now row = true →
    Rewrites site (input.lease.holds w.now) (StoredProjectMutationRow.finished w.now input) row :=
  fun _ _ hhos => ⟨rfl, rfl, fun _ => (unresolved_of_holds hhos).2, fun _ _ found hfo => ⟨found, hfo, rfl⟩⟩

end World

/-!
## 一つの文がすること
-/

variable {α β : Type} {P F : World → Prop} {Q : α → World → Prop} {E : Failure → World → Prop} {label : Statement}
  {projectRef deploymentId : String}

abbrev Spec (site : Site) (P : World → Prop) (m : Program α) (Q : α → World → Prop) (E : Failure → World → Prop) : Prop :=
  Triple (World.Inv site) (fun _ : Response => True) P m Q E

def Failure.Benign (error : Failure) : Prop := error.code ≠ some .revisionConflict ∧ error.code ≠ some .routeRejected

theorem Failure.benign_external (error) : (Failure.external error).Benign := ⟨nofun, nofun⟩

def Facial (F : World → Prop) : Prop := ∀ w w' : World, w'.active = w.active → w'.root = w.root → F w → F w'

def Calm (site : Site) (P : World → Prop) : Prop := ∀ w interference, w.Inv site → P w → P (w.interfere interference)

theorem Facial.calm (h : Facial F) : Calm site F := by
  intro w interference _ hw
  obtain ⟨hac, hrt, -⟩ := w.interfere_face interference
  exact h _ _ hac hrt hw

theorem calm_follows : Calm site fun w => w.Follows site key checkpoint := fun _ interference h hw => hw.interfere h interference

theorem Calm.and (hP : Calm site P) (hF : Calm site F) : Calm site fun w => P w ∧ F w :=
  fun w interference h hw => ⟨hP w interference h hw.1, hF w interference h hw.2⟩

theorem Calm.run (hP : Calm site P) (h : w.Inv site) (hw : P w) (interference) :
    World.Inv site (Library.run World.interfere w interference) ∧ P (Library.run World.interfere w interference) :=
  run_invariant (I := fun w => w.Inv site ∧ P w) (fun _ i hi => ⟨hi.1.interfere i, hP _ i hi.1 hi.2⟩) (And.intro h hw)

/-! ## 文の規則 -/

namespace Spec

theorem statement {act} (hact : ∀ w ω a w', w.Inv site → P w → act ω w = .ok (a, w') → w'.Inv site ∧ Q a w' ∧ ∀ error, E (.external error) w')
    (hfa : ∀ w error, P w → E (.external error) w) (her : ∀ w ω e, P w → act ω w = .error e → E e w) :
    Spec site P (statement label act) Q E := by
  refine Triple.awaitCases ?_ ?_ fun w ω e _ hw _ herr => her w ω e hw herr
  · intro w ω a w' hi hw _ hok
    obtain ⟨hi', hq, he⟩ := hact w ω a w' hi hw hok
    refine ⟨hi', hq, fun e hlo => ?_⟩
    cases hout : ω.outcome label with
    | done | failed error => rw [hout] at hlo; cases hlo
    | lost error => rw [hout] at hlo; cases hlo; exact he error
  · intro w ω e _ hw _ hfa'
    cases hout : ω.outcome label with
    | done | lost error => rw [hout] at hfa'; cases hfa'
    | failed error => rw [hout] at hfa'; cases hfa'; exact hfa w error hw

theorem effect {f : World → α × World} (hact : ∀ w, w.Inv site → P w → (f w).2.Inv site ∧ Q (f w).1 (f w).2 ∧
      ∀ error, E (.external error) (f w).2) (hfa : ∀ w error, P w → E (.external error) w) :
    Spec site P (FrontendActivation.statement label fun _ w => .ok (f w)) Q E := by
  refine Spec.statement ?_ hfa fun _ _ _ _ herr => nomatch herr
  intro w ω a w' hi hw hok
  have hf : f w = (a, w') := Except.ok.inj hok
  have hre := hact w hi hw
  rw [hf] at hre
  exact hre

theorem read {act} {R : α → World → Prop} (hact : ∀ w ω a w', act ω w = .ok (a, w') → w' = w ∧ R a w)
    (her : ∀ w ω e, act ω w = .error e → e.Benign) (hE : ∀ e w, P w → e.Benign → E e w) :
    Spec site P (FrontendActivation.statement label act) (fun a w => P w ∧ R a w) E := by
  refine Spec.statement ?_ (fun w error hw => hE _ w hw (Failure.benign_external error)) fun w ω e hw herr => hE e w hw (her w ω e herr)
  intro w ω a w' hi hw hok
  obtain ⟨rfl, hR⟩ := hact w ω a w' hok
  exact ⟨hi, ⟨hw, hR⟩, fun error => hE _ w' hw (Failure.benign_external error)⟩

theorem journal {act} (hP : Calm site P)
    (hact : ∀ w ω a w', w.Inv site → P w → act ω w = .ok (a, w') → w'.Inv site ∧ Q a w' ∧ ∀ error, E (.external error) w')
    (hfa : ∀ w error, P w → E (.external error) w) (her : ∀ w w' ω e, P w → act ω w' = .error e → E e w) :
    Spec site P (FrontendActivation.journal label act) Q E := by
  refine Spec.statement ?_ hfa fun w ω e hw herr => her w _ ω e hw herr
  intro w ω a w' hi hw hok
  obtain ⟨hi', hw'⟩ := hP.run hi hw ω.interference
  exact hact _ ω a w' hi' hw' hok

theorem checked {result : Except Failure α} (hE : ∀ e w, result = .error e → P w → E e w) :
    Spec site P (checked result) (fun a w => P w ∧ result = .ok a) E := by
  cases result with
  | ok a => exact Triple.pure a fun w _ hw => ⟨hw, rfl⟩
  | error e => exact Triple.throw e fun w _ hw => hE e w rfl hw

theorem ensure {c} [Decidable c] {error} (hE : ∀ w, ¬ c → P w → E error w) : Spec site P (ensure c error) (fun _ w => P w ∧ c) E := by
  by_cases hc : c
  · have heq : FrontendActivation.ensure c error = Pure.pure () := by simp [FrontendActivation.ensure, hc]; rfl
    rw [heq]
    exact Triple.pure () fun w _ hw => ⟨hw, hc⟩
  · have heq : FrontendActivation.ensure c error = MonadExcept.throw error := by simp [FrontendActivation.ensure, hc]; rfl
    rw [heq]
    exact Triple.throw error fun w _ hw => hE w hc hw

end Spec

/-! ## 検査の例外 -/

theorem assertReleaseId_benign (h : assertReleaseId releaseId = .error e) : e.Benign := by
  obtain ⟨-, rfl⟩ := require_eq_error.mp h
  exact ⟨by decide, by decide⟩

theorem assertFrontendIdentity_benign (h : assertFrontendIdentity projectRef deploymentId = .error e) : e.Benign := by
  simp only [assertFrontendIdentity, bind_eq_error, require_eq_error] at h
  rcases h with ⟨-, rfl⟩ | ⟨_, -, -, rfl⟩
  all_goals exact ⟨by decide, by decide⟩

theorem checkDeployment_benign {deployment} (h : checkDeployment projectRef deploymentId deployment = .error e) : e.Benign := by
  simp only [checkDeployment, bind_eq_error, require_eq_error, pure_ne_error] at h
  rcases h with h | ⟨_, -, ⟨-, rfl⟩ | ⟨_, -, h⟩⟩
  · exact assertFrontendIdentity_benign h
  · exact ⟨by decide, by decide⟩
  · exact h.elim

theorem checkReleaseRecord_benign (h : checkReleaseRecord projectRef deploymentId releaseId release = .error e) : e.Benign := by
  simp only [checkReleaseRecord, parseReleaseRecord, bind_eq_error, require_eq_error, pure_ne_error] at h
  rcases h with h | ⟨_, -, (⟨-, rfl⟩ | ⟨_, -, h⟩) | ⟨_, -, ⟨-, rfl⟩ | ⟨_, -, h⟩⟩⟩
  · exact assertReleaseId_benign h
  · exact ⟨by decide, by decide⟩
  · exact h.elim
  · exact ⟨by decide, by decide⟩
  · exact h.elim

theorem parseActiveRelease_benign (h : parseActiveRelease active = .error e) : e.Benign := by
  simp only [parseActiveRelease, bind_eq_error, require_eq_error, pure_ne_error] at h
  rcases h with ⟨-, rfl⟩ | ⟨_, -, h⟩
  · exact ⟨by decide, by decide⟩
  · exact h.elim

theorem checkActiveRelease_benign (h : checkActiveRelease projectRef deploymentId release active = .error e) : e.Benign := by
  simp only [checkActiveRelease, bind_eq_error, require_eq_error, pure_ne_error] at h
  rcases h with h | ⟨_, -, ⟨-, rfl⟩ | ⟨_, -, h | ⟨_, -, ⟨-, rfl⟩ | ⟨_, -, h⟩⟩⟩⟩
  · exact parseActiveRelease_benign h
  · exact ⟨by decide, by decide⟩
  · exact checkReleaseRecord_benign h
  · exact ⟨by decide, by decide⟩
  · exact h.elim

theorem parseActivationCheckpoint_benign (h : parseActivationCheckpoint site.codec candidate = .error e) : e.Benign := by
  have hco : e = checkpointInvalid := by grind [parseActivationCheckpoint]
  rw [hco]
  exact ⟨by decide, by decide⟩

theorem assertCheckpoint_benign {input} (h : assertCheckpoint input checkpoint = .error e) : e.Benign := by
  simp only [assertCheckpoint, assertActivationCheckpointIdentity, bind_eq_error, require_eq_error] at h
  rcases h with ⟨-, rfl⟩ | ⟨_, -, -, rfl⟩
  all_goals exact ⟨by decide, by decide⟩

theorem fetch_benign {option : Option α} {error} (h : fetch option error = .error e) (her : error.Benign) : e.Benign := by
  cases option with
  | some a => cases h
  | none => cases h; exact her

theorem successfulMutation_benign {input mutation} (h : successfulMutation site input release mutation = .error e) : e.Benign := by
  have hind : successJournalInvalid.Benign := ⟨by decide, by decide⟩
  simp only [successfulMutation, successfulCheckpoint, assertActivationCheckpointIdentity, bind_eq_error, require_eq_error, pure_ne_error] at h
  rcases h with h | ⟨_, -, ⟨-, rfl⟩ | ⟨_, -, h | ⟨_, -, h | ⟨_, -, ⟨-, rfl⟩ | ⟨_, -, ⟨-, rfl⟩ | ⟨_, -, h⟩⟩⟩⟩⟩⟩
  · exact fetch_benign h hind
  · exact hind
  · exact parseActivationCheckpoint_benign h
  · exact fetch_benign h hind
  · exact ⟨by decide, by decide⟩
  · exact hind
  · exact h.elim

theorem parseActivationCheckpoint_some (h : parseActivationCheckpoint site.codec candidate = .ok (some checkpoint)) :
    site.codec.decode candidate = some checkpoint ∧ checkpointValid checkpoint = true := by
  rw [parseActivationCheckpoint] at h
  split at h
  · cases h
  · grind

theorem parseActivationCheckpoint_none (h : parseActivationCheckpoint site.codec candidate = .ok none) :
    site.codec.decode candidate = none := by
  rw [parseActivationCheckpoint] at h
  split at h
  · rename_i hem
    rw [hem, site.codec.decode_empty]
  · split at h
    · split at h <;> cases h
    · cases h

/-! ## 置き場と関門 -/

theorem isReleaseId_ne_absent (h : isReleaseId releaseId = true) : releaseId ≠ "absent" := by
  rintro rfl
  exact absurd h (by decide)

theorem checkReleaseRecord_ok {metadata} (h : checkReleaseRecord projectRef deploymentId releaseId release = .ok metadata) :
    metadata.releaseId = releaseId ∧ releaseId ≠ "absent" := by
  simp only [checkReleaseRecord, assertReleaseId, bind_eq_ok, require_eq_ok, pure_eq_ok] at h
  obtain ⟨_, hid, found, -, _, ⟨-, -, hrl⟩, rfl⟩ := h
  exact ⟨hrl, isReleaseId_ne_absent hid⟩

theorem checkActiveRelease_ok {found}
    (h : checkActiveRelease projectRef deploymentId release active = .ok found) : found = active ∧ active.activationId = active.mutationId := by
  simp only [checkActiveRelease, parseActiveRelease, bind_eq_ok, require_eq_ok, pure_eq_ok] at h
  obtain ⟨parsed, ⟨_, hva, rfl⟩, _, -, _, -, _, -, rfl⟩ := h
  exact ⟨rfl, hva.2.2.2.2.2⟩

namespace Spec

section

variable (hE : ∀ e w, P w → e.Benign → E e w)

include hE

theorem deployment : Spec site P (Storage.deployment projectRef deploymentId)
    (fun deployment w => P w ∧ deployment.projectRef = projectRef ∧ deployment.id = deploymentId) E := by
  refine Spec.read (R := fun (deployment : FrontendDeployment) _ => deployment.projectRef = projectRef ∧ deployment.id = deploymentId) ?_ ?_ hE
  · intro w ω deployment w' hok
    cases hch : checkDeployment projectRef deploymentId ω.deployment with
    | error e => rw [hch] at hok; cases hok
    | ok found =>
      rw [hch] at hok
      cases hok
      simp only [checkDeployment, bind_eq_ok, require_eq_ok, pure_eq_ok] at hch
      obtain ⟨_, -, _, hids, rfl⟩ := hch
      exact ⟨rfl, hids⟩
  · intro w ω e herr
    cases hch : checkDeployment projectRef deploymentId ω.deployment with
    | error e' => rw [hch] at herr; cases herr; exact checkDeployment_benign hch
    | ok found => rw [hch] at herr; cases herr

theorem releaseRecord : Spec site P (Storage.releaseRecord projectRef deploymentId releaseId)
      (fun release w => P w ∧ release.releaseId = releaseId ∧ releaseId ≠ "absent") E := by
  refine Spec.read (R := fun (release : FrontendReleaseRecord) _ => release.releaseId = releaseId ∧ releaseId ≠ "absent") ?_ ?_ hE
  · intro w ω release w' hok
    cases hch : checkReleaseRecord projectRef deploymentId releaseId ω.release with
    | error e => rw [hch] at hok; cases hok
    | ok found => rw [hch] at hok; cases hok; exact ⟨rfl, checkReleaseRecord_ok hch⟩
  · intro w ω e herr
    cases hch : checkReleaseRecord projectRef deploymentId releaseId ω.release with
    | error e' => rw [hch] at herr; cases herr; exact checkReleaseRecord_benign hch
    | ok found => rw [hch] at herr; cases herr

theorem activeRelease : Spec site P (Storage.activeRelease projectRef deploymentId)
    (fun active w => P w ∧ active = w.active ∧ ∀ record ∈ active, record.activationId = record.mutationId) E := by
  refine Spec.read (R := fun (active) w => active = w.active ∧ ∀ record ∈ active, record.activationId = record.mutationId) ?_ ?_ hE
  · intro w ω active w' hok
    cases hac : w.active with
    | none =>
      simp only [hac] at hok
      cases hok
      exact ⟨rfl, rfl, nofun⟩
    | some record =>
      simp only [hac] at hok
      cases hch : checkActiveRelease projectRef deploymentId ω.release record with
      | error e => rw [hch] at hok; cases hok
      | ok found =>
        rw [hch] at hok
        cases hok
        obtain ⟨rfl, hids⟩ := checkActiveRelease_ok hch
        refine ⟨rfl, rfl, ?_⟩
        rintro _ ⟨⟩
        exact hids
  · intro w ω e herr
    cases hac : w.active with
    | none => simp only [hac] at herr; cases herr
    | some record =>
      simp only [hac] at herr
      cases hch : checkActiveRelease projectRef deploymentId ω.release record with
      | error e' => rw [hch] at herr; cases herr; exact checkActiveRelease_benign hch
      | ok found => rw [hch] at herr; cases herr

theorem readFrontendStaticRoot : Spec site P Gateway.readFrontendStaticRoot (fun root w => P w ∧ root = w.root) E := by
  refine Spec.read (R := fun root w => root = w.root) ?_ nofun hE
  intro w ω root w' hok
  cases hok
  exact ⟨rfl, rfl⟩

theorem idle : Spec site P (FrontendActivation.statement label fun _ w => .ok ((), w)) (fun _ w => P w) E := by
  refine Triple.post (Spec.read (R := fun _ _ => True) ?_ nofun hE) fun _ _ _ hw => hw.1
  intro w ω a w' hok
  cases hok
  exact ⟨rfl, trivial⟩

end

end Spec

end Supacloud.FrontendActivation
