import Supacloud.FrontendActivation.Lemmas.Execution

/-!
# 登録と受け持ち
-/

namespace Supacloud.FrontendActivation

open Library World List Bool Option
open ProjectMutations

variable {site : Site} {w : World} {checkpoint : FrontendActivationCheckpoint} {input : ActivateFrontendReleaseInput}
  {begin : BeginProjectMutationInput} {claiming : ClaimProjectMutationInput} {rows rows' : Journal} {result : BegunAndClaimed}
  {initialCheckpoint : Option FrontendActivationCheckpoint} {now : Timestamp}

structure Prepared (site : Site) (input : ActivateFrontendReleaseInput) (w : World) (checkpoint : FrontendActivationCheckpoint) : Prop where
  serves : Serves site input checkpoint
  deploymentId : checkpoint.deploymentId = site.deploymentId
  consistent : checkpoint.Consistent
  before : w.Before site checkpoint

theorem Prepared.frame (h : Prepared site input w checkpoint) {w'} (hact : w'.active = w.active) (hrt : w'.root = w.root) :
    Prepared site input w' checkpoint := by
  refine ⟨h.serves, h.deploymentId, h.consistent, ?_⟩
  exact facial_before w w' hact hrt h.before

/-! ## 新しい行 -/

def startedRow (now : Timestamp) (begin : BeginProjectMutationInput) (claiming : ClaimProjectMutationInput) (checkpoint : String) :
    StoredProjectMutationRow :=
  let leased := claiming.claim now (insertedRow now begin)
  leased.checkpointed now
    { lease := { key := claiming.key, leaseToken := claiming.leaseToken, fencingEpoch := leased.fencingEpoch }
      checkpoint, leaseSeconds := claiming.leaseSeconds, recoveryNotBefore := none }

variable {begun : BeginProjectMutationResult} {mutation : StoredProjectMutationRow} {row : StoredProjectMutationRow}

theorem update_append {p f} (hro : ∀ row ∈ rows, p row = false) (hp : p row = true) :
    updateReturning (rows ++ [row]) p f = (some (f row), rows ++ [f row]) := by
  rw [updateReturning, update, map_append, find?_append, find?_eq_none.mpr fun row hrow => by rw [hro row hrow]; decide]
  have hsa : rows.map (fun row => if p row = true then f row else row) = rows := by
    refine (map_congr_left fun row hrow => ?_).trans (map_id rows)
    rw [if_neg (by rw [hro row hrow]; decide)]
    rfl
  simp [hsa, hp]

variable {e : Failure} {initial : Option String}

section

variable (hkey : begin.key = claiming.key) (hses : leaseSecondsValid claiming.leaseSeconds = true) (hfr : ∀ row ∈ rows, row.key ≠ claiming.key)

include hkey hses hfr

theorem claim_inserted : claimOrResumeProjectMutation now (rows ++ [insertedRow now begin]) claiming =
      (.ok (.claimed (claiming.claim now (insertedRow now begin))), rows ++ [claiming.claim now (insertedRow now begin)]) := by
  have hot : ∀ row ∈ rows, claiming.matches now row = false := by
    intro row hrow
    simp [ClaimProjectMutationInput.matches, hfr row hrow]
  have hind : claiming.matches now (insertedRow now begin) = true := by
    simp [ClaimProjectMutationInput.matches, hses, StoredProjectMutationRow.claimable, insertedRow, hkey, maxFencingEpoch]
  rw [claimOrResumeProjectMutation, if_pos hses, update_append hot hind]

theorem checkpoint_inserted (checkpoint) : checkpointProjectMutation now (rows ++ [claiming.claim now (insertedRow now begin)])
      { lease := { key := claiming.key, leaseToken := claiming.leaseToken
                   fencingEpoch := (claiming.claim now (insertedRow now begin)).fencingEpoch }
        checkpoint, leaseSeconds := claiming.leaseSeconds, recoveryNotBefore := none } =
      (some (startedRow now begin claiming checkpoint), rows ++ [startedRow now begin claiming checkpoint]) := by
  rw [checkpointProjectMutation, if_pos hses, update_append]
  · rfl
  · intro row hrow
    simp [MutationLeaseInput.holds, hfr row hrow]
  · simp only [leaseSecondsValid, and_eq_true, decide_eq_true_eq] at hses
    refine holds_iff.mpr ⟨hkey, rfl, rfl, rfl, ?_⟩
    simp only [StoredProjectMutationRow.leaseActive, ClaimProjectMutationInput.claim, StoredProjectMutationRow.lease, any_some,
      decide_eq_true_eq]
    exact Nat.lt_add_of_pos_right (Nat.mul_pos hses.1 (by decide))

theorem claimBegun_started {begun}
    (h : claimBegun now begun true (rows ++ [insertedRow now begin]) claiming initial = .ok (result, rows')) :
    ∃ checkpoint, initial = some checkpoint ∧ rows' = rows ++ [startedRow now begin claiming checkpoint] ∧ result.begun = begun ∧
      ∀ mutation, result.claimed = some (.claimed mutation) → mutation.checkpoint = checkpoint := by
  rw [claimBegun, claim_inserted hkey hses hfr] at h
  dsimp only at h
  rw [if_pos rfl] at h
  cases initial with
  | none => cases h
  | some checkpoint =>
    dsimp only at h
    rw [checkpoint_inserted hkey hses hfr checkpoint] at h
    cases h
    refine ⟨checkpoint, rfl, rfl, rfl, fun mutation hmu => ?_⟩
    cases hmu
    rfl

end

theorem claimBegun_replayed (h : claimBegun now begun false rows claiming initial = .ok (result, rows')) :
    (rows' = rows ∨ rows' = update (claiming.matches now) (claiming.claim now) rows) ∧ result.begun = begun ∧
      ∀ mutation, result.claimed = some (.claimed mutation) →
        ∃ row ∈ rows, row.key = claiming.key ∧ row.status.unresolved = true ∧ mutation.checkpoint = row.checkpoint := by
  obtain ⟨hro, hcla⟩ := claim_spec now rows claiming
  rw [claimBegun] at h
  cases hcl : claimOrResumeProjectMutation now rows claiming with
  | mk outcome claimedRows =>
    rw [hcl] at h hro hcla
    cases outcome with
    | error message => cases h
    | ok claimed => grind

theorem begin_refused (hins : insertProjectMutation now rows begin = (none, rows)) :
    ∃ outcome, beginProjectMutation now rows begin = (outcome, rows) ∧ (∀ mutation, outcome ≠ .ok (.started mutation)) ∧
      ∀ mutation, outcome = .ok (.replay mutation) → mutation ∈ rows ∧ mutation.key = begin.key ∧ mutation.resourceKey = begin.resourceKey := by
  rw [beginProjectMutation, hins]
  dsimp only
  cases hfi : rows.find begin.key with
  | none =>
    dsimp only
    cases begin.resourceKey.bind (activeResourceMutation rows begin.key.projectRef) with
    | none | some blocker => exact ⟨_, rfl, by simp, by simp⟩
  | some existing =>
    refine ⟨_, rfl, fun mutation h => ?_, fun mutation h => ?_⟩
    · rw [existingMutationResult] at h
      split at h
      · cases h
      · split at h <;> cases h
    · grind [existingMutationResult, find_mem, find_key]

theorem beginAndClaim_spec (hkey : begin.key = claiming.key) (hses : leaseSecondsValid claiming.leaseSeconds = true)
    (hn : (rows.map StoredProjectMutationRow.key).Nodup) (h : beginAndClaim now rows begin claiming initial = .ok (result, rows')) :
    (∃ mutation checkpoint, result.begun = .started mutation ∧ initial = some checkpoint ∧
        rows' = rows ++ [startedRow now begin claiming checkpoint] ∧ (∀ row ∈ rows, row.key ≠ claiming.key) ∧
        (∀ resourceKey, begin.resourceKey = some resourceKey → ∀ row ∈ rows, blocks begin.key.projectRef resourceKey row = false) ∧
        ∀ mutation, result.claimed = some (.claimed mutation) → mutation.checkpoint = checkpoint) ∨
      ((∀ mutation, result.begun ≠ .started mutation) ∧ (rows' = rows ∨ rows' = update (claiming.matches now) (claiming.claim now) rows) ∧
        ∀ mutation, result.claimed = some (.claimed mutation) → ∃ row ∈ rows, row.key = claiming.key ∧ row.resourceKey = begin.resourceKey ∧
          row.status.unresolved = true ∧ mutation.checkpoint = row.checkpoint) := by
  rw [beginAndClaim] at h
  rcases insert_spec now rows begin with hins | ⟨hins, hfr, hbls⟩
  · right
    obtain ⟨outcome, hou, hsta, hrep⟩ := begin_refused hins
    rw [hou] at h
    cases outcome with
    | error message => cases h
    | ok begun =>
      cases begun with
      | started mutation => exact absurd rfl (hsta mutation)
      | replay existing => grind [→ claimBegun_replayed, → eq_of_key]
      | fingerprintConflict | principalConflict | resourceBusy mutationId status => cases h; exact ⟨fun _ h => (nomatch h), .inl rfl, fun _ h => nomatch h⟩
  · grind [beginProjectMutation, find_none, claimBegun_started]

theorem claimBegun_error {started} (h : claimBegun now begun started rows claiming initial = .error e) : ∃ message, e = .plain message := by
  rw [claimBegun] at h
  split at h
  · cases h; exact ⟨_, rfl⟩
  · grind
  · cases h

theorem beginAndClaim_error (h : beginAndClaim now rows begin claiming initial = .error e) : ∃ message, e = .plain message := by
  rw [beginAndClaim] at h
  split at h
  · cases h; exact ⟨_, rfl⟩
  · exact claimBegun_error h
  · split at h
    · cases h
    · exact claimBegun_error h
  · cases h

namespace World

theorem Inv.start (h : w.Inv site) (how : site.owns row = true) (hnew : ∀ old ∈ w.rows, old.key ≠ row.key) (hidl : w.Idle site)
    (hunr : row.status.unresolved = true) (hdc : site.codec.decode row.checkpoint = some checkpoint)
    (hpr : Prepared site input w checkpoint) (hac : checkpoint.activationId = row.key.mutationId) {begun}
    (hbe : begun = { key := row.key, releaseId := checkpoint.releaseId, active := w.active, root := w.root }) :
    Inv site { w with rows := w.rows ++ [row], begun := begun :: w.begun } where
  keys := by
    rw [map_append, nodup_append]
    refine ⟨h.keys, nodup_singleton _, ?_⟩
    rintro key hkey key' hke' rfl
    obtain ⟨old, hold, rfl⟩ := mem_map.mp hkey
    exact hnew old hold (mem_singleton.mp hke')
  single := by
    intro a ha b hb hao hbo hau hbu
    have hon : ∀ a ∈ w.rows ++ [row], site.owns a = true → a.status.unresolved = true → a = row := by
      intro a ha hao hau
      rcases mem_append.mp ha with hold | hrow
      · rw [hidl a hold hao] at hau
        cases hau
      · exact mem_singleton.mp hrow
    exact (hon a ha hao hau).trans (hon b hb hbo hbu).symm
  tracked := by
    intro a ha hao hau
    rcases mem_append.mp ha with hold | hrow
    · rw [hidl a hold hao] at hau
      cases hau
    · obtain rfl := mem_singleton.mp hrow
      refine ⟨checkpoint, hdc, hpr.deploymentId, hac, hpr.consistent, .inl hpr.before, begun, mem_cons_self, ?_⟩
      rw [hbe]
      exact ⟨rfl, rfl, hpr.before.1, hpr.before.2⟩
  idle := by
    intro hnow
    have hen := hnow row (mem_append_right _ mem_cons_self) how
    rw [hunr] at hen
    cases hen
  known := by
    intro claim hcl
    rw [map_append]
    exact mem_append_left _ (h.known claim hcl)
  claimed := by
    intro claim hcl hco
    obtain ⟨stored, hsto, hde, hfos⟩ := h.claimed claim hcl hco
    refine ⟨stored, hsto, hde, fun a ha hkey hau => ?_⟩
    rcases mem_append.mp ha with hold | hrow
    · exact hfos a hold hkey hau
    · obtain rfl := mem_singleton.mp hrow
      obtain ⟨old, hold, hsa⟩ := mem_map.mp (h.known claim hcl)
      exact absurd (hsa.trans hkey.symm) (hnew old hold)
  succeeded := fun finished hmem hsts => (h.succeeded finished hmem hsts).mono (subset_cons_self _ _)
  failed := fun finished hmem hsts => (h.failed finished hmem hsts).mono (subset_cons_self _ _)

end World

theorem owns_of_accepts (hacs : site.accepts input = true) (hkey : row.key = mutationKey input)
    (hrs : row.resourceKey = (beginInput site input).resourceKey) : site.owns row = true := by
  simp only [Site.accepts, and_eq_true, decide_eq_true_eq] at hacs
  simp [Site.owns, hkey, hrs, mutationKey, beginInput, hacs.1, hacs.2]

theorem World.Inv.beginAndClaim (h : w.Inv site) (hacs : site.accepts input = true)
    (hpr : ∀ checkpoint ∈ initialCheckpoint, Prepared site input w checkpoint) (hkey : claiming.key = mutationKey input)
    (hses : leaseSecondsValid claiming.leaseSeconds = true)
    (hok : FrontendActivation.beginAndClaim w.now w.rows (beginInput site input) claiming (initialCheckpoint.map site.codec.encode) =
      .ok (result, rows')) : Inv site { w.noteBegun input result.begun with rows := rows' } ∧
      ∀ mutation, result.claimed = some (.claimed mutation) → ∃ checkpoint, site.codec.decode mutation.checkpoint = some checkpoint ∧
        Follows site { w.noteBegun input result.begun with rows := rows' } (mutationKey input) checkpoint := by
  rcases beginAndClaim_spec hkey.symm hses h.keys hok with
    ⟨started, encoded, hbe, hini, hro, hnew, hbls, hcla⟩ | ⟨hbe, hro, hcla⟩
  · obtain ⟨checkpoint, hmem, henc⟩ := map_eq_some_iff.mp hini
    have hrow : site.owns (startedRow w.now (beginInput site input) claiming encoded) = true := owns_of_accepts hacs rfl rfl
    have hdc : site.codec.decode encoded = some checkpoint := henc ▸ site.codec.decode_encode checkpoint
    have hidl : w.Idle site := by
      intro row hrow how
      have hfr := hbls _ rfl row hrow
      simp only [Site.accepts, and_eq_true, decide_eq_true_eq] at hacs
      simp only [Site.owns, and_eq_true, decide_eq_true_eq] at how
      simpa [blocks, beginInput, mutationKey, hacs.1, hacs.2, how.1, how.2] using hfr
    have hst := h.start hrow (fun old hold hsa => hnew old hold (hsa.trans hkey.symm)) hidl rfl hdc (hpr checkpoint hmem)
      (hpr checkpoint hmem).serves.activationId rfl
    rw [hbe, hro]
    have hre : checkpoint.releaseId = input.releaseId := (hpr checkpoint hmem).serves.releaseId
    rw [hre] at hst
    refine ⟨hst, fun mutation hmu => ⟨checkpoint, (hcla mutation hmu).symm ▸ hdc, ?_⟩⟩
    exact hst.follows (mem_append_right _ mem_cons_self) hrow hdc
  · have hsa : w.noteBegun input result.begun = w := by
      cases hres : result.begun with
      | started mutation => exact absurd hres (hbe mutation)
      | replay mutation | fingerprintConflict | principalConflict | resourceBusy mutationId status => rfl
    rw [hsa]
    have hle : ∀ row ∈ w.rows, claiming.matches w.now row = true →
        Rewrites site (claiming.matches w.now) (claiming.claim w.now) row :=
      fun row _ hmas => rewrites_lease (claim_matches hmas).2 rfl
    have hfos : ∀ mutation, result.claimed = some (.claimed mutation) → ∃ checkpoint,
        site.codec.decode mutation.checkpoint = some checkpoint ∧ w.Follows site (mutationKey input) checkpoint := by
      intro mutation hmu
      obtain ⟨row, hrow, hrw, hrs, hunr, hch⟩ := hcla mutation hmu
      have how := owns_of_accepts hacs (hrw.trans hkey) hrs
      obtain ⟨checkpoint, hdc, -⟩ := h.tracked row hrow how hunr
      exact ⟨checkpoint, hch ▸ hdc, (hrw.trans hkey) ▸ h.follows hrow how hdc⟩
    rcases hro with hro | hro
    · rw [hro]
      exact ⟨h, hfos⟩
    · rw [hro]
      refine ⟨h.rewrite hle fun row _ _ _ _ hen => (Bool.false_ne_true hen.symm).elim, fun mutation hmu => ?_⟩
      obtain ⟨checkpoint, hdc, hfo⟩ := hfos mutation hmu
      exact ⟨checkpoint, hdc, hfo.rewrite hle⟩

theorem calm_prepared : Calm site fun w => ∀ checkpoint ∈ initialCheckpoint, Prepared site input w checkpoint := by
  refine Facial.calm ?_
  exact fun w w' hact hrt h checkpoint hmem => (h checkpoint hmem).frame hact hrt

theorem Spec.beginAndClaim (hacs : site.accepts input = true) :
    Spec site (fun w => ∀ checkpoint ∈ initialCheckpoint, Prepared site input w checkpoint)
      (Mutations.beginAndClaim site input initialCheckpoint)
      (fun result w => ∀ mutation, result.2.claimed = some (.claimed mutation) → ∃ checkpoint,
        site.codec.decode mutation.checkpoint = some checkpoint ∧ w.Follows site (mutationKey input) checkpoint)
      fun e _ => e.Benign := by
  refine Spec.journal calm_prepared ?_ (fun _ error _ => Failure.benign_external error) ?_
  · rintro w ω ⟨token, result⟩ w' hi hpr hok
    cases hbe : FrontendActivation.beginAndClaim w.now w.rows (beginInput site input)
        { key := mutationKey input, leaseOwner := ω.leaseOwner, leaseToken := ω.leaseToken, leaseSeconds := mutationLeaseSeconds }
        (initialCheckpoint.map site.codec.encode) with
    | error e => rw [hbe] at hok; cases hok
    | ok claimed =>
      rw [hbe] at hok
      cases hok
      obtain ⟨hinv, hfos⟩ := hi.beginAndClaim hacs hpr rfl rfl hbe
      exact ⟨hinv, hfos, fun error => Failure.benign_external error⟩
  · intro w w' ω e _ herr
    cases hbe : FrontendActivation.beginAndClaim w'.now w'.rows (beginInput site input)
        { key := mutationKey input, leaseOwner := ω.leaseOwner, leaseToken := ω.leaseToken, leaseSeconds := mutationLeaseSeconds }
        (initialCheckpoint.map site.codec.encode) with
    | error e' =>
      rw [hbe] at herr
      cases herr
      obtain ⟨message, rfl⟩ := beginAndClaim_error hbe
      exact ⟨nofun, nofun⟩
    | ok claimed => rw [hbe] at herr; cases herr

/-! ## 受け持ちの読み取り -/

theorem replayedClaim_spec {claim} (h : replayedClaim site mutation = .ok claim) : claim.replayed = true := by
  simp only [replayedClaim, bind_eq_ok, pure_eq_ok] at h
  obtain ⟨_, -, rfl⟩ := h
  rfl

variable {leaseToken : String}

theorem claimedActivation_spec {claimed preparedNow claim} (h : claimedActivation site input leaseToken preparedNow claimed = .ok claim) :
    claim.replayed = true ∨ (claim.replayed = false ∧ ∃ mutation, claimed = some (.claimed mutation) ∧
      parseActivationCheckpoint site.codec mutation.checkpoint = .ok claim.checkpoint ∧
      ∀ checkpoint ∈ claim.checkpoint, checkpoint.releaseId = input.releaseId ∧ checkpoint.activationId = input.mutationId) := by
  rw [claimedActivation.eq_def] at h
  split at h
  · cases h
  · cases h
  · cases h
  · split at h
    · exact .inl (replayedClaim_spec h)
    · cases h
  · rename_i mutation
    simp only [bind_eq_ok, pure_eq_ok] at h
    obtain ⟨checkpoint, hpa, _, hass, rfl⟩ := h
    refine .inr ⟨rfl, mutation, rfl, hpa, fun found hfn => ?_⟩
    cases hfn
    simp only [elim_some, assertCheckpoint, checkpointMatchesInput, bind_eq_ok, require_eq_ok, and_eq_true, decide_eq_true_eq]
      at hass
    obtain ⟨_, -, hmas⟩ := hass
    exact ⟨hmas.1.1.1.2, hmas.1.2⟩

theorem interpretClaim_spec {claim} (h : interpretClaim site input leaseToken result = .ok claim) :
    claim.replayed = true ∨ (claim.replayed = false ∧ ∃ mutation, result.claimed = some (.claimed mutation) ∧
      parseActivationCheckpoint site.codec mutation.checkpoint = .ok claim.checkpoint ∧
      ∀ checkpoint ∈ claim.checkpoint, checkpoint.releaseId = input.releaseId ∧ checkpoint.activationId = input.mutationId) := by
  rw [interpretClaim] at h
  split at h
  · cases h
  · cases h
  · cases h
  · grind [replayedClaim_spec, claimedActivation_spec]
  · exact claimedActivation_spec h

theorem replayedClaim_benign (h : replayedClaim site mutation = .error e) : e.Benign := by
  simp only [replayedClaim, bind_eq_error, pure_ne_error] at h
  rcases h with h | ⟨_, -, h⟩
  · exact parseActivationCheckpoint_benign h
  · exact h.elim

theorem claimedActivation_benign {claimed preparedNow} (h : claimedActivation site input leaseToken preparedNow claimed = .error e) : e.Benign := by
  rw [claimedActivation.eq_def] at h
  split at h
  · cases h; exact ⟨by decide, by decide⟩
  · cases h; exact ⟨by decide, by decide⟩
  · cases h; exact ⟨by decide, by decide⟩
  · split at h
    · exact replayedClaim_benign h
    · cases h; exact ⟨by decide, by decide⟩
  · simp only [bind_eq_error, pure_ne_error] at h
    rcases h with h | ⟨checkpoint, -, h | ⟨_, -, h⟩⟩
    · exact parseActivationCheckpoint_benign h
    · cases checkpoint with
      | none => cases h
      | some checkpoint => exact assertCheckpoint_benign h
    · exact h.elim

theorem interpretClaim_benign (h : interpretClaim site input leaseToken result = .error e) : e.Benign := by
  rw [interpretClaim] at h
  split at h
  · cases h; exact ⟨by decide, by decide⟩
  · cases h; exact ⟨by decide, by decide⟩
  · cases h; exact ⟨by decide, by decide⟩
  · split at h
    · exact replayedClaim_benign h
    · split at h
      · cases h; exact ⟨by decide, by decide⟩
      · split at h
        · cases h; exact ⟨by decide, by decide⟩
        · exact claimedActivation_benign h
  · exact claimedActivation_benign h

def Claimed (site : Site) (input : ActivateFrontendReleaseInput) (claim : ClaimedActivation) (w : World) : Prop :=
  claim.replayed = true ∨ (claim.replayed = false ∧ ∃ checkpoint, claim.checkpoint = some checkpoint ∧ Serves site input checkpoint ∧
    w.Follows site (mutationKey input) checkpoint)

theorem Spec.claim (hacs : site.accepts input = true) :
    Spec site (fun w => ∀ checkpoint ∈ initialCheckpoint, Prepared site input w checkpoint) (claim site input initialCheckpoint)
      (fun claim w => Claimed site input claim w) fun e _ => e.Benign := by
  refine Triple.bind (Spec.beginAndClaim hacs) fun result => ?_
  refine Triple.post (Spec.checked fun e w herr _ => interpretClaim_benign herr) ?_
  rintro claim w - ⟨hfos, hcl⟩
  rcases interpretClaim_spec hcl with hrp | ⟨hrp, mutation, hmu, hpa, hids⟩
  · exact .inl hrp
  · obtain ⟨checkpoint, hdc, hfo⟩ := hfos mutation hmu
    refine .inr ⟨hrp, checkpoint, ?_⟩
    cases hfn : claim.checkpoint with
    | none =>
      rw [hfn] at hpa
      cases hdc.symm.trans (parseActivationCheckpoint_none hpa)
    | some found =>
      rw [hfn] at hpa
      cases hdc.symm.trans (parseActivationCheckpoint_some hpa).1
      simp only [Site.accepts, and_eq_true, decide_eq_true_eq] at hacs
      obtain ⟨hre, hac⟩ := hids checkpoint hfn
      exact ⟨rfl, ⟨hacs.1, hacs.2, hre, hac⟩, hfo⟩

end Supacloud.FrontendActivation

/-!
## 配備の走行
-/

namespace Supacloud.FrontendActivation

open Library
open ProjectMutations

variable {site : Site} {w w₀ : World} {checkpoint : FrontendActivationCheckpoint} {input : ActivateFrontendReleaseInput}

def World.Untouched (w₀ w : World) : Prop := w.active = w₀.active ∧ w.root = w₀.root ∧ w.writes = w₀.writes

theorem calm_untouched : Calm site (World.Untouched w₀) := by
  rintro w interference - ⟨hact, hrt, hwrs⟩
  obtain ⟨hac', hro', hwr'⟩ := w.interfere_face interference
  exact ⟨hac'.trans hact, hro'.trans hrt, hwr'.trans hwrs⟩

def Failure.Harmless (w₀ : World) (error : Failure) (w : World) : Prop := error.code = some .revisionConflict → World.Untouched w₀ w

theorem Failure.Benign.harmless {error : Failure} (h : error.Benign) (w) : error.Harmless w₀ w :=
  fun hcn => absurd hcn h.1

/-! ## はじめの `checkpoint` -/

theorem routeKind_benign {active root} (h : routeKind site input active root = .error e) : e.Benign := by
  have hmi : e = readbackMismatch := by
    rw [routeKind.eq_def] at h
    split at h
    · split at h
      · cases h
      · exact (Except.error.inj h).symm
    · split at h
      · cases h
      · split at h
        · cases h
        · exact (Except.error.inj h).symm
  rw [hmi]
  exact ⟨by decide, by decide⟩

theorem prepared_of_routeKind (hacs : site.accepts input = true) (hab : input.releaseId ≠ "absent") {root}
    (hact : w.active = checkpoint.previousAuthority) (hrt : w.root = root)
    (hki : routeKind site input checkpoint.previousAuthority root = .ok checkpoint.previousRoute)
    (hex : Storage.releaseIdOf checkpoint.previousAuthority = checkpoint.expectedActiveReleaseId ∧
      Storage.activationIdOf checkpoint.previousAuthority = checkpoint.expectedActivationId)
    (hde : checkpoint.deploymentId = input.deploymentId) (hre : checkpoint.releaseId = input.releaseId)
    (hac : checkpoint.activationId = input.mutationId) : Prepared site input w checkpoint := by
  simp only [Site.accepts, Bool.and_eq_true, decide_eq_true_eq] at hacs
  refine ⟨⟨hacs.1, hacs.2, hre, hac⟩, hde.trans hacs.2, ⟨hre ▸ hab, ?_, ?_⟩, hact, ?_⟩
  · intro previous hprs
    rw [Option.mem_def.mp hprs, routeKind.eq_def] at hki
    rw [Option.mem_def.mp hprs] at hex
    dsimp only at hki
    split at hki
    · exact ⟨(Except.ok.inj hki).symm, hex.1, hex.2⟩
    · cases hki
  · intro hno
    rw [hno] at hki hex
    refine ⟨fun hrou => ?_, hex.1.symm, hex.2.symm⟩
    rw [hrou, routeKind.eq_def] at hki
    dsimp only at hki
    split at hki
    · cases hki
    · split at hki <;> cases hki
  · rw [hrt, Site.rootBefore]
    rw [routeKind.eq_def] at hki
    split at hki
    · grind
    · grind

namespace Spec

theorem initialCheckpoint (hacs : site.accepts input = true) (hab : input.releaseId ≠ "absent") :
    Spec site (World.Untouched w₀) (initialCheckpoint site input)
      (fun checkpoint w => Prepared site input w checkpoint ∧ World.Untouched w₀ w) (Failure.Harmless w₀) := by
  refine Triple.bind (Spec.activeRelease fun e w _ he => he.harmless w) fun active => ?_
  refine Triple.bind (Spec.ensure fun w _ hw _ => hw.1) fun _ => ?_
  refine Triple.bind (Q := fun kind w => ((World.Untouched w₀ w ∧ active = w.active) ∧ Storage.releaseIdOf active = input.expectedActiveReleaseId ∧
    Storage.activationIdOf active = input.expectedActivationId) ∧ routeKind site input active w.root = .ok kind) ?_ fun kind => ?_
  · refine Triple.bind (Spec.readFrontendStaticRoot fun e w _ he => he.harmless w) fun root => ?_
    refine Triple.post (Spec.checked fun e w herr _ => (routeKind_benign herr).harmless w) ?_
    rintro kind w - ⟨⟨⟨⟨hunt, hact, -⟩, hids⟩, hrt⟩, hki⟩
    exact ⟨⟨⟨hunt, hact⟩, hids⟩, hrt ▸ hki⟩
  refine Triple.bind (Q := fun _ w => ((World.Untouched w₀ w ∧ active = w.active) ∧ Storage.releaseIdOf active = input.expectedActiveReleaseId ∧
    Storage.activationIdOf active = input.expectedActivationId) ∧ routeKind site input active w.root = .ok kind) ?_ fun activatedAt => ?_
  · refine Triple.awaitCases ?_ (fun _ _ _ _ _ _ hfa => nomatch hfa) fun _ _ _ _ _ _ herr => nomatch herr
    intro w ω clock w' hi hw _ hok
    cases hok
    exact ⟨hi, hw, nofun⟩
  · refine Triple.pure _ ?_
    rintro w - ⟨⟨⟨hunt, hact⟩, hids⟩, hki⟩
    exact ⟨prepared_of_routeKind hacs hab hact.symm rfl hki hids rfl rfl rfl, hunt⟩

/-! ## 有効化 -/

theorem executeClaimed_prepared {claim deployment release}
    (hde : deployment.projectRef = input.projectRef ∧ deployment.id = input.deploymentId) (hre : release.releaseId = input.releaseId) :
    Spec site (Claimed site input claim) (FrontendActivation.executeClaimed site input claim (some deployment) (some release))
      (fun _ _ => True) fun e _ => e.code ≠ some .revisionConflict := by
  refine ⟨fun w hi hw => ?_⟩
  rcases hw with hrp | ⟨hrp, checkpoint, hcl, hsrs, hfos⟩
  · exact (Spec.replayClaimed hrp).safe w hi trivial
  · refine (Spec.executeClaimed rfl hsrs hrp hcl ?_ ?_).safe w hi hfos
    · rintro _ ⟨⟩
      exact hde
    · rintro _ ⟨⟩
      exact hre

theorem assertExisting_benign {existing} (h : assertExisting site input existing = .error e) : e.Benign := by
  simp only [assertExisting, bind_eq_error] at h
  rcases h with h | ⟨checkpoint, -, h⟩
  · exact parseActivationCheckpoint_benign h
  · cases checkpoint with
    | none => cases h
    | some checkpoint => exact assertCheckpoint_benign h

theorem activate (hacs : site.accepts input = true) :
    Spec site (World.Untouched w₀) (activate site input) (fun _ _ => True) (Failure.Harmless w₀) := by
  refine Triple.bind (Q := fun _ (w) => input.releaseId ≠ "absent" ∧ World.Untouched w₀ w)
    (Triple.post (Spec.checked fun e w herr _ => (assertInput_benign herr).harmless w) fun _ w _ hq => ⟨assertInput_absent hq.2, hq.1⟩) fun _ => Triple.given fun hab => ?_
  refine Triple.bind (Spec.query calm_untouched _ fun e w _ he => he.harmless w) fun existing => ?_
  refine Triple.bind (Spec.checked fun e w herr _ => ?_) fun _ => ?_
  · cases existing with
    | none => cases herr
    | some existing => exact (assertExisting_benign herr).harmless w
  refine Triple.bind (Q := fun (deployment) (w) =>
    (deployment.projectRef = input.projectRef ∧ deployment.id = input.deploymentId) ∧ World.Untouched w₀ w)
    (Triple.conseq (Spec.deployment fun e w _ he => he.harmless w) (fun _ _ hw => hw.1.1) (fun _ _ _ hq => ⟨hq.2, hq.1⟩) fun _ _ _ he => he)
    fun deployment => Triple.given fun hde => ?_
  refine Triple.bind (Q := fun (release) (w) => release.releaseId = input.releaseId ∧ World.Untouched w₀ w)
    (Triple.post (Spec.releaseRecord fun e w _ he => he.harmless w) fun _ _ _ hq => ⟨hq.2.1, hq.1⟩)
    fun release => Triple.given fun hre => ?_
  refine Triple.bind (Q := fun initial w => ∀ checkpoint ∈ initial, Prepared site input w checkpoint) ?_ fun initial => ?_
  · cases existing.isSome with
    | true => exact Triple.pure none fun _ _ _ => nofun
    | false =>
      refine Triple.bind (Spec.initialCheckpoint hacs hab) fun checkpoint => ?_
      refine Triple.pure _ fun w _ hw => ?_
      rintro _ ⟨⟩
      exact hw.1
  refine Triple.bind (Triple.raise (Spec.claim hacs) fun e w _ he => he.harmless w)
    fun claimed => ?_
  exact Triple.raise (Spec.executeClaimed_prepared hde hre) fun e w _ he hcn => absurd hcn he

theorem activateRelease (hacs : site.accepts input = true) :
    Spec site (World.Untouched w₀) (activateRelease site input) (fun _ _ => True) (Failure.Harmless w₀) := by
  refine Triple.bind ?_ fun _ => Spec.activate hacs
  refine Triple.bind (Spec.deployment fun e w _ he => he.harmless w) fun _ => ?_
  exact Triple.pre (Spec.idle fun e w _ he => he.harmless w) fun _ _ hw => hw.1

/-! ## 働き手 -/

theorem recoverCheckpoint {claim checkpoint} (how : site.owns claim = true) (hde : checkpoint.deploymentId = site.deploymentId) :
    Spec site (fun w => w.Follows site claim.key checkpoint) (recoverCheckpoint site claim checkpoint) (fun _ _ => True)
      fun e _ => e.code ≠ some .revisionConflict := by
  refine Triple.bind (Q := fun _ (w : World) => checkpoint.activationId = claim.key.mutationId ∧ w.Follows site claim.key checkpoint) ?_
    fun _ => Triple.given fun hac => ?_
  · refine Triple.post (Spec.checked fun e w herr _ => ?_) fun _ w _ hq => ⟨?_, hq.1⟩
    · obtain ⟨-, rfl⟩ := require_eq_error.mp herr
      decide
    · exact (require_eq_ok.mp hq.2).1
  refine Triple.bind (Spec.ensure fun w _ _ => by decide) fun _ => ?_
  refine Triple.bind (Q := fun _ _ => True) ?_ fun _ => Triple.pure () fun _ _ _ => trivial
  refine Triple.bind (Spec.ensure fun w _ _ => by decide) fun _ => ?_
  simp only [Site.owns, Bool.and_eq_true, decide_eq_true_eq] at how
  have hsrs : Serves site (recoveryInput claim.key.projectRef claim.key.mutationId claim.principal checkpoint) checkpoint :=
    ⟨how.1, hde, rfl, hac⟩
  have hkey : mutationKey (recoveryInput claim.key.projectRef claim.key.mutationId claim.principal checkpoint) = claim.key := rfl
  exact Triple.pre (Spec.executeClaimed hkey hsrs rfl rfl (fun _ h => by cases h) fun _ h => by cases h) fun _ _ hw => hw.1.1

theorem recoverClaim {claim} (how : site.owns claim = true) :
    Spec site (fun w => claim ∈ w.claims) (recoverClaim site claim) (fun _ _ => True) fun e _ => e.code ≠ some .revisionConflict := by
  refine Triple.bind (Triple.post (Spec.checked fun e w herr _ => ?_) fun _ _ _ hq => hq.1)
    fun _ => ?_
  · obtain ⟨-, rfl⟩ := require_eq_error.mp herr
    exact nofun
  refine Triple.bind (Spec.checked fun e w herr _ => (parseActivationCheckpoint_benign herr).1) fun parsed => ?_
  cases parsed with
  | none =>
    refine ⟨fun w hi hw => ?_⟩
    obtain ⟨checkpoint, hdc, -⟩ := hi.claimed claim hw.1 how
    cases hdc.symm.trans (parseActivationCheckpoint_none hw.2)
  | some found =>
    refine ⟨fun w hi hw => ?_⟩
    obtain ⟨checkpoint, hdc, hde, hfos⟩ := hi.claimed claim hw.1 how
    cases hdc.symm.trans (parseActivationCheckpoint_some hw.2).1
    exact (Spec.recoverCheckpoint how hde).safe w hi hfos

end Spec

theorem step_inv (h : w.Inv site) (event) : (step site w event).Inv site := by
  cases event with
  | interfere interference => exact h.interfere interference
  | activate input responses =>
    rw [step]
    split
    · rename_i hacs
      have hat : Spec site (World.Untouched w) (activateRelease site input) (fun _ _ => True) (Failure.Harmless w) :=
        Spec.activateRelease hacs
      exact hat.exec h ⟨rfl, rfl, rfl⟩ responses fun _ _ => trivial
    · exact h
  | recover claim responses =>
    rw [step]
    split
    · rename_i hcl
      exact (Spec.recoverClaim hcl.2).exec h hcl.1 responses fun _ _ => trivial
    · exact h

theorem run_inv (h : w.Inv site) (events) : (run (step site) w events).Inv site :=
  run_invariant (I := World.Inv site) (fun _ event hw => step_inv hw event) h

end Supacloud.FrontendActivation
