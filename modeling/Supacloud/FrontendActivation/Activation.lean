import Supacloud.FrontendActivation.World

/-!
# 画面のリリースの有効化（services/frontend-release-activation.ts、workers/frontend-release-recovery.worker.ts）

途中で途切れた有効化は、働き手が `checkpoint` から続ける。
-/

namespace Supacloud.FrontendActivation

open Library
open ProjectMutations

variable (site : Site)

/-! ## 台帳（`frontendReleaseMutationStore`） -/

structure BegunAndClaimed where
  begun : BeginProjectMutationResult
  claimed : Option ClaimProjectMutationResult

/-- `["succeeded", "failed_terminal", "outcome_unknown"]` -/
def ended (status : ProjectMutationStatus) : Bool := status = .succeeded || status = .failedTerminal || status = .outcomeUnknown

def claimBegun (now : Timestamp) (begun : BeginProjectMutationResult) (started : Bool) (rows : Journal) (input : ClaimProjectMutationInput)
    (initialCheckpoint : Option String) : Except Failure (BegunAndClaimed × Journal) :=
  match claimOrResumeProjectMutation now rows input with
  | (.error message, _) => .error (.plain message)
  | (.ok (.claimed mutation), rows) =>
    if started then
      match initialCheckpoint with
      | none => .error (.plain "New frontend release mutation requires an initial checkpoint")
      | some checkpoint =>
        match checkpointProjectMutation now rows
            { lease := { key := input.key, leaseToken := input.leaseToken, fencingEpoch := mutation.fencingEpoch }
              checkpoint, leaseSeconds := input.leaseSeconds, recoveryNotBefore := none } with
        | (some _, rows) => .ok ({ begun, claimed := some (.claimed { mutation with checkpoint }) }, rows)
        | (none, _) => .error (.plain "New frontend release mutation lost its initial lease")
    else .ok ({ begun, claimed := some (.claimed mutation) }, rows)
  | (.ok claimed, rows) => .ok ({ begun, claimed := some claimed }, rows)

def beginAndClaim (now : Timestamp) (rows : Journal) (begin : BeginProjectMutationInput) (claim : ClaimProjectMutationInput)
    (initialCheckpoint : Option String) : Except Failure (BegunAndClaimed × Journal) :=
  match beginProjectMutation now rows begin with
  | (.error message, _) => .error (.plain message)
  | (.ok (.started mutation), rows) => claimBegun now (.started mutation) true rows claim initialCheckpoint
  | (.ok (.replay mutation), rows) =>
    if ended mutation.status then .ok ({ begun := .replay mutation, claimed := none }, rows)
    else claimBegun now (.replay mutation) false rows claim initialCheckpoint
  | (.ok begun, rows) => .ok ({ begun, claimed := none }, rows)

structure ClaimedActivation where
  leaseToken : String
  fencingEpoch : Nat
  replayed : Bool
  preparedNow : Bool
  checkpoint : Option FrontendActivationCheckpoint

variable (mutation : StoredProjectMutationRow) (input : ActivateFrontendReleaseInput)

def mutationKey : MutationKey := { projectRef := input.projectRef, mutationId := input.mutationId }

def leaseOf (claim : ClaimedActivation) : MutationLeaseInput :=
  { key := mutationKey input, leaseToken := claim.leaseToken, fencingEpoch := claim.fencingEpoch }

def beginInput : BeginProjectMutationInput :=
  { key := mutationKey input
    operation := activateOperation
    resourceKey := some (frontendReleaseActivationResourceKey site input.deploymentId)
    requestFingerprint := frontendReleaseActivationFingerprint site input
    principal := input.principal }

def World.noteBegun (w : World) (input : ActivateFrontendReleaseInput) : BeginProjectMutationResult → World
  | .started _ =>
    { w with begun := { key := mutationKey input, releaseId := input.releaseId, active := w.active, root := w.root } :: w.begun }
  | _ => w

def World.noteFinished (w : World) (key : MutationKey) (status : FinishStatus) (updated : Bool) : World :=
  if updated then { w with finished := { key, status, active := w.active, root := w.root } :: w.finished } else w

namespace Mutations

def read (key : MutationKey) : Program (Option StoredProjectMutationRow) :=
  journal .readMutation fun _ w => .ok (w.rows.find key, w)

def beginAndClaim (input : ActivateFrontendReleaseInput) (initialCheckpoint : Option FrontendActivationCheckpoint) :
    Program (String × BegunAndClaimed) :=
  journal .beginAndClaim fun ω w =>
    (FrontendActivation.beginAndClaim w.now w.rows (beginInput site input)
      { key := mutationKey input, leaseOwner := ω.leaseOwner, leaseToken := ω.leaseToken, leaseSeconds := mutationLeaseSeconds }
      (initialCheckpoint.map site.codec.encode)).map fun (result, rows) =>
        ((ω.leaseToken, result), { w.noteBegun input result.begun with rows })

def checkpoint (lease : MutationLeaseInput) (checkpoint : FrontendActivationCheckpoint) : Program Bool :=
  journal (.checkpoint checkpoint.phase) fun _ w =>
    let (updated, rows) := checkpointProjectMutation w.now w.rows
      { lease, checkpoint := site.codec.encode checkpoint, leaseSeconds := mutationLeaseSeconds, recoveryNotBefore := none }
    .ok (updated.isSome, { w with rows })

def finish (status : FinishStatus) (input : Response → FinishProjectMutationInput) : Program Bool :=
  journal (.complete status) fun ω w =>
    let (updated, rows) := finishProjectMutation w.now w.rows (input ω)
    .ok (updated.isSome, { w.noteFinished (input ω).lease.key (input ω).status updated.isSome with rows })

def withLease {α : Type} (lease : MutationLeaseInput) (operation : Program α) : Program (Option α) := do
  let held ← journal .verifyLease fun _ w => .ok (w.rows.any (lease.holds w.now), w)
  if held then do
    let value ← tryCatch operation fun error => do
      statement .rollback fun _ w => .ok ((), w)
      throw error
    journal .commit fun _ w => .ok ((), w)
    pure (some value)
  else do
    journal .commit fun _ w => .ok ((), w)
    pure none

end Mutations

variable (currentActive : Option FrontendActiveReleaseRecord) (deployment : FrontendDeployment) (release : FrontendReleaseRecord)

/-! ## 有効化の部品 -/

def desiredAuthority (activatedAt : Timestamp) :
    FrontendActiveReleaseRecord :=
  { projectRef := input.projectRef
    deploymentId := input.deploymentId
    releaseId := release.releaseId
    sha256 := release.sha256
    treeSha256 := release.treeSha256
    activationId := input.mutationId
    activatedAt
    mutationId := input.mutationId }

def receipt : Receipt :=
  .payload (site.stableSha256
    [("project_ref", input.projectRef), ("deployment_id", input.deploymentId), ("active_release_id", release.releaseId),
      ("release_id", release.releaseId), ("sha256", release.sha256), ("tree_sha256", release.treeSha256),
      ("activation_id", input.mutationId)])

def failureReceipt : Receipt :=
  .payload (site.stableSha256
    [("project_ref", input.projectRef), ("deployment_id", input.deploymentId), ("release_id", input.releaseId),
      ("expected_active_release_id", input.expectedActiveReleaseId), ("activation_id", input.mutationId),
      ("expected_activation_id", input.expectedActivationId)])

def activationResponse (replayed : Bool) :
    FrontendReleaseActivation :=
  { projectRef := input.projectRef
    deploymentId := input.deploymentId
    activeReleaseId := release.releaseId
    activationId := input.mutationId
    release
    replayed }

def checkpointMatchesInput (checkpoint : FrontendActivationCheckpoint) (input : ActivateFrontendReleaseInput) : Bool :=
  checkpoint.deploymentId = input.deploymentId && checkpoint.releaseId = input.releaseId &&
    checkpoint.expectedActiveReleaseId = input.expectedActiveReleaseId && checkpoint.activationId = input.mutationId &&
    checkpoint.expectedActivationId = input.expectedActivationId

def assertInput : Except Failure Unit := do
  assertFrontendIdentity input.projectRef input.deploymentId
  assertReleaseId input.releaseId
  assertExpectedActiveReleaseId input.expectedActiveReleaseId
  assertExpectedFrontendActivationId input.expectedActivationId
  require (isMutationId input.mutationId = true) (frontendReleaseError .mutationIdInvalid 400 "mutation_id must be a UUIDv4")

def outcomeUnknown (message : String) : Failure := frontendReleaseError .outcomeUnknown 503 message

def leaseLost : Failure := outcomeUnknown "Frontend release activation lease was lost"

def readbackMismatch : Failure :=
  frontendReleaseError .readbackMismatch 503 "Frontend active release and Caddy route do not match"

def recoveryStateUnknown : Failure := outcomeUnknown "Frontend activation checkpoint and live state cannot be reconciled"

def successJournalInvalid : Failure := outcomeUnknown "Frontend release success journal is invalid"

def assertCheckpoint (checkpoint : FrontendActivationCheckpoint) : Except Failure Unit := do
  assertActivationCheckpointIdentity checkpoint input.projectRef input.mutationId
  require (checkpointMatchesInput checkpoint input = true)
    (frontendReleaseError .checkpointInvalid 503 "Frontend release activation checkpoint does not match the request")

def replayedClaim : Except Failure ClaimedActivation := do
  let checkpoint ← parseActivationCheckpoint site.codec mutation.checkpoint
  return { leaseToken := "", fencingEpoch := mutation.fencingEpoch, replayed := true, preparedNow := false, checkpoint }

def mutationFailed : Failure := frontendReleaseError .mutationFailed 409 "Frontend release mutation is already terminal"

def claimedActivation (leaseToken : String) (preparedNow : Bool) :
    Option ClaimProjectMutationResult → Except Failure ClaimedActivation
  | none => .error (outcomeUnknown "Frontend release mutation could not be claimed")
  | some (.busy _) => .error (frontendReleaseError .busy 409 "Frontend release activation is already running")
  | some .notFound => .error (outcomeUnknown "Frontend release mutation could not be read back")
  | some (.terminal mutation) => if mutation.status = .succeeded then replayedClaim site mutation else .error mutationFailed
  | some (.claimed mutation) => do
    let checkpoint ← parseActivationCheckpoint site.codec mutation.checkpoint
    checkpoint.elim (.ok ()) (assertCheckpoint input)
    return { leaseToken, fencingEpoch := mutation.fencingEpoch, replayed := false, preparedNow, checkpoint }

def interpretClaim (leaseToken : String) (result : BegunAndClaimed) :
    Except Failure ClaimedActivation :=
  match result.begun with
  | .fingerprintConflict | .principalConflict =>
    .error (frontendReleaseError .mutationConflict 409 "Frontend release mutation identity conflicts with an existing request")
  | .resourceBusy _ _ => .error (frontendReleaseError .busy 409 "Another frontend release activation is still unresolved")
  | .replay mutation =>
    if mutation.status = .succeeded then replayedClaim site mutation
    else if mutation.status = .outcomeUnknown then
      .error (frontendReleaseError .outcomeUnknown 409 "Frontend release mutation is already terminal")
    else if mutation.status = .failedTerminal then .error mutationFailed
    else claimedActivation site input leaseToken false result.claimed
  | .started _ => claimedActivation site input leaseToken true result.claimed

def claim (initialCheckpoint : Option FrontendActivationCheckpoint) : Program ClaimedActivation := do
  let (leaseToken, result) ← Mutations.beginAndClaim site input initialCheckpoint
  checked (interpretClaim site input leaseToken result)

def saveCheckpoint (claim : ClaimedActivation) (checkpoint : FrontendActivationCheckpoint) :
    Program Unit := do
  let updated ← Mutations.checkpoint site (leaseOf input claim) checkpoint
  ensure (updated = true) leaseLost

def withLease {α : Type} (input : ActivateFrontendReleaseInput) (claim : ClaimedActivation) (operation : Program α) : Program α := do
  match ← Mutations.withLease (leaseOf input claim) operation with
  | some value => pure value
  | none => throw leaseLost

/-! ## 段階 -/

def routeKind (currentRoot : Option String) :
    Except Failure PreviousRoute :=
  match currentActive with
  | some active =>
    if currentRoot = some (releaseBuildDir site input.projectRef input.deploymentId active.releaseId) then .ok .release
    else .error readbackMismatch
  | none =>
    if currentRoot = none then .ok .absent
    else if currentRoot = some (legacyBuildDir site input.projectRef input.deploymentId) then .ok .legacy
    else .error readbackMismatch

def currentRouteKind : Program PreviousRoute := do
  let currentRoot ← Gateway.readFrontendStaticRoot
  checked (routeKind site input currentActive currentRoot)

def revisionConflict : Failure := frontendReleaseError .revisionConflict 409 "Frontend active release revision conflict"

def preparedCheckpoint :
    Program FrontendActivationCheckpoint := do
  ensure (Storage.releaseIdOf currentActive = input.expectedActiveReleaseId ∧ Storage.activationIdOf currentActive = input.expectedActivationId)
    revisionConflict
  let previousRoute ← currentRouteKind site input currentActive
  let activatedAt ← (await (fun _ => .done) fun ω w => .ok (ω.clock, w) : Program Timestamp)
  pure
    { phase := .prepared
      deploymentId := input.deploymentId
      releaseId := input.releaseId
      expectedActiveReleaseId := input.expectedActiveReleaseId
      activationId := input.mutationId
      expectedActivationId := input.expectedActivationId
      activatedAt
      previousAuthority := currentActive
      previousRoute }

def previousRoot (checkpoint : FrontendActivationCheckpoint) : Option String :=
  match checkpoint.previousRoute with
  | .absent => none
  | .legacy => some (legacyBuildDir site input.projectRef input.deploymentId)
  | .release =>
    checkpoint.previousAuthority.map fun previous => releaseBuildDir site input.projectRef input.deploymentId previous.releaseId

def desiredRoot (checkpoint : FrontendActivationCheckpoint) : String :=
  releaseBuildDir site input.projectRef input.deploymentId checkpoint.releaseId

def reconciledPhase (checkpoint : FrontendActivationCheckpoint) (previousMatches : Bool) (currentRoot : Option String) : Except Failure ActivationPhase :=
  if previousMatches then
    if currentRoot = previousRoot site input checkpoint then .ok .prepared else .error recoveryStateUnknown
  else if currentRoot = some (desiredRoot site input checkpoint) then .ok .routeApplied
  else if currentRoot = previousRoot site input checkpoint then .ok .authorityApplied
  else .error recoveryStateUnknown

def reconciledCheckpoint (checkpoint : FrontendActivationCheckpoint) :
    Program FrontendActivationCheckpoint := do
  let active ← Storage.activeRelease input.projectRef input.deploymentId
  let previousMatches : Bool := Storage.releaseIdOf active = checkpoint.expectedActiveReleaseId &&
    Storage.activationIdOf active = checkpoint.expectedActivationId
  let desiredMatches : Bool := Storage.releaseIdOf active = checkpoint.releaseId && Storage.activationIdOf active = checkpoint.activationId
  ensure (previousMatches = true ∨ desiredMatches = true) recoveryStateUnknown
  let currentRoot ← Gateway.readFrontendStaticRoot
  let phase ← checked (reconciledPhase site input checkpoint previousMatches currentRoot)
  pure { checkpoint with phase }

def configureDesiredRoute : Program Unit :=
  Gateway.configureFrontendRoute (releaseBuildDir site deployment.projectRef deployment.id release.releaseId)

def restorePreviousAuthority (checkpoint : FrontendActivationCheckpoint) : Program Unit := do
  let restored ← Storage.compareAndSwapActiveRelease input.projectRef input.deploymentId checkpoint.releaseId checkpoint.activationId
    checkpoint.previousAuthority
  ensure (restored = true) readbackMismatch

def routeRejected : Failure :=
  frontendReleaseError .routeRejected 503 "Frontend route change failed and the previous release remains authoritative"

def handleRouteFailure (checkpoint : FrontendActivationCheckpoint) (routeError : Failure) :
    Program Unit := do
  ensure (isFrontendGatewayDurabilityUnknown routeError = false) (outcomeUnknown "Frontend route durability could not be proven")
  let liveRoot ← tryCatch Gateway.readFrontendStaticRoot fun _ => throw (outcomeUnknown "Frontend route outcome could not be proven")
  if liveRoot = some (desiredRoot site input checkpoint) then pure ()
  else if liveRoot = previousRoot site input checkpoint then do
    restorePreviousAuthority input checkpoint
    throw routeRejected
  else throw (outcomeUnknown "Frontend route outcome could not be proven")

def ensureAuthority (checkpoint : FrontendActivationCheckpoint) :
    Program Unit := do
  let current ← Storage.activeRelease input.projectRef input.deploymentId
  if current.any fun active =>
      active.releaseId = release.releaseId && active.mutationId = input.mutationId && active.activationId = input.mutationId then
    pure ()
  else do
    ensure (Storage.releaseIdOf current = checkpoint.expectedActiveReleaseId ∧
      Storage.activationIdOf current = checkpoint.expectedActivationId) readbackMismatch
    Storage.writeActiveRelease (some (desiredAuthority input release checkpoint.activatedAt))

def verifiedActivation (checkpoint : FrontendActivationCheckpoint) :
    Program Unit := do
  let active ← Storage.activeRelease input.projectRef input.deploymentId
  let root ← Gateway.readFrontendStaticRoot
  ensure (active = some (desiredAuthority input release checkpoint.activatedAt) ∧
    root = some (releaseBuildDir site input.projectRef input.deploymentId release.releaseId)) readbackMismatch
  let storedRelease ← Storage.releaseRecord input.projectRef input.deploymentId release.releaseId
  ensure (storedRelease = release) readbackMismatch

def interruption (phase : ActivationPhase) : Program Unit := statement (.interruption phase) fun _ w => .ok ((), w)

def applyAuthority (claim : ClaimedActivation) (checkpoint : FrontendActivationCheckpoint) : Program FrontendActivationCheckpoint := do
  withLease input claim (ensureAuthority input release checkpoint)
  let checkpoint := { checkpoint with phase := .authorityApplied }
  saveCheckpoint site input claim checkpoint
  interruption .authorityApplied
  pure checkpoint

def applyRoute (claim : ClaimedActivation) (checkpoint : FrontendActivationCheckpoint) : Program FrontendActivationCheckpoint := do
  withLease input claim (tryCatch (configureDesiredRoute site deployment release) (handleRouteFailure site input checkpoint))
  let checkpoint := { checkpoint with phase := .routeApplied }
  saveCheckpoint site input claim checkpoint
  interruption .routeApplied
  pure checkpoint

def applyPhases (claim : ClaimedActivation) (initialCheckpoint : FrontendActivationCheckpoint) : Program Unit := do
  let checkpoint ← reconciledCheckpoint site input initialCheckpoint
  bif checkpoint.phase == initialCheckpoint.phase then pure () else saveCheckpoint site input claim checkpoint
  let checkpoint ← bif checkpoint.phase == .prepared then applyAuthority site input release claim checkpoint else pure checkpoint
  let checkpoint ← bif checkpoint.phase == .authorityApplied then applyRoute site input deployment release claim checkpoint else pure checkpoint
  withLease input claim (verifiedActivation site input release checkpoint)

/-! ## 終わり -/

def successfulCheckpoint :
    Except Failure FrontendActivationCheckpoint := do
  let parsed ← parseActivationCheckpoint site.codec mutation.checkpoint
  let checkpoint ← fetch parsed successJournalInvalid
  assertActivationCheckpointIdentity checkpoint input.projectRef input.mutationId
  require (checkpoint.phase = .routeApplied ∧ checkpointMatchesInput checkpoint input = true) successJournalInvalid
  return checkpoint

def successfulMutationMatches :
    Bool :=
  mutation.key = mutationKey input && mutation.operation = activateOperation &&
    mutation.resourceKey = some (frontendReleaseActivationResourceKey site input.deploymentId) &&
    mutation.requestFingerprint = frontendReleaseActivationFingerprint site input && mutation.principal = input.principal &&
    mutation.status = .succeeded && mutation.responseStatus = some 200 && mutation.failureCode = none &&
    mutation.receipt = some (receipt site input release)

def successfulMutation (mutation : Option StoredProjectMutationRow) :
    Except Failure FrontendActivationCheckpoint := do
  let mutation ← fetch mutation successJournalInvalid
  require (successfulMutationMatches site mutation input release = true) successJournalInvalid
  successfulCheckpoint site mutation input

def verifiedSuccessfulMutation : Program Unit := do
  let mutation ← Mutations.read (mutationKey input)
  let checkpoint ← checked (successfulMutation site input release mutation)
  verifiedActivation site input release checkpoint

def resolveSuccessfulReplay : Program FrontendReleaseActivation := do
  verifiedSuccessfulMutation site input release
  pure (activationResponse input release true)

def completeSuccess (claim : ClaimedActivation) : Program Unit := do
  let completed ← Mutations.finish .succeeded fun _ =>
    completeProjectMutationSuccess (leaseOf input claim) (receipt site input release) 200
  ensure (completed = true) (outcomeUnknown "Frontend release success could not be recorded")
  verifiedSuccessfulMutation site input release

/-- 失敗の終わり。`recoveryNotBefore` は再試行できる失敗にだけ付く。 -/
def completeFailure (lease : MutationLeaseInput) (status : FinishStatus) (failureCode : String) (responseStatus : Nat) : Program Bool :=
  Mutations.finish status fun ω =>
    { lease
      status
      receipt := failureReceipt site input
      responseStatus := some responseStatus
      failureCode := some failureCode
      recoveryNotBefore := if status = .failedRetryable then some ω.clock else none }

def completeRevisionConflict (claim : ClaimedActivation) : Program Unit := do
  let completed ← completeFailure site input (leaseOf input claim) .failedTerminal "ACTIVE_RELEASE_CONFLICT" 409
  ensure (completed = true) (outcomeUnknown "Frontend release mutation completion could not be proven")

def failureStatus (error : Failure) : FinishStatus :=
  if error.code = some .outcomeUnknown then .outcomeUnknown
  else if error.code = some .routeRejected then .failedTerminal
  else .failedRetryable

def failureCode (error : Failure) : String :=
  if error.code = some .outcomeUnknown then "ROUTE_OUTCOME_UNKNOWN"
  else if error.code = some .routeRejected then "ROUTE_APPLY_REJECTED"
  else "ACTIVATION_INTERRUPTED"

def terminalState (error : Failure) : Bool := error.code = some .revisionConflict || error.code = some .mutationConflict

def preserveRecoverableFailure {α : Type} (input : ActivateFrontendReleaseInput) (claim : ClaimedActivation) (error : Failure) : Program α := do
  let terminal ← tryCatch (Mutations.read (mutationKey input)) fun _ => pure none
  ensure (terminal.all (fun mutation => mutation.status != .succeeded) = true)
    (outcomeUnknown "Frontend release activation succeeded but its response could not be proven")
  let completed ← completeFailure site input (leaseOf input claim) (failureStatus error) (failureCode error) 503
  ensure (completed = true) (outcomeUnknown "Frontend release activation outcome is unknown")
  if terminalState error || error.code = some .outcomeUnknown || error.code = some .routeRejected then throw error
  else
    throw (frontendReleaseError .activationRetryable 503
      "Frontend release activation was interrupted and can be retried with the same mutation_id")

/-! ## 有効化 -/

/-- `try` の中の結果。`return` した約束の例外は、`catch` には入らない。 -/
inductive Executed where
  | replay (release : FrontendReleaseRecord)
  | activated (response : FrontendReleaseActivation)

def claimedCheckpoint (claim : ClaimedActivation) : Program FrontendActivationCheckpoint :=
  match claim.checkpoint with
  | some checkpoint => do
    bif claim.preparedNow then interruption .prepared else pure ()
    pure checkpoint
  | none => do
    let active ← Storage.activeRelease input.projectRef input.deploymentId
    let checkpoint ← preparedCheckpoint site input active
    saveCheckpoint site input claim checkpoint
    interruption .prepared
    pure checkpoint

def attemptClaimed (claim : ClaimedActivation) (preparedDeployment : Option FrontendDeployment)
    (preparedRelease : Option FrontendReleaseRecord) : Program Executed := do
  let deployment ← preparedDeployment.elim (Storage.deployment input.projectRef input.deploymentId) pure
  let release ← preparedRelease.elim (Storage.releaseRecord input.projectRef input.deploymentId input.releaseId) pure
  if claim.replayed then pure (.replay release)
  else do
    let checkpoint ← claimedCheckpoint site input claim
    applyPhases site input deployment release claim checkpoint
    completeSuccess site input release claim
    pure (.activated (activationResponse input release false))

def failClaimed (claim : ClaimedActivation) (error : Failure) : Program Executed :=
  if error.code = some .revisionConflict then do
    completeRevisionConflict site input claim
    throw error
  else preserveRecoverableFailure site input claim error

def executeClaimed (claim : ClaimedActivation) (preparedDeployment : Option FrontendDeployment)
    (preparedRelease : Option FrontendReleaseRecord) : Program FrontendReleaseActivation := do
  checked (assertInput input)
  let executed ← tryCatch (attemptClaimed site input claim preparedDeployment preparedRelease) (failClaimed site input claim)
  match executed with
  | .replay release => resolveSuccessfulReplay site input release
  | .activated response => pure response

def assertExisting (existing : StoredProjectMutationRow) : Except Failure Unit := do
  let storedCheckpoint ← parseActivationCheckpoint site.codec existing.checkpoint
  storedCheckpoint.elim (.ok ()) (assertCheckpoint input)

def initialCheckpoint : Program FrontendActivationCheckpoint := do
  let active ← Storage.activeRelease input.projectRef input.deploymentId
  preparedCheckpoint site input active

def activate : Program FrontendReleaseActivation := do
  checked (assertInput input)
  let existing ← Mutations.read (mutationKey input)
  checked (existing.elim (.ok ()) (assertExisting site input))
  let deployment ← Storage.deployment input.projectRef input.deploymentId
  let release ← Storage.releaseRecord input.projectRef input.deploymentId input.releaseId
  let checkpoint ← bif existing.isSome then pure none else some <$> initialCheckpoint site input
  let claimed ← claim site input checkpoint
  executeClaimed site input claimed (some deployment) (some release)

def activateRelease : Program FrontendReleaseActivation := do
  Storage.assertMutationSupported input.projectRef input.deploymentId
  activate site input

def resume (claim : ClaimedActivation) : Program FrontendReleaseActivation := do
  ensure (claim.replayed = false ∧ claim.leaseToken ≠ "" ∧ 1 ≤ claim.fencingEpoch)
    (frontendReleaseError .checkpointInvalid 503 "Frontend release recovery claim is invalid")
  executeClaimed site input claim none none

/-! ## 働き手 -/

def recoveryInput (projectRef mutationId : String) (principal : MutationPrincipal) (checkpoint : FrontendActivationCheckpoint) :
    ActivateFrontendReleaseInput :=
  { projectRef
    deploymentId := checkpoint.deploymentId
    releaseId := checkpoint.releaseId
    expectedActiveReleaseId := checkpoint.expectedActiveReleaseId
    expectedActivationId := checkpoint.expectedActivationId
    mutationId
    principal }

def isFrontendResourceKey (s : String) : Bool :=
  let name := s.toList.drop 21
  s.toList.take 21 = "v1/frontend_release/".toList.take 21 && 2 ≤ name.length && name.length ≤ 171 && name.all isNameChar

def isRequestFingerprint (s : String) : Bool := isReleaseId s

def recoveryIdentityInvalid : Failure := .plain "Frontend release recovery claim identity is invalid"

def assertRecoveryClaimEnvelope (claim : StoredProjectMutationRow) : Except Failure Unit :=
  require (claim.operation = activateOperation ∧ claim.resourceKey.any isFrontendResourceKey = true ∧
    isRequestFingerprint claim.requestFingerprint = true ∧ claim.principal.id ≠ "" ∧ site.trimmed claim.principal.id = true)
    recoveryIdentityInvalid

def claimLease (claim : StoredProjectMutationRow) : MutationLeaseInput :=
  { key := claim.key, leaseToken := claim.leaseToken.getD "", fencingEpoch := claim.fencingEpoch }

def finalizeEmptyCheckpoint (claim : StoredProjectMutationRow) : Program Unit := do
  let completed ← Mutations.finish .failedTerminal fun _ =>
    { lease := claimLease claim
      status := .failedTerminal
      receipt := .payload (site.stableSha256 [("project_ref", claim.key.projectRef)])
      responseStatus := some 409
      failureCode := some "ACTIVATION_NOT_STARTED"
      recoveryNotBefore := none }
  ensure (completed = true) (.plain "Empty activation recovery could not be finalized")

def recoverCheckpoint (claim : StoredProjectMutationRow) (checkpoint : FrontendActivationCheckpoint) : Program Unit := do
  checked (assertActivationCheckpointIdentity checkpoint claim.key.projectRef claim.key.mutationId)
  let input := recoveryInput claim.key.projectRef claim.key.mutationId claim.principal checkpoint
  ensure (claim.resourceKey = some (frontendReleaseActivationResourceKey site input.deploymentId) ∧
    claim.requestFingerprint = frontendReleaseActivationFingerprint site input) recoveryIdentityInvalid
  let _ ← resume site input
    { leaseToken := claim.leaseToken.getD "", fencingEpoch := claim.fencingEpoch, replayed := false, preparedNow := false
      checkpoint := some checkpoint }

def recoverClaim (claim : StoredProjectMutationRow) : Program Unit := do
  checked (assertRecoveryClaimEnvelope site claim)
  match ← checked (parseActivationCheckpoint site.codec claim.checkpoint) with
  | none => finalizeEmptyCheckpoint site claim
  | some checkpoint => recoverCheckpoint site claim checkpoint

/-- 応答の列の尽きたところで、処理は途切れる。 -/
inductive Event where
  | interfere (interference : Interference)
  | activate (input : ActivateFrontendReleaseInput) (responses : List Response)
  | recover (claim : StoredProjectMutationRow) (responses : List Response)

def Site.accepts : Bool :=
  input.projectRef = site.projectRef && input.deploymentId = site.deploymentId

def step (w : World) : Event → World
  | .interfere interference => w.interfere interference
  | .activate input responses => if site.accepts input then (activateRelease site input).run.exec responses w else w
  | .recover claim responses =>
    if claim ∈ w.claims ∧ site.owns claim = true then (recoverClaim site claim).run.exec responses w else w

end Supacloud.FrontendActivation
