import Supacloud.Library.Checked
import Supacloud.ProjectMutations.Journal
import Supacloud.Library.Faults

/-!
# 画面のリリースの取り決め（services/frontend-release-contract.ts）

時刻は、その表すミリ秒で持つ。
-/

namespace Supacloud.FrontendActivation

open Library
open ProjectMutations

/-! ## 例外 -/

inductive ErrorCode where
  | mutationIdInvalid
  | mutationConflict
  | busy
  | outcomeUnknown
  | mutationFailed
  | checkpointInvalid
  | readbackMismatch
  | revisionConflict
  | routeRejected
  | activationRetryable
  | projectInvalid
  | deploymentInvalid
  | idInvalid
  | expectedActiveInvalid
  | expectedActivationInvalid
  | storageInvalid
  | authorityInvalid
  deriving DecidableEq

/-- ファイル、関門、データベースの知らせる例外。`durabilityUnknown` は `CADDY_GATEWAY_DURABILITY_UNKNOWN` である。 -/
inductive External where
  | durabilityUnknown
  | other (message : String)
  deriving DecidableEq

inductive Failure where
  | release (code : ErrorCode) (statusCode : Nat) (message : String)
  | plain (message : String)
  | external (error : External)
  deriving DecidableEq

def frontendReleaseError (code : ErrorCode) (statusCode : Nat) (message : String) : Failure := .release code statusCode message

def Failure.code : Failure → Option ErrorCode
  | .release code _ _ => some code
  | .plain _ | .external _ => none

def isFrontendGatewayDurabilityUnknown (error : Failure) : Bool := error = .external .durabilityUnknown

def isLowerHex (c : Char) : Bool := ('0' ≤ c && c ≤ '9') || ('a' ≤ c && c ≤ 'f')

def isNameChar (c : Char) : Bool :=
  ('A' ≤ c && c ≤ 'Z') || ('a' ≤ c && c ≤ 'z') || ('0' ≤ c && c ≤ '9') || c = '_' || c = '-'

def isProjectRef (s : String) : Bool := 1 ≤ s.toList.length && s.toList.length ≤ 20 && s.toList.all isNameChar

def isDeploymentId (s : String) : Bool := 1 ≤ s.toList.length && s.toList.length ≤ 128 && s.toList.all isNameChar

def isReleaseId (s : String) : Bool := s.toList.length = 64 && s.toList.all isLowerHex

def hexGroup (n : Nat) (cs : List Char) : Bool := cs.length = n && cs.all isLowerHex

def isMutationId (s : String) : Bool :=
  match s.toList.splitOn '-' with
  | [a, b, c, d, e] =>
    hexGroup 8 a && hexGroup 4 b && hexGroup 4 c && c.head? == some '4' && hexGroup 4 d &&
      d.head?.any (fun x => x = '8' || x = '9' || x = 'a' || x = 'b') && hexGroup 12 e
  | _ => false

/-! ## 記録 -/

structure FrontendDeployment where
  id : String
  projectRef : String
  domain : String
  customDomains : List String

structure FrontendReleaseRecord where
  projectRef : String
  deploymentId : String
  releaseId : String
  sha256 : String
  treeSha256 : String
  sizeBytes : Nat
  fileCount : Nat
  createdAt : Timestamp
  deriving DecidableEq

structure FrontendActiveReleaseRecord where
  projectRef : String
  deploymentId : String
  releaseId : String
  sha256 : String
  treeSha256 : String
  activationId : String
  activatedAt : Timestamp
  mutationId : String
  deriving DecidableEq

inductive ActivationPhase where
  | prepared
  | authorityApplied
  | routeApplied
  deriving DecidableEq

inductive PreviousRoute where
  | absent
  | legacy
  | release
  deriving DecidableEq

structure FrontendActivationCheckpoint where
  phase : ActivationPhase
  deploymentId : String
  releaseId : String
  expectedActiveReleaseId : String
  activationId : String
  expectedActivationId : String
  activatedAt : Timestamp
  previousAuthority : Option FrontendActiveReleaseRecord
  previousRoute : PreviousRoute

structure ActivateFrontendReleaseInput where
  projectRef : String
  deploymentId : String
  releaseId : String
  expectedActiveReleaseId : String
  expectedActivationId : String
  mutationId : String
  principal : MutationPrincipal

structure FrontendReleaseActivation where
  projectRef : String
  deploymentId : String
  activeReleaseId : String
  activationId : String
  release : FrontendReleaseRecord
  replayed : Bool

/-! ## 検査 -/

def assertFrontendIdentity (projectRef deploymentId : String) : Except Failure Unit := do
  require (isProjectRef projectRef = true) (frontendReleaseError .projectInvalid 400 "Project ref is invalid")
  require (isDeploymentId deploymentId = true) (frontendReleaseError .deploymentInvalid 400 "Frontend deployment id is invalid")

def assertReleaseId (releaseId : String) : Except Failure Unit :=
  require (isReleaseId releaseId = true) (frontendReleaseError .idInvalid 400 "Frontend release id must be a SHA-256 digest")

def assertExpectedActiveReleaseId (candidate : String) : Except Failure Unit :=
  require (candidate = "absent" ∨ isReleaseId candidate = true)
    (frontendReleaseError .expectedActiveInvalid 400 "expected_active_release_id must be 'absent' or a SHA-256 release id")

def assertExpectedFrontendActivationId (candidate : String) : Except Failure Unit :=
  require (candidate = "absent" ∨ isMutationId candidate = true)
    (frontendReleaseError .expectedActivationInvalid 400 "expected_activation_id must be 'absent' or a UUIDv4")

def parseReleaseRecord (record : FrontendReleaseRecord) : Except Failure FrontendReleaseRecord := do
  require (isReleaseId record.releaseId = true ∧ record.sha256 = record.releaseId ∧ isReleaseId record.treeSha256 = true ∧
      1 ≤ record.sizeBytes ∧ 1 ≤ record.fileCount)
    (frontendReleaseError .storageInvalid 500 "Frontend release metadata is invalid")
  return record

def parseActiveRelease (record : FrontendActiveReleaseRecord) : Except Failure FrontendActiveReleaseRecord := do
  require (isReleaseId record.releaseId = true ∧ record.sha256 = record.releaseId ∧ isReleaseId record.treeSha256 = true ∧
      isMutationId record.activationId = true ∧ isMutationId record.mutationId = true ∧ record.activationId = record.mutationId)
    (frontendReleaseError .authorityInvalid 500 "Frontend active release authority is invalid")
  return record

def checkpointInvalid : Failure := frontendReleaseError .checkpointInvalid 503 "Frontend release activation checkpoint is invalid"

variable (checkpoint : FrontendActivationCheckpoint)

def previousConsistent : Bool :=
  match checkpoint.previousAuthority with
  | some previous =>
    (parseActiveRelease previous).toBool && checkpoint.previousRoute == .release && previous.deploymentId == checkpoint.deploymentId &&
      previous.releaseId == checkpoint.expectedActiveReleaseId && previous.activationId == checkpoint.expectedActivationId
  | none =>
    checkpoint.previousRoute != .release && checkpoint.expectedActiveReleaseId == "absent" && checkpoint.expectedActivationId == "absent"

def checkpointValid : Bool :=
  isDeploymentId checkpoint.deploymentId && isReleaseId checkpoint.releaseId &&
    (checkpoint.expectedActiveReleaseId == "absent" || isReleaseId checkpoint.expectedActiveReleaseId) &&
    isMutationId checkpoint.activationId &&
    (checkpoint.expectedActivationId == "absent" || isMutationId checkpoint.expectedActivationId) && previousConsistent checkpoint

def parseActivationCheckpoint (codec : CheckpointCodec FrontendActivationCheckpoint) (candidate : String) :
    Except Failure (Option FrontendActivationCheckpoint) :=
  if candidate = "\x7b\x7d" then .ok none
  else
    match codec.decode candidate with
    | some checkpoint => if checkpointValid checkpoint then .ok (some checkpoint) else .error checkpointInvalid
    | none => .error checkpointInvalid

def assertActivationCheckpointIdentity (projectRef mutationId : String) : Except Failure Unit :=
  require (checkpoint.activationId = mutationId ∧ ∀ previous ∈ checkpoint.previousAuthority, previous.projectRef = projectRef)
    (frontendReleaseError .checkpointInvalid 503 "Frontend release activation checkpoint identity is invalid")

/-!
## 画面のリリースの置き場、関門、台帳（services/frontend-release-storage.ts、services/frontend-release-mutation.ts）

配備の鎖の中で一つずつ行われるので、ほかの有効化は入らない。台帳の文の前には、時間が経ち、後始末の働き手が行を受け持つことがあるが、
`withLease` の取引は行の錠を持つ。
-/

def mutationLeaseSeconds : Nat := 300

def activateOperation : String := "frontend.release.activate"

structure Site where
  projectRef : String
  deploymentId : String
  baseDir : String
  stableSha256 : List (String × String) → String
  base64url : String → String
  trimmed : String → Bool
  codec : CheckpointCodec FrontendActivationCheckpoint

variable (site : Site)

def frontendReleaseActivationResourceKey (deploymentId : String) : String := "v1/frontend_release/" ++ site.base64url deploymentId

def frontendReleaseActivationFingerprint (input : ActivateFrontendReleaseInput) : String :=
  site.stableSha256
    [("project_ref", input.projectRef), ("deployment_id", input.deploymentId), ("release_id", input.releaseId),
      ("expected_active_release_id", input.expectedActiveReleaseId), ("activation_id", input.mutationId),
      ("expected_activation_id", input.expectedActivationId)]

def deploymentDir (projectRef deploymentId : String) : String := site.baseDir ++ "/" ++ projectRef ++ "/" ++ deploymentId

def releaseBuildDir (projectRef deploymentId releaseId : String) : String :=
  deploymentDir site projectRef deploymentId ++ "/releases/" ++ releaseId ++ "/build"

def legacyBuildDir (projectRef deploymentId : String) : String := deploymentDir site projectRef deploymentId ++ "/build"

/-! ## 状態 -/

structure Begun where
  key : MutationKey
  releaseId : String
  active : Option FrontendActiveReleaseRecord
  root : Option String

structure Finished where
  key : MutationKey
  status : FinishStatus
  active : Option FrontendActiveReleaseRecord
  root : Option String

inductive Write where
  | writeActiveRelease (record : Option FrontendActiveReleaseRecord)
  | configureFrontendRoute (root : String)

/-- `claims` は働き手が受け取った行である。`begun`、`finished`、`writes` は、これまでに起きたことの控えで、文はこれを見ない。 -/
structure World where
  now : Timestamp
  rows : Journal
  active : Option FrontendActiveReleaseRecord
  root : Option String
  claims : List StoredProjectMutationRow
  begun : List Begun
  finished : List Finished
  writes : List Write

def Site.owns (row : StoredProjectMutationRow) : Bool :=
  row.key.projectRef = site.projectRef && row.resourceKey = some (frontendReleaseActivationResourceKey site site.deploymentId)

def World.Agrees (w : World) : Prop :=
  match w.active with
  | some active => w.root = some (releaseBuildDir site site.projectRef site.deploymentId active.releaseId)
  | none => w.root = none ∨ w.root = some (legacyBuildDir site site.projectRef site.deploymentId)

def World.Idle (w : World) : Prop := ∀ row ∈ w.rows, site.owns row = true → row.status.unresolved = false

inductive Interference where
  | elapse (milliseconds : Nat)
  | claimRecoverable (leaseOwner : String) (skip : List MutationKey) (tokens : MutationKey → String)

def recoveryBatchSize : Nat := 16

def recoverableClaims (leaseOwner : String) : ClaimRecoverableProjectMutationsInput :=
  { operations := [activateOperation], leaseOwner, leaseSeconds := mutationLeaseSeconds, limit := recoveryBatchSize }

def World.interfere (w : World) : Interference → World
  | .elapse milliseconds => { w with now := w.now + milliseconds }
  | .claimRecoverable leaseOwner skip tokens =>
    let claimed := claimRecoverableProjectMutations w.now w.rows (recoverableClaims leaseOwner) skip tokens
    { w with rows := claimed.2, claims := claimed.1 ++ w.claims }

/-! ## 文 -/

inductive Statement where
  | assertMutationSupported
  | readMutation
  | deployment
  | releaseRecord
  | activeRelease
  | readFrontendStaticRoot
  | beginAndClaim
  | checkpoint (phase : ActivationPhase)
  | verifyLease
  | commit
  | rollback
  | writeActiveRelease
  | configureFrontendRoute
  | complete (status : FinishStatus)
  | interruption (phase : ActivationPhase)

/-- `clock` はこの処理の時計、`deployment` と `release` は置き場から読んだ中身である。 -/
structure Response where
  outcome : Statement → Outcome External
  interference : List Interference
  clock : Timestamp
  leaseOwner : String
  leaseToken : String
  deployment : FrontendDeployment
  release : FrontendReleaseRecord

abbrev Program (α : Type) : Type := ExceptT Failure (Proc Response World) α

def statement {α : Type} (label : Statement) (act : Response → World → Except Failure (α × World)) : Program α :=
  await (fun ω => (ω.outcome label).map Failure.external) act

def journal {α : Type} (label : Statement) (act : Response → World → Except Failure (α × World)) : Program α :=
  statement label fun ω w => act ω (run World.interfere w ω.interference)

def ensure (c : Prop) [Decidable c] (error : Failure) : Program Unit := ExceptT.mk (pure (require c error))

def checked {α : Type} (result : Except Failure α) : Program α := ExceptT.mk (pure result)

/-! ## 置き場と関門 -/

def checkDeployment (projectRef deploymentId : String) (deployment : FrontendDeployment) : Except Failure FrontendDeployment := do
  assertFrontendIdentity projectRef deploymentId
  require (deployment.projectRef = projectRef ∧ deployment.id = deploymentId)
    (frontendReleaseError .deploymentInvalid 500 "Frontend deployment metadata is invalid")
  return deployment

def checkReleaseRecord (projectRef deploymentId releaseId : String) (release : FrontendReleaseRecord) :
    Except Failure FrontendReleaseRecord := do
  assertReleaseId releaseId
  let metadata ← parseReleaseRecord release
  require (metadata.projectRef = projectRef ∧ metadata.deploymentId = deploymentId ∧ metadata.releaseId = releaseId)
    (frontendReleaseError .storageInvalid 500 "Frontend release identity does not match its storage path")
  return metadata

def checkActiveRelease (projectRef deploymentId : String) (release : FrontendReleaseRecord) (active : FrontendActiveReleaseRecord) :
    Except Failure FrontendActiveReleaseRecord := do
  let active ← parseActiveRelease active
  require (active.projectRef = projectRef ∧ active.deploymentId = deploymentId)
    (frontendReleaseError .authorityInvalid 500 "Frontend active release identity is invalid")
  let release ← checkReleaseRecord projectRef deploymentId active.releaseId release
  require (release.sha256 = active.sha256 ∧ release.treeSha256 = active.treeSha256)
    (frontendReleaseError .authorityInvalid 500 "Frontend active release does not match its immutable artifact")
  return active

namespace Storage

def deployment (projectRef deploymentId : String) : Program FrontendDeployment :=
  statement .deployment fun ω w => (checkDeployment projectRef deploymentId ω.deployment).map fun deployment => (deployment, w)

def assertMutationSupported (projectRef deploymentId : String) : Program Unit := do
  let _ ← deployment projectRef deploymentId
  statement .assertMutationSupported fun _ w => .ok ((), w)

def releaseRecord (projectRef deploymentId releaseId : String) : Program FrontendReleaseRecord :=
  statement .releaseRecord fun ω w => (checkReleaseRecord projectRef deploymentId releaseId ω.release).map fun release => (release, w)

def activeRelease (projectRef deploymentId : String) : Program (Option FrontendActiveReleaseRecord) :=
  statement .activeRelease fun ω w =>
    match w.active with
    | none => .ok (none, w)
    | some active => (checkActiveRelease projectRef deploymentId ω.release active).map fun active => (some active, w)

def writeActiveRelease (record : Option FrontendActiveReleaseRecord) : Program Unit :=
  statement .writeActiveRelease fun _ w => .ok ((), { w with active := record, writes := .writeActiveRelease record :: w.writes })

def releaseIdOf (active : Option FrontendActiveReleaseRecord) : String := (active.map FrontendActiveReleaseRecord.releaseId).getD "absent"

def activationIdOf (active : Option FrontendActiveReleaseRecord) : String :=
  (active.map FrontendActiveReleaseRecord.activationId).getD "absent"

def compareAndSwapActiveRelease (projectRef deploymentId expectedReleaseId expectedActivationId : String)
    (record : Option FrontendActiveReleaseRecord) : Program Bool := do
  let current ← activeRelease projectRef deploymentId
  if releaseIdOf current ≠ expectedReleaseId ∨ activationIdOf current ≠ expectedActivationId then pure false
  else do
    writeActiveRelease record
    let readBack ← activeRelease projectRef deploymentId
    ensure (releaseIdOf readBack = releaseIdOf record ∧ activationIdOf readBack = activationIdOf record)
      (frontendReleaseError .authorityInvalid 500 "Frontend active release authority read-back failed")
    pure true

end Storage

namespace Gateway

def readFrontendStaticRoot : Program (Option String) := statement .readFrontendStaticRoot fun _ w => .ok (w.root, w)

def configureFrontendRoute (root : String) : Program Unit :=
  statement .configureFrontendRoute fun _ w => .ok ((), { w with root := some root, writes := .configureFrontendRoute root :: w.writes })

end Gateway

end Supacloud.FrontendActivation
