import Supacloud.FrontendActivation.Lemmas.Runs

/-!
# 画面のリリースの有効化の定理
-/

namespace Supacloud.FrontendActivation

open Library
open ProjectMutations

variable {site : Site}

/-- 走行の始まり。記録と経路が合い、終わっていない有効化も、受け取られた行もない。 -/
structure Start (site : Site) where
  world : World
  keys : (world.rows.map StoredProjectMutationRow.key).Nodup
  idle : world.Idle site
  agrees : world.Agrees site
  claims : world.claims = []
  finished : world.finished = []

theorem Start.inv (start : Start site) : start.world.Inv site where
  keys := start.keys
  single := by
    intro a ha _ _ how _ hunr _
    rw [start.idle a ha how] at hunr
    cases hunr
  tracked := by
    intro row hrow how hunr
    rw [start.idle row hrow how] at hunr
    cases hunr
  idle := fun _ => start.agrees
  known := by
    rw [start.claims]
    exact fun _ h => nomatch h
  claimed := by
    rw [start.claims]
    exact fun _ h => nomatch h
  succeeded := by
    rw [start.finished]
    exact fun _ h => nomatch h
  failed := by
    rw [start.finished]
    exact fun _ h => nomatch h

/-- 有効化は、どこで途切れても、記録と経路を合わせて終わるか、元のままで終わる。版の食い違いは、どちらも書かない。 -/
theorem activation_crash_atomic (start : Start site) (events : List Event) :
    let w := run (step site) start.world events
    (w.Idle site → w.Agrees site) ∧ (∀ finished ∈ w.finished, finished.status = .succeeded → w.Committed site finished) ∧
      (∀ finished ∈ w.finished, finished.status = .failedTerminal → w.Restored finished) ∧
      (∀ input responses error w', site.accepts input = true →
        (activateRelease site input).run.result responses w = some (.error error, w') → error.code = some .revisionConflict →
        w.Untouched w') ∧
      ∀ claim responses error w', claim ∈ w.claims → site.owns claim = true →
        (recoverClaim site claim).run.result responses w = some (.error error, w') → error.code ≠ some .revisionConflict := by
  have h := run_inv start.inv events
  refine ⟨h.idle, h.succeeded, h.failed, ?_, ?_⟩
  · intro input responses error w' hacs hre
    exact ((Spec.activateRelease hacs).result h ⟨rfl, rfl, rfl⟩ responses (fun _ _ => trivial) hre).2
  · intro claim responses error w' hcl how hre
    exact ((Spec.recoverClaim how).result h hcl responses (fun _ _ => trivial) hre).2

/-! ## 途切れて続けられた有効化 -/

def escape (c : Char) : List Char := if c = ',' ∨ c = '%' then ['%', c] else [c]

def writeFields (fields : List (List Char)) : List Char := fields.flatMap fun field => field.flatMap escape ++ [',']

def readFields (field : List Char) : List Char → Option (List (List Char))
  | [] => if field = [] then some [] else none
  | '%' :: c :: rest => readFields (field ++ [c]) rest
  | ',' :: rest => (readFields [] rest).map (field :: ·)
  | c :: rest => readFields (field ++ [c]) rest

theorem readFields_field (field front rest : List Char) :
    readFields front (field.flatMap escape ++ ',' :: rest) = (readFields [] rest).map ((front ++ field) :: ·) := by
  induction field generalizing front with
  | nil => simp [readFields]
  | cons c field ih =>
    rw [List.append_cons front c field, ← ih, List.flatMap_cons, List.append_assoc, escape]
    split
    · rfl
    · rename_i hc
      rw [not_or] at hc
      simp [readFields, hc]

theorem readFields_writeFields (fields : List (List Char)) : readFields [] (writeFields fields) = some fields := by
  induction fields with
  | nil => rfl
  | cons field fields ih =>
    rw [writeFields, List.flatMap_cons, List.append_assoc, List.singleton_append, readFields_field]
    exact congrArg (Option.map _) ih

def recordFields (record : FrontendActiveReleaseRecord) : List (List Char) :=
  [record.projectRef.toList, record.deploymentId.toList, record.releaseId.toList, record.sha256.toList, record.treeSha256.toList,
    record.activationId.toList, List.replicate record.activatedAt '1', record.mutationId.toList]

def checkpointFields (checkpoint : FrontendActivationCheckpoint) : List (List Char) :=
  [match checkpoint.phase with | .prepared => [] | .authorityApplied => ['a'] | .routeApplied => ['r'],
    checkpoint.deploymentId.toList, checkpoint.releaseId.toList, checkpoint.expectedActiveReleaseId.toList, checkpoint.activationId.toList,
    checkpoint.expectedActivationId.toList, List.replicate checkpoint.activatedAt '1',
    match checkpoint.previousRoute with | .absent => [] | .legacy => ['l'] | .release => ['r']] ++
  (checkpoint.previousAuthority.map recordFields).getD []

def recordOf : List (List Char) → Option FrontendActiveReleaseRecord
  | [projectRef, deploymentId, releaseId, sha256, treeSha256, activationId, activatedAt, mutationId] =>
    some { projectRef := .ofList projectRef, deploymentId := .ofList deploymentId, releaseId := .ofList releaseId, sha256 := .ofList sha256
           treeSha256 := .ofList treeSha256, activationId := .ofList activationId, activatedAt := activatedAt.length
           mutationId := .ofList mutationId }
  | _ => none

def checkpointOf : List (List Char) → Option FrontendActivationCheckpoint
  | phase :: deploymentId :: releaseId :: active :: activationId :: activation :: activatedAt :: route :: record =>
    some { phase := match phase with | [] => .prepared | ['a'] => .authorityApplied | _ => .routeApplied
           deploymentId := .ofList deploymentId, releaseId := .ofList releaseId, expectedActiveReleaseId := .ofList active
           activationId := .ofList activationId, expectedActivationId := .ofList activation, activatedAt := activatedAt.length
           previousAuthority := recordOf record
           previousRoute := match route with | [] => .absent | ['l'] => .legacy | _ => .release }
  | _ => none

theorem checkpointOf_fields (checkpoint : FrontendActivationCheckpoint) : checkpointOf (checkpointFields checkpoint) = some checkpoint := by
  obtain ⟨phase, _, _, _, _, _, _, previousAuthority, previousRoute⟩ := checkpoint
  cases phase <;> cases previousRoute <;> cases previousAuthority <;> simp [checkpointOf, checkpointFields, recordFields, recordOf]

def sampleCodec : CheckpointCodec FrontendActivationCheckpoint where
  encode checkpoint := .ofList (writeFields (checkpointFields checkpoint))
  decode text := (readFields [] text.toList).bind checkpointOf
  decode_encode checkpoint := by simp [readFields_writeFields, checkpointOf_fields]
  decode_empty := by rfl

def sampleSite : Site where
  projectRef := "demo"
  deploymentId := "web"
  baseDir := "/srv"
  stableSha256 fields := fields.foldl (fun text field => text ++ field.1 ++ "=" ++ field.2 ++ ";") ""
  base64url s := s
  trimmed _ := true
  codec := sampleCodec

def sampleRelease : FrontendReleaseRecord :=
  let digest := String.ofList (List.replicate 64 'a')
  { projectRef := "demo", deploymentId := "web", releaseId := digest, sha256 := digest, treeSha256 := digest, sizeBytes := 1, fileCount := 1
    createdAt := 0 }

def sampleInput : ActivateFrontendReleaseInput :=
  { projectRef := "demo", deploymentId := "web", releaseId := sampleRelease.releaseId, expectedActiveReleaseId := "absent"
    expectedActivationId := "absent", mutationId := "00000000-0000-4000-8000-000000000000", principal := { type := .project, id := "demo" } }

def sampleResponse (leaseToken : String) : Response where
  outcome
    | .configureFrontendRoute => .lost (.other "timeout")
    | _ => .done
  interference := []
  clock := 5
  leaseOwner := "api"
  leaseToken := leaseToken
  deployment := { id := "web", projectRef := "demo", domain := "demo.example", customDomains := [] }
  release := sampleRelease

def sampleStart : Start sampleSite where
  world := { now := 0, rows := [], active := none, root := none, claims := [], begun := [], finished := [], writes := [] }
  keys := List.nodup_nil
  idle := fun _ h => absurd h List.not_mem_nil
  agrees := .inl rfl
  claims := rfl
  finished := rfl

/-- 記録を書いたところで途切れ、受け持ちの期限が過ぎてから、同じ要求が続ける。関門の返事は失われる。 -/
def resumedEvents : List Event :=
  [.activate sampleInput (List.replicate 16 (sampleResponse "first")), .interfere (.elapse 300001),
    .activate sampleInput (List.replicate 40 (sampleResponse "second"))]

theorem activation_crash_atomic_resumed : let w := run (step sampleSite) sampleStart.world resumedEvents
    w.rows.map (fun row => (row.status, row.fencingEpoch)) = [(.succeeded, 2)] ∧
      (∃ finished ∈ w.finished, w.Committed sampleSite finished) ∧ w.Agrees sampleSite := by
  obtain ⟨hagrees, hcommitted, -⟩ := activation_crash_atomic sampleStart resumedEvents
  have hended : (run (step sampleSite) sampleStart.world resumedEvents).rows.map (fun row => (row.status, row.fencingEpoch)) = [(.succeeded, 2)] ∧
      (run (step sampleSite) sampleStart.world resumedEvents).finished.map Finished.status = [.succeeded] := by decide +kernel
  generalize run (step sampleSite) sampleStart.world resumedEvents = w at *
  obtain ⟨hrows, hfinished⟩ := hended
  obtain ⟨finished, hlist, hstatus⟩ := List.map_eq_singleton_iff.mp hfinished
  have hmem : finished ∈ w.finished := hlist ▸ List.mem_singleton_self finished
  refine ⟨hrows, ⟨finished, hmem, hcommitted finished hmem hstatus⟩, hagrees fun row hrow _ => ?_⟩
  have hrow := List.mem_map_of_mem (f := fun row => (row.status, row.fencingEpoch)) hrow
  rw [hrows, List.mem_singleton, Prod.mk.injEq] at hrow
  rw [hrow.1]
  rfl

end Supacloud.FrontendActivation
