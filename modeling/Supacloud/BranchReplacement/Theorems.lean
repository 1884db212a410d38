import Supacloud.BranchReplacement.Lemmas.Recovery

/-!
# 置き換えの安全
-/

namespace Supacloud.BranchReplacement

open Library

/-- 親の接続を止める文の結果が正しく知らされるかぎり、どこで途切れても、元の中身は失われない。 -/
theorem replacement_safe (project : Option String) (branch : Option Database) (parentRef branchRef : String) (replacement : List Response)
    (recoveries : List (List Response)) (hacknowledged : ∀ ω ∈ replacement, ω.Acknowledged) :
    (history (.start project branch) parentRef branchRef replacement recoveries).Kept ∧
      (history (.start project branch) parentRef branchRef replacement recoveries).Settled := by
  have hinv : (history (.start project branch) parentRef branchRef replacement recoveries).Inv := by
    rw [history]
    have hre : ((replaceParentDatabaseFromBranch parentRef branchRef).run.exec replacement (.start project branch)).Inv :=
      (replace_spec (fun _ h => h) parentRef branchRef).exec (World.inv_start project branch) ⟨⟨rfl, rfl⟩, rfl⟩ replacement hacknowledged
    generalize (replaceParentDatabaseFromBranch parentRef branchRef).run.exec replacement (.start project branch) = w at hre
    induction recoveries generalizing w with
    | nil => exact hre
    | cons responses recoveries ih =>
      exact ih _ ((recoverInterrupted_spec (A := fun _ => True)).exec hre trivial responses fun _ _ => trivial)
  exact ⟨hinv.kept, hinv.settled⟩

def healthy : Response := { outcome := fun _ => .done, runtime := ⟨"running", "healthy"⟩ }

def refused : Response := { healthy with outcome := fun _ => .failed (.error "connection refused") }

/-- 親の名を変えたところで途切れ、一度目の回復は失敗し、二度目で元に戻る。 -/
def recovered (n : ℕ) : World :=
  history (.start (some "password") (some ⟨.original, true⟩)) "alpha" "branch" (List.replicate 20 healthy)
    ([List.replicate 5 healthy ++ [refused], List.replicate 40 healthy].take n)

theorem replacement_safe_completed : (recovered 1).databases .parent = none ∧ (recovered 1).journal ≠ none ∧
    (recovered 2).databases .parent = some ⟨.original, true⟩ ∧ (recovered 2).journal = none ∧ (recovered 2).Kept ∧ (recovered 2).Settled := by
  refine ⟨by decide, by decide, by decide, by decide, replacement_safe _ _ _ _ _ _ ?_⟩
  intro ω hω error
  rw [List.eq_of_mem_replicate hω]
  exact nofun

def unacknowledged : Response :=
  { outcome := fun label =>
      if label = .setDatabaseConnectionsAllowed .parent false then .lost (.error "connection terminated unexpectedly") else .done
    runtime := ⟨"running", "healthy"⟩ }

theorem replacement_unsettled : ¬ ∀ project branch parentRef branchRef replacement recoveries,
      (history (.start project branch) parentRef branchRef replacement recoveries).Kept ∧
        (history (.start project branch) parentRef branchRef replacement recoveries).Settled := by
  intro h
  have hse := (h (some "password") (some ⟨.original, true⟩) "alpha" "branch" (List.replicate 40 unacknowledged) []).2
  obtain ⟨database, hpa, hal, -⟩ := hse (by decide)
  have hrf : (history (.start (some "password") (some ⟨.original, true⟩)) "alpha" "branch"
      (List.replicate 40 unacknowledged) []).databases .parent = some ⟨.original, false⟩ := by decide
  cases hrf.symm.trans hpa
  cases hal

end Supacloud.BranchReplacement
