import Supacloud.ExecutionPolicy.Lemmas

/-!
# 遮断器の性質
-/

namespace Supacloud.ExecutionPolicy

open Commands Contracts Library

variable {α : Type}

section

variable (p : ExecutionPolicy) (events : List (Event α))

include p events

theorem calls_safe : CallsSafe p (run (step p) .start events) := by
  obtain ⟨hgu, hre⟩ := invariant_run p events
  have hru : ∀ later id i earlier, (run (step p) .start events).log = later ++ .ran id i :: earlier →
      RunOk p earlier (.ran id i) := fun later id i earlier hsp => hre.runs later (.ran id i) earlier hsp
  refine ⟨fun id i hmem => ?_, hgu.probe, fun hki later id i earlier hsp => ?_, hre.runs_le⟩
  · obtain ⟨later, earlier, hsp⟩ := List.append_of_mem hmem
    exact (hru later id i earlier hsp).1
  · exact (hru later id i earlier hsp).2 hki

theorem stale_ignored : StaleIgnored p events := by
  intro before parentAborted now between e after _ he hgen
  have hst : StartedIn (run (step p) .start (before ++ .execute parentAborted now :: between))
      (run (step p) .start before).calls.length (run (step p) .start before).breaker.generation := by
    rw [run_append, run_cons]
    refine run_invariant (I := fun s => StartedIn s _ _) ?_ startedIn_execute
    exact fun _ _ h => h.move step_move
  have hsp : before ++ .execute parentAborted now :: (between ++ [e]) = (before ++ .execute parentAborted now :: between) ++ [e] := by simp
  have hla : run (step p) .start ((before ++ .execute parentAborted now :: between) ++ [e]) =
      step p (run (step p) .start (before ++ .execute parentAborted now :: between)) e := run_append
  rw [hsp, hla]
  exact stale_same hst hgen he

/-- 期限の前に `run` を呼ぶのは、始まった後に世代が変わった呼び出しの再試行だけである。 -/
theorem circuit_safe : (∀ before after, events = before ++ after → CallsSafe p (run (step p) .start before)) ∧ StaleIgnored p events :=
  ⟨fun before _ _ => calls_safe p before, stale_ignored p events⟩

end

def retryingPolicy : ExecutionPolicy where
  kind := .command
  retry := some { maxAttempts := 2, delayMs := 1 }
  circuit := some { failureThreshold := 1, resetAfterMs := 1000 }
  bounded := by decide

def retriedWhileOpen : List (Event Unit) :=
  [.execute false 0, .execute false 0, .settle 0 (.error .other) { classified := some .rolledBack, isFailure := some true, now := 0 },
    .settle 1 (.error .other) { classified := some .stop, isFailure := some true, now := 0 },
    .wake 0 { classified := none, isFailure := none, now := 10 }]

theorem retried_while_open : ¬ NeverEarly (run (step retryingPolicy) .start retriedWhileOpen) := by
  intro h
  have hle := h 0 { attempt := 2, now := 10, openUntil := 1000, generation := 1, currentGeneration := 0 } List.mem_cons_self
  exact absurd hle (by decide)

end Supacloud.ExecutionPolicy
