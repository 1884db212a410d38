import Supacloud.DataDirLock.Lemmas

/-!
# 錠の排他
-/

namespace Supacloud.DataDirLock

open Library

/-- 死んだ持ち主の錠だけを消す走行では、錠を持つ生きたプロセスは、途中のどこでも高々一つである。 -/
theorem lock_exclusive (alive : Pid → Bool) (found : Option (Option DataDirLockOwner)) (es : List Event)
    (h : Along step World.RemovesDead (.start alive found) es) :
    ∀ before after, es = before ++ after → (run step (.start alive found) before).Exclusive := by
  intro before after hsp
  rw [hsp, Along.append] at h
  have hli : (run step (.start alive found) before).Linked := h.1.invariant (fun _ _ hw hres => hw.step hres) linked_start
  exact hli.exclusive

def crashedOwner : DataDirLockOwner where
  pid := 9
  nonce := "9"

def aliveBut9 (pid : Pid) : Bool := pid != 9

def takenInTurn : List Event :=
  [.acquireDataDirLock 1 "1", .proceed 0 true, .proceed 0 true, .proceed 0 true, .proceed 0 true, .proceed 0 true, .proceed 0 true,
    .release 0, .proceed 0 true, .proceed 0 true, .proceed 0 true, .acquireDataDirLock 2 "2", .proceed 1 true, .proceed 1 true]

theorem lock_exclusive_in_turn : (run step (.start aliveBut9 (some (some crashedOwner))) takenInTurn).Exclusive ∧
    (run step (.start aliveBut9 (some (some crashedOwner))) takenInTurn).Holds 1 := by
  have hde : Along step World.RemovesDead (.start aliveBut9 (some (some crashedOwner))) takenInTurn := by decide
  refine ⟨lock_exclusive aliveBut9 (some (some crashedOwner)) takenInTurn hde takenInTurn [] (by simp), ?_⟩
  exact ⟨{ pid := 2, nonce := some "2", pc := .held 2 }, 2, by rfl, rfl⟩

def removedTwice : List Event :=
  [.acquireDataDirLock 1 "1", .acquireDataDirLock 2 "2", .proceed 0 true, .proceed 1 true, .proceed 0 true, .proceed 1 true,
    .proceed 0 true, .proceed 1 true, .proceed 0 true, .proceed 0 true, .proceed 0 true, .proceed 1 true, .proceed 1 true, .proceed 1 true]

theorem lock_held_twice : ¬ (run step (.start aliveBut9 (some (some crashedOwner))) removedTwice).Exclusive := by
  intro h
  have hfi : (run step (.start aliveBut9 (some (some crashedOwner))) removedTwice).Holds 0 :=
    ⟨{ pid := 1, nonce := some "1", pc := .held 1 }, 1, by rfl, rfl⟩
  have hse : (run step (.start aliveBut9 (some (some crashedOwner))) removedTwice).Holds 1 :=
    ⟨{ pid := 2, nonce := some "2", pc := .held 2 }, 2, by rfl, rfl⟩
  exact absurd (h 0 1 hfi hse) (by decide)

end Supacloud.DataDirLock
