import Supacloud.ProjectMutations.Lemmas.Fence

/-!
# 台帳の性質
-/

namespace Supacloud.ProjectMutations

open Library

theorem sound (now events) : (run step (.start now) events).Sound :=
  run_invariant (fun _ e h => h.step e) (World.sound_start now)

/-- 番号は新しい受け持ちのたびに増え、状態と `checkpoint` は許された者だけが変え、終わった変更は変わらず、
食い違う登録は断られる。 -/
theorem journal_fenced (now : Timestamp) (before : List Event) (e : Event) :
    let w := run step (.start now) before
    w.Fenced ∧ w.Guarded e ∧ w.Settled e ∧ w.Exclusive ∧ w.Undisturbed e ∧ w.SingleUnresolved ∧ w.RefusesMismatch := by
  have h := sound now before
  exact ⟨h.fenced, h.guarded e, h.settled e, h.exclusive, h.undisturbed e, h.unique, World.refusesMismatch _⟩

end Supacloud.ProjectMutations
