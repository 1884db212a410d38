import Supacloud.RateLimit.Lemmas

/-!
# 認証の回数の制限の定理
-/

namespace Supacloud.RateLimit

open Library

/-- 時刻が戻らず、どの呼び出しも条件を満たすなら、制限が守られる。 -/
theorem throttles (rules : Text → Option RateLimitRule) (clock : Int) (calls : List Call)
    (h : Along World.step (fun w call => w.InOrder call ∧ w.Spared call) (.start rules clock) calls) : Throttles rules clock calls :=
  World.kept_start.along h

def only (action : String) (rule : RateLimitRule) (name : Text) : Option RateLimitRule := if name = action.toList then some rule else none

def sampleCalls : List Call :=
  [.check "otp".toList "k".toList 0, .check "otp".toList "k".toList 10, .check "otp".toList "k".toList 20, .sweep 3600021]

theorem throttles_otp : Throttles (only "otp" ⟨2, 3600000⟩) 0 sampleCalls := throttles _ _ _ (by decide)

/-- 二時間の窓の途中で `sweep` が箱を捨て、一つの窓で二度許す。 -/
theorem swept_window_repeats : ¬ ∀ rules clock calls, Along World.step World.InOrder (.start rules clock) calls → Throttles rules clock calls := by
  intro h
  have hbo := (h (only "otp" ⟨1, 7200000⟩) 0 [.check "otp".toList "k".toList 0, .sweep 3600001, .check "otp".toList "k".toList 3600002]
    (by decide)).1 "otp".toList "k".toList ⟨1, 7200000⟩ 0 rfl
  revert hbo
  decide

end Supacloud.RateLimit
