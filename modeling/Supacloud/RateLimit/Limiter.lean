import Supacloud.Library.Runs

/-!
# 認証の回数の制限（supacloud-lite/src/runtime/auth/rate-limit.ts）

箱の名は、動作と鍵を `:` でつないだものである。時刻はミリ秒である。
-/

namespace Supacloud.RateLimit

open Library

abbrev Text := List Char

structure RateLimitRule where
  limit : Nat
  windowMs : Int

def bucketKey (action key : Text) : Text := action ++ ':' :: key

def since (times : List Int) (cutoff : Int) : List Int := times.filter fun t => t > cutoff

structure RateLimiter where
  hits : Text → Option (List Int)
  rules : Text → Option RateLimitRule

namespace RateLimiter

variable (limiter : RateLimiter)

def bucket (name : Text) : List Int := (limiter.hits name).getD []

def store (name : Text) (times : List Int) : RateLimiter :=
  { limiter with hits := fun n => if n = name then some times else limiter.hits n }

/-- 許すときは `none`、断るときは、窓が空くまでの秒数を返す。 -/
def check (action key : Text) (now : Int) : Option Int × RateLimiter :=
  match limiter.rules action with
  | none => (none, limiter)
  | some rule =>
    let name := bucketKey action key
    let cutoff := now - rule.windowMs
    let recent := since (limiter.bucket name) cutoff
    if recent.length ≥ rule.limit then
      let retryMs := recent.head?.getD now + rule.windowMs - now
      (some (max 1 (-(-retryMs / 1000))), limiter)
    else (none, limiter.store name (recent ++ [now]))

/-- 一時間より古い時刻だけの箱を、`sweep` は捨てる。 -/
def stale (now : Int) (times : List Int) : Bool := times.all fun t => now - t > 60 * 60 * 1000

def sweep (now : Int) : RateLimiter :=
  { limiter with hits := fun name => (limiter.hits name).filter fun times => !stale now times }

end RateLimiter

inductive Call where
  | check (action key : Text) (now : Int)
  | sweep (now : Int)

def Call.now : Call → Int
  | .check _ _ now => now
  | .sweep now => now

structure Hit where
  action : Text
  key : Text
  time : Int

/-- 制限と、それまでに許した、規則のある呼び出し、最後の呼び出しの時刻。 -/
structure World where
  limiter : RateLimiter
  allowed : List Hit
  clock : Int

def World.start (rules : Text → Option RateLimitRule) (clock : Int) : World where
  limiter := { hits := fun _ => none, rules }
  allowed := []
  clock

def World.step (w : World) : Call → World
  | .check action key now =>
    let (answer, limiter) := w.limiter.check action key now
    { limiter
      allowed := if (w.limiter.rules action).isSome ∧ answer = none then w.allowed ++ [⟨action, key, now⟩] else w.allowed
      clock := now }
  | .sweep now => { w with limiter := w.limiter.sweep now, clock := now }

def World.times (w : World) (action key : Text) : List Int :=
  (w.allowed.filter fun hit => hit.action = action && hit.key = key).map Hit.time

/-- 長さ `windowMs` のどの半開区間でも、許した呼び出しは `limit` 個までである。 -/
def World.Bounded (w : World) : Prop :=
  ∀ action key rule start, w.limiter.rules action = some rule →
    ((w.times action key).countP fun t => start ≤ t ∧ t < start + rule.windowMs) ≤ rule.limit

/-- 断るのは、直前の窓で `limit` 個を許したときだけで、返した秒数の後の呼び出しは、間に `sweep` があっても許す。 -/
def World.Refuses (w : World) : Call → Prop
  | .check action key now => ∀ rule s, w.limiter.rules action = some rule → (w.limiter.check action key now).1 = some s →
    rule.limit ≤ ((w.times action key).countP fun t => now - rule.windowMs < t ∧ t ≤ now) ∧
    ∀ sweeps : List Int, ((sweeps.foldl RateLimiter.sweep (w.limiter.check action key now).2).check action key (now + 1000 * s)).1 = none
  | .sweep _ => True

def World.InOrder (w : World) (call : Call) : Prop := w.clock ≤ call.now

/-- 上限は一以上で、箱の名は動作と鍵の組ごとに異なり、捨てる箱に窓の終わらない時刻はない。 -/
def World.Spared (w : World) : Call → Prop
  | .check action key _ => ∀ rule ∈ w.limiter.rules action, 1 ≤ rule.limit ∧
    ∀ hit ∈ w.allowed, bucketKey hit.action hit.key = bucketKey action key → hit.action = action ∧ hit.key = key
  | .sweep now => ∀ hit ∈ w.allowed, ∀ rule ∈ w.limiter.rules hit.action,
    RateLimiter.stale now (w.limiter.bucket (bucketKey hit.action hit.key)) → hit.time + rule.windowMs ≤ now

instance (w : World) : (call : Call) → Decidable (w.Spared call)
  | .check action _ _ => inferInstanceAs (Decidable (∀ rule ∈ w.limiter.rules action, _))
  | .sweep _ => inferInstanceAs (Decidable (∀ hit ∈ w.allowed, _))

instance (w : World) (call : Call) : Decidable (w.InOrder call) := inferInstanceAs (Decidable (_ ≤ _))

def Throttles (rules : Text → Option RateLimitRule) (clock : Int) (calls : List Call) : Prop :=
  (run World.step (.start rules clock) calls).Bounded ∧ Along World.step World.Refuses (.start rules clock) calls

end Supacloud.RateLimit
