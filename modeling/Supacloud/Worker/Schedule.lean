import Supacloud.Library.Numbers
import Supacloud.Worker.Admission

/-!
# 予定の埋め戻し（worker/src/schedule.ts、worker/src/job-policy.ts）

`BigInt` の `%` と `/` は、零に向けて丸める `Int.tmod` と `Int.tdiv` である。
-/

namespace Supacloud.Worker

open Library

inductive ScheduleError where
  | jobKeyInvalid
  | queueInvalid
  | scheduleInvalid
  | backfillLimit
deriving DecidableEq

/-- `Date`。時刻の値は、範囲の外では `NaN` になる。 -/
structure Date where
  time : Option ℤ
  clipped : ∀ t ∈ time, -maxTime ≤ t ∧ t ≤ maxTime

def newDate (t : ℤ) : Date where
  time := if -maxTime ≤ t ∧ t ≤ maxTime then some t else none
  clipped := by grind

def timestamp (value : Date) : Except ScheduleError ℤ :=
  match value.time with
  | none => .error .scheduleInvalid
  | some t => .ok t

/-- `^[-A-Za-z0-9_.:@/]{1,200}$`。この文字に空白はないので、`trim` は何も変えない。 -/
def validateJobKey (value : Text) : Except ScheduleError Text :=
  if 0 < value.length && value.length ≤ 200 && value.all fun c => c.isAlphanum || "_.:@/-".toList.contains c then .ok value
  else .error .jobKeyInvalid

/-- `^[a-z0-9][a-z0-9_-]{0,127}$` -/
def validateQueueName (value : Text) : Except ScheduleError Text :=
  let lower (c : Char) : Bool := c.isLower || c.isDigit
  if value.head?.any lower && value.length ≤ 128 && (value.all fun c => lower c || c = '_' || c = '-')
    && !"supacloud_internal_".toList.isPrefixOf value then .ok value
  else .error .queueInvalid

def stableJobKey (queueName jobKey : Text) : Except ScheduleError Text := do
  let queueName ← validateQueueName queueName
  let jobKey ← validateJobKey jobKey
  validateJobKey (queueName ++ ':' :: jobKey)

def scheduleQueue : Text := "schedule".toList

def scheduledJobKey (scheduleId : Text) (occurrence : Date) : Except ScheduleError Text :=
  let key := do
    let scheduleId ← validateJobKey scheduleId
    let t ← timestamp occurrence
    stableJobKey scheduleQueue (scheduleId ++ ':' :: isoString t)
  key.mapError fun _ => .scheduleInvalid

/-! ## 埋め戻し -/

structure BackfillWindow where
  scheduleId : Text
  intervalSeconds : Number
  fromDate : Date
  toDate : Date
  anchor : Option Date
  limit : Option Number

structure Window where
  first : ℤ
  last : ℤ
  anchor : ℤ
  interval : ℤ
  limit : ℤ
  positive : 0 < interval
  ordered : first ≤ last

def BackfillWindow.bound (window : BackfillWindow) (first last anchor : ℤ) : Except ScheduleError Window :=
  match window.intervalSeconds.safeInteger?, (window.limit.getD (.finite 1000)).safeInteger? with
  | some seconds, some limit =>
    if h : 1 ≤ seconds ∧ safe (seconds * 1000) ∧ first ≤ last ∧ 1 ≤ limit ∧ limit ≤ 10000 then
      .ok { first, last, anchor, interval := seconds * 1000, limit, positive := by omega, ordered := h.2.2.1 }
    else .error .scheduleInvalid
  | _, _ => .error .scheduleInvalid

def BackfillWindow.anchorTime (window : BackfillWindow) : Except ScheduleError ℤ :=
  match window.anchor with
  | none => .ok 0
  | some date => timestamp date

def BackfillWindow.check (window : BackfillWindow) : Except ScheduleError Window := do
  let first ← timestamp window.fromDate
  let last ← timestamp window.toDate
  let anchor ← window.anchorTime
  let _ ← scheduledJobKey window.scheduleId (newDate first)
  window.bound first last anchor

def occurrencesFrom (scheduleId : Text) (step last : ℤ) (hstep : 0 < step) (current : ℤ) : Except ScheduleError (List Date) :=
  if current ≤ last then do
    let occurrence := newDate current
    let _ ← scheduledJobKey scheduleId occurrence
    let rest ← occurrencesFrom scheduleId step last hstep (current + step)
    return occurrence :: rest
  else return []
termination_by (last + 1 - current).toNat
decreasing_by omega

namespace Window

variable (r : Window)

def remainder : ℤ := ((r.first - r.anchor).tmod r.interval + r.interval).tmod r.interval

def start : ℤ := r.first + if r.remainder = 0 then 0 else r.interval - r.remainder

def count : ℤ := if r.last < r.start then 0 else (r.last - r.start).tdiv r.interval + 1

end Window

def backfillOccurrences (window : BackfillWindow) : Except ScheduleError (List Date) := do
  let r ← window.check
  if r.limit < r.count then throw .backfillLimit
  occurrencesFrom window.scheduleId r.interval r.last r.positive r.start

end Supacloud.Worker
