import Mathlib.Data.List.AList
import Supacloud.Library.Checked
import Supacloud.Library.Numbers
import Supacloud.Library.Runs

/-!
# 使用量の台帳（services/usage-meter.ts）

時刻は 1970 年からのミリ秒である。定数の `schema` と `aggregation` は持たない。
受領書に金額の鍵はないので、`assertUsagePayloadRecordsUsageOnly` は何もしない。
-/

namespace Supacloud.Usage

open Library

abbrev Text := List Char

def InRange (t : ℤ) : Prop := -maxTime ≤ t ∧ t ≤ maxTime

instance : DecidablePred InRange := fun t => inferInstanceAs (Decidable (-maxTime ≤ t ∧ t ≤ maxTime))

/-- `newDate` は `new Date(value).getTime()` で、`NaN` は `none` である。`receiptId` は `stableSha256` の値である。 -/
structure Platform where
  newDate : Text → Option ℤ
  receiptId : Text → Text → Text
  clipped : ∀ s, ∀ t ∈ newDate s, InRange t
  newDate_isoString : ∀ t, InRange t → newDate (isoString t) = some t

inductive UsageDimension where
  | cpu
  | storage
  | function
deriving DecidableEq

def UsageDimension.text : UsageDimension → Text
  | .cpu => "cpu".toList
  | .storage => "storage".toList
  | .function => "function".toList

def usageUnits : UsageDimension → Text
  | .cpu => "cpu_milliseconds".toList
  | .storage => "storage_bytes".toList
  | .function => "function_invocations".toList

inductive UsageError where
  | projectInvalid
  | dimensionInvalid
  | windowInvalid
  | quantityInvalid
  | observationInvalid
  | observedAtInvalid
  | subjectInvalid
  | observationConflict
  | counterOverflow
  | rangeError

inductive Value where
  | undefined
  | null
  | string (s : Text)
  | number (n : Number)
  | other

/-- `Partial<UsageObservation>`。`none` は、オブジェクトでない値か配列である。 -/
structure UsageObservation where
  projectRef : Value
  dimension : Value
  quantity : Value
  observationId : Value
  observedAt : Value
  subject : Value

structure Observed where
  projectRef : Text
  dimension : UsageDimension
  unit : Text
  quantity : ℤ
  observedAt : Text
  observationId : Text
  subject : Option Text
  receiptId : Text
deriving DecidableEq

structure PreparedUsageObservation extends Observed where
  windowStart : Text

structure UsageReceipt extends Observed where
  recordedAt : Text

structure StoredReceipt extends UsageReceipt where
  windowStart : Text

structure UsageCounter where
  projectRef : Text
  dimension : UsageDimension
  unit : Text
  windowStart : Text
  windowEnd : Text
  quantity : ℤ
  receiptCount : ℤ

/-! ## 検査 -/

variable (p : Platform)

def parseUsageInstant (value : Value) (code : UsageError) : Except UsageError ℤ :=
  match value with
  | .string s => if s.all isWhitespace then .error code else fetch (p.newDate s) code
  | _ => .error code

def toISOString (t : ℤ) : Except UsageError Text := if InRange t then .ok (isoString t) else .error .rangeError

/-- 1970-01-01 からの日数。年の始まりを三月に移して数える。 -/
def dayNumber (year month day : ℤ) : ℤ :=
  let y := if month ≤ 2 then year - 1 else year
  365 * y + y / 4 - y / 100 + y / 400 + (153 * ((month + 9) % 12) + 2) / 5 + day - 719469

/-- `Date.UTC`。0 から 99 までの年は、1900 を足して読む。 -/
def dateUTC (c : Civil) (hours : ℤ) : ℤ :=
  let year := if 0 ≤ c.year ∧ c.year ≤ 99 then 1900 + c.year else c.year
  dayNumber year c.month c.day * 86400000 + hours * 3600000

def usageWindowStart (observedAt : Text) : Except UsageError Text := do
  let parsed ← parseUsageInstant p (.string observedAt) .observedAtInvalid
  toISOString (dateUTC (civil (parsed / 86400000)) (parsed % 86400000 / 3600000))

def usageWindowEnd (windowStart : Text) : Except UsageError Text := do
  let start ← parseUsageInstant p (.string windowStart) .windowInvalid
  toISOString (start + 3600000)

def isName (extra : String) (limit : ℕ) (s : Text) : Bool :=
  0 < s.length && s.length ≤ limit && s.all fun c => c.isAlphanum || extra.toList.contains c

def parseUsageProjectRef : Value → Except UsageError Text
  | .string s => if isName "_-" 20 s then .ok s else .error .projectInvalid
  | _ => .error .projectInvalid

def parseUsageDimension : Value → Except UsageError (Option UsageDimension)
  | .undefined | .null | .string [] => .ok none
  | .string s => (fetch ([.cpu, .storage, .function].find? (·.text = s)) .dimensionInvalid).map some
  | _ => .error .dimensionInvalid

def positiveQuantity : Value → Except UsageError ℤ
  | .number n => fetch (n.safeInteger?.filter (0 < ·)) .quantityInvalid
  | _ => .error .quantityInvalid

def identifier (value : Value) (code : UsageError) : Except UsageError Text :=
  match value with
  | .string s => if isName "._:@/-" 200 s then .ok s else .error code
  | _ => .error code

def parseSubject : Value → Except UsageError (Option Text)
  | .undefined | .null => .ok none
  | subject => (identifier subject .subjectInvalid).map some

def parseUsageObservation (value : Option UsageObservation) : Except UsageError PreparedUsageObservation := do
  let input ← fetch value .observationInvalid
  let projectRef ← parseUsageProjectRef input.projectRef
  let dimension ← fetch (← parseUsageDimension input.dimension) .dimensionInvalid
  let quantity ← positiveQuantity input.quantity
  let observationId ← identifier input.observationId .observationInvalid
  let observedAt ← toISOString (← parseUsageInstant p input.observedAt .observedAtInvalid)
  let subject ← parseSubject input.subject
  let windowStart ← usageWindowStart p observedAt
  pure { projectRef, dimension, unit := usageUnits dimension, quantity, observedAt, observationId, subject,
         receiptId := p.receiptId projectRef observationId, windowStart }

def usageReceipt (prepared : PreparedUsageObservation) (recordedAt : Text) : Except UsageError UsageReceipt := do
  let recordedAt ← toISOString (← parseUsageInstant p (.string recordedAt) .observedAtInvalid)
  pure { prepared.toObserved with recordedAt }

/-! ## 記録 -/

def sameObservation (existing : UsageReceipt) (prepared : PreparedUsageObservation) : Bool :=
  existing.toObserved = prepared.toObserved

def NUL : Char := Char.ofNat 0

def counterKey (projectRef : Text) (dimension : UsageDimension) (windowStart : Text) : Text :=
  projectRef ++ NUL :: (dimension.text ++ NUL :: windowStart)

def observationKey (projectRef observationId : Text) : Text := projectRef ++ NUL :: observationId

def Observed.key (o : Observed) : Text := observationKey o.projectRef o.observationId

def PreparedUsageObservation.account (o : PreparedUsageObservation) : Text := counterKey o.projectRef o.dimension o.windowStart

/-- 二つの `Map`。挿入の順は、`record` では使わない。 -/
structure UsageMeter where
  receipts : AList fun _ : Text => StoredReceipt := ∅
  counters : AList fun _ : Text => UsageCounter := ∅

structure UsageRecordResult where
  receipt : UsageReceipt
  replayed : Bool

structure Call where
  value : Option UsageObservation
  recordedAt : Text

def UsageMeter.count (m : UsageMeter) (prepared : PreparedUsageObservation) (recordedAt : Text) :
    Except UsageError (UsageReceipt × UsageCounter) := do
  let current := m.counters.lookup prepared.account
  require (∀ c ∈ current, c.quantity ≤ maxSafeInteger - prepared.quantity ∧ c.receiptCount < maxSafeInteger) .counterOverflow
  let receipt ← usageReceipt p prepared recordedAt
  let windowEnd ← usageWindowEnd p prepared.windowStart
  pure (receipt, { projectRef := prepared.projectRef, dimension := prepared.dimension, unit := prepared.unit,
                   windowStart := prepared.windowStart, windowEnd, quantity := current.elim 0 (·.quantity) + prepared.quantity,
                   receiptCount := current.elim 0 (·.receiptCount) + 1 })

def UsageMeter.record (m : UsageMeter) (call : Call) : Except UsageError UsageRecordResult × UsageMeter :=
  match parseUsageObservation p call.value with
  | .error e => (.error e, m)
  | .ok prepared =>
    match m.receipts.lookup prepared.key with
    | some existing =>
      if sameObservation existing.toUsageReceipt prepared then
        ((usageReceipt p prepared existing.recordedAt).map ({ receipt := ·, replayed := true }), m)
      else (.error .observationConflict, m)
    | none =>
      match m.count p prepared call.recordedAt with
      | .error e => (.error e, m)
      | .ok (receipt, counter) =>
        (.ok { receipt, replayed := false },
          { receipts := m.receipts.insert prepared.key { receipt with windowStart := prepared.windowStart }
            counters := m.counters.insert prepared.account counter })

def UsageMeter.run (m : UsageMeter) (calls : List Call) : UsageMeter := Library.run (fun m call => (m.record p call).2) m calls

def UsageMeter.succeeded (m : UsageMeter) : List Call → List Call
  | [] => []
  | call :: calls =>
    match m.record p call with
    | (.ok _, m') => call :: m'.succeeded calls
    | (.error _, m') => m'.succeeded calls

end Supacloud.Usage
