import Mathlib.Algebra.GroupWithZero.Nat
import Mathlib.Data.List.DropRight
import Supacloud.Contracts.Values
import Supacloud.Library.Checked
import Supacloud.Library.Table

/-!
# ワークフローの表と待ち行列（management-api/src/db/sql-modules/workflows-public.sql）

時刻は百万分の一秒の数、識別子（uuid）は 128 ビットの数、jsonb は正規の JSON の木とする。
伝言の見えない期間はいつでも切れ、どの手続きも読まない archive は持たない。
-/

namespace Supacloud.Workflows

open Library

abbrev Uuid := Nat
abbrev Timestamp := Nat
abbrev Text := List Char
abbrev Jsonb := Contracts.CommandJson

def isObject : Jsonb → Bool
  | .object _ => true
  | _ => false

def btrim (text : Text) : Text := (text.dropWhile (· = ' ')).rdropWhile (· = ' ')

theorem btrim_btrim {text} : btrim (btrim text) = btrim text := by
  have hini : btrim text <+: text.dropWhile (· = ' ') := List.rdropWhile_prefix _ _
  have hdr : (btrim text).dropWhile (· = ' ') = btrim text := by
    refine List.dropWhile_eq_self_iff.mpr fun hlen => ?_
    have hle' : 0 < (text.dropWhile (· = ' ')).length := hlen.trans_le hini.length_le
    rw [hini.getElem hlen]
    exact List.dropWhile_get_zero_not _ _ hle'
  unfold btrim at hdr ⊢
  rw [hdr, List.rdropWhile_idempotent]

/-- `nullif(btrim(text), '')`。空の引数と `NULL` は区別されない。 -/
def normalize (text : Text) : Option Text := if btrim text = [] then none else some (btrim text)

theorem normalize_some {text text'} (h : normalize text = some text') : normalize text' = some text' := by
  unfold normalize at h
  split at h
  · cases h
  · rename_i hne
    cases h
    simp [normalize, btrim_btrim, hne]

/-- `'^[A-Za-z0-9][A-Za-z0-9._:-]{0,119}$'` -/
def isName : Text → Bool
  | [] => false
  | c :: cs => c.isAlphanum && decide (cs.length ≤ 119) && cs.all fun c => c.isAlphanum || c ∈ ['.', '_', ':', '-']

/-- 要求と伝言の uuid の検査。四つ目の組の頭は、8、9、a、b のどれかである。 -/
def isUuid (u : Uuid) : Bool := decide (u < 2 ^ 128) && decide (8 ≤ u / 2 ^ 60 % 16) && decide (u / 2 ^ 60 % 16 ≤ 11)

abbrev RandomUuid := { u : Uuid // isUuid u = true }

/-! ## 行 -/

inductive RunStatus where
  | queued | running | completed | failed | cancelled
  deriving DecidableEq

inductive StepStatus where
  | queued | running | completed | failed | deadLettered | cancelled
  deriving DecidableEq

/-- `status IN ('queued', 'running')` -/
def RunStatus.active : RunStatus → Bool
  | .queued | .running => true
  | .completed | .failed | .cancelled => false

def StepStatus.active : StepStatus → Bool
  | .queued | .running => true
  | .completed | .failed | .deadLettered | .cancelled => false

structure Run where
  id : Uuid
  workflowName : Text
  workflowVersion : Text
  status : RunStatus
  input : Jsonb
  output : Jsonb
  errorMessage : Text
  rowVersion : Nat
  createdAt : Timestamp
  startedAt : Option Timestamp
  completedAt : Option Timestamp
  updatedAt : Timestamp
  deriving DecidableEq

structure Step where
  id : Uuid
  runId : Uuid
  stepKey : Text
  status : StepStatus
  input : Jsonb
  output : Jsonb
  errorMessage : Text
  attempts : Nat
  maxAttempts : Nat
  retryDelaySeconds : Nat
  queueMessageId : Nat
  claimedBy : Option Text
  claimedAt : Option Timestamp
  completedAt : Option Timestamp
  nextStepKey : Option Text
  createdAt : Timestamp
  updatedAt : Timestamp
  deriving DecidableEq

inductive EventType where
  | runStarted | stepClaimed | stepRetried | stepCompleted | stepFailed | stepDeadLettered | runCompleted | runCancelled
  deriving DecidableEq

structure RetryReceipt where
  stepId : Uuid
  messageId : Nat
  attempt : Nat
  workerId : Text
  errorMessage : Text
  delaySeconds : Nat
  deriving DecidableEq

inductive Details where
  | empty
  | claimed (workerId : Text)
  | next (nextStepKey : Text)
  | error (errorMessage : Text)
  | retry (receipt : RetryReceipt)
  | cancelled (reason : Text)
  deriving DecidableEq

/-- `supacloud_workflows.events`。行は `id` の順に並ぶ。 -/
structure EventRow where
  runId : Uuid
  stepId : Option Uuid
  eventType : EventType
  attempt : Option Nat
  details : Details
  createdAt : Timestamp
  deriving DecidableEq

structure Message where
  id : Nat
  runId : Uuid
  stepId : Uuid
  readCount : Nat
  deriving DecidableEq

def Message.reread (m : Message) : Message := { m with readCount := m.readCount + 1 }

@[simp] theorem Message.reread_id (m : Message) : m.reread.id = m.id := rfl

@[simp] theorem Message.reread_runId (m : Message) : m.reread.runId = m.runId := rfl

@[simp] theorem Message.reread_stepId (m : Message) : m.reread.stepId = m.stepId := rfl

/-- 表と、保存されていない伝言。`sent` は送った伝言の数である。 -/
structure Store where
  runs : List Run
  steps : List Step
  events : List EventRow
  queue : List Message
  sent : Nat
  deriving DecidableEq

def Store.empty : Store := { runs := [], steps := [], events := [], queue := [], sent := 0 }

/-- `RAISE EXCEPTION` の符号。`uniqueViolation` は、表の制約に反したときの例外である。 -/
inductive Failure where
  | requestInvalid | startInvalid | stepInvalid | claimInvalid | advanceInvalid | completionInvalid | retryInvalid
  | failureInvalid | cancelInvalid | runNotActive | runNotFound | stepNotFound | staleAttempt | claimRetry
  | queueMessageMissing | idempotencyConflict | uniqueViolation

namespace Store

variable (s : Store)

def run (id : Uuid) : Option Run := s.runs.find? fun r => r.id = id

def step (id : Uuid) : Option Step := s.steps.find? fun t => t.id = id

/-- `ORDER BY created_at, id` -/
def before (a b : Step) : Prop := a.createdAt < b.createdAt ∨ (a.createdAt = b.createdAt ∧ a.id ≤ b.id)

instance (a b : Step) : Decidable (before a b) := inferInstanceAs (Decidable (_ ∨ _))

def stepsOf (runId : Uuid) : List Step := (s.steps.filter fun t => t.runId = runId).insertionSort before

def updateRun (p : Run → Bool) (f : Run → Run) : Store := { s with runs := update p f s.runs }

def updateStep (id : Uuid) (f : Step → Step) : Store := { s with steps := update (fun t => t.id = id) f s.steps }

def insertEvent (e : EventRow) : Store := { s with events := s.events ++ [e] }

/-! ## 待ち行列 -/

def send (runId stepId : Uuid) : Nat × Store :=
  (s.sent + 1, { s with queue := s.queue ++ [{ id := s.sent + 1, runId, stepId, readCount := 0 }], sent := s.sent + 1 })

def message (id : Nat) : Option Message := s.queue.find? fun m => m.id = id

/-- `pgmq.read`。読んだ伝言は、読んだ回数が増えている。どの伝言が見えるかは、時刻による。 -/
def read (visible : Option Nat) : Option (Message × Store) := do
  let m ← s.message (← visible)
  return (m.reread, { s with queue := update (fun x => x.id = m.id) Message.reread s.queue })

def archive (id : Nat) : Store := { s with queue := s.queue.filter fun m => m.id ≠ id }

end Store

end Supacloud.Workflows
