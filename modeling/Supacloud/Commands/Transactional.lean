import Supacloud.Commands.External

/-!
# 実行方針（commands/src/execution-policy.ts）

時刻と信号は環境の応答が決める。閉包の変数は世界の `policy n` にあり、同じ実体 n を使う呼び出しが共有する。観測（
`emit`）は含めない。
-/

namespace Supacloud.Commands

open Contracts Library

inductive PolicyErrorCode where
  | CIRCUIT_OPEN
  | EXECUTION_ABORTED
  | EXECUTION_TIMEOUT
  | COMMAND_OUTCOME_UNKNOWN

inductive PolicyError where
  | policy (code : PolicyErrorCode)
  | thrown (error : Thrown)

inductive PolicyKind where
  | read
  | command
  deriving DecidableEq

structure RetryOptions where
  maxAttempts : Nat
  delayMs : Nat

structure CircuitOptions where
  failureThreshold : Nat
  resetAfterMs : Nat

structure ExecutionPolicyOptions where
  kind : PolicyKind
  timeoutMs : Option Nat := none
  retry : Option RetryOptions := none
  circuit : Option CircuitOptions := none

/-- どの値も 1 以上 2^31 - 1 以下である。 -/
def ExecutionPolicyOptions.bounded (o : ExecutionPolicyOptions) : Bool :=
  [o.timeoutMs, o.retry.map (·.maxAttempts), o.retry.map (·.delayMs), o.circuit.map (·.failureThreshold),
    o.circuit.map (·.resetAfterMs)].all fun value => value.all fun v => 1 ≤ v && v ≤ 2147483647

structure ExecutionPolicy extends ExecutionPolicyOptions where
  bounded : toExecutionPolicyOptions.bounded = true

def createExecutionPolicy (options : ExecutionPolicyOptions) : Except Thrown ExecutionPolicy :=
  if h : options.bounded = true then .ok { options with bounded := h } else .error .other

/-- 取り消しの信号。`expired` は時間切れによることを表す。 -/
structure Signal where
  aborted : Bool := false
  expired : Bool := false

/-- 一段の間に信号が立ちうる。一度立てば戻らない。 -/
def Signal.after (s : Signal) (o : Oracle) : Signal :=
  { aborted := s.aborted || o.abortedBeforeLock || o.abortedBeforeInsert || o.abortedBeforeReturn || o.aborted ||
      o.expired
    expired := s.expired || o.expired }

section

variable {α : Type} (p : ExecutionPolicy) (n : Nat)

def ExecutionPolicy.cancelled (s : Signal) : PolicyError :=
  .policy (match p.kind with
    | .command => .COMMAND_OUTCOME_UNKNOWN
    | .read => if s.expired then .EXECUTION_TIMEOUT else .EXECUTION_ABORTED)

def admission (o : Oracle) (w : World) : Except PolicyError (Bool × Nat) × World :=
  let s := w.policy n
  let halfOpen := s.openUntil != 0
  if o.aborted then (.error (.policy .EXECUTION_ABORTED), w)
  else if halfOpen && (o.now < s.openUntil || s.probe) then (.error (.policy .CIRCUIT_OPEN), w)
  else (.ok (halfOpen, s.generation), w.setPolicy n { s with probe := s.probe || halfOpen })

def PolicyState.release (s : PolicyState) (halfOpen : Bool) : PolicyState :=
  if halfOpen then { s with probe := false } else s

def PolicyState.succeed (s : PolicyState) (halfOpen : Bool) (generation : Nat) : PolicyState :=
  if generation ≠ s.generation then s
  else if halfOpen then { s with failures := 0, openUntil := 0, generation := s.generation + 1 }
  else { s with failures := 0 }

def PolicyState.fail (s : PolicyState) (c : CircuitOptions) (halfOpen failed : Bool) (now : Nat) : PolicyState :=
  if failed then
    if halfOpen || s.failures + 1 ≥ c.failureThreshold then
      { s with failures := s.failures + 1, openUntil := now + c.resetAfterMs, generation := s.generation + 1 }
    else { s with failures := s.failures + 1 }
  else if halfOpen then { s with openUntil := 0, failures := 0, generation := s.generation + 1 }
  else s

def settleFailure (halfOpen : Bool) (generation : Nat) (e : PolicyError) (o : Oracle) (w : World) :
    PolicyError × World :=
  let s := w.policy n
  match p.circuit with
  | none => (e, w.setPolicy n (s.release halfOpen))
  | some c =>
    if generation ≠ s.generation then (e, w.setPolicy n (s.release halfOpen))
    else
      match o.isFailure with
      | none => (.thrown .other, w.setPolicy n (s.release halfOpen))
      | some failed => (e, w.setPolicy n ((s.fail c halfOpen failed o.now).release halfOpen))

def settleSuccess (halfOpen : Bool) (generation : Nat) (_ : Oracle) (w : World) : Unit × World :=
  ((), w.setPolicy n (((w.policy n).succeed halfOpen generation).release halfOpen))

def retryAttempt (halfOpen : Bool) (again : Option (Signal → Proc Oracle World (Except PolicyError α)))
    (e : Thrown) (s : Signal) : Proc Oracle World (Except PolicyError α) :=
  if p.kind = .command ∧ e = .command .COMMAND_OUTCOME_UNKNOWN then .ret (.error (.thrown e))
  else
    match again with
    | none => .ret (.error (.thrown e))
    | some again =>
      if halfOpen then .ret (.error (.thrown e))
      else
        (Proc.atomic fun o w => (o.classified, w)).bind fun decision =>
          match decision with
          | none => .ret (.error (.thrown .other))
          | some decision =>
            if decision ≠ .rolledBack ∧ ¬(p.kind = .read ∧ decision = .retry) then .ret (.error (.thrown e))
            else (Proc.atomic fun o w => (s.after o, w)).bind again

def attempt (halfOpen : Bool) (generation : Nat) (run : Signal → Proc Oracle World (Except Thrown α × Signal))
    (again : Option (Signal → Proc Oracle World (Except PolicyError α))) (s : Signal) :
    Proc Oracle World (Except PolicyError α) :=
  if s.aborted then .ret (.error (p.cancelled s))
  else
    (run s).bind fun r =>
      if r.2.aborted then .ret (.error (p.cancelled r.2))
      else
        match r.1 with
        | .ok a => (Proc.atomic (settleSuccess n halfOpen generation)).bind fun _ => .ret (.ok a)
        | .error e => retryAttempt p halfOpen again e r.2

def attempts (halfOpen : Bool) (generation : Nat) (run : Signal → Proc Oracle World (Except Thrown α × Signal)) :
    Nat → Signal → Proc Oracle World (Except PolicyError α)
  | 0 => attempt p n halfOpen generation run none
  | remaining + 1 =>
    attempt p n halfOpen generation run (some (attempts halfOpen generation run remaining))

def ExecutionPolicy.retries : Nat :=
  match p.retry with
  | none => 0
  | some r => r.maxAttempts - 1

def ExecutionPolicy.execute (run : Signal → Proc Oracle World (Except Thrown α × Signal)) :
    Proc Oracle World (Except PolicyError α) :=
  (Proc.atomic (admission n)).bind fun r =>
    match r with
    | .error e => .ret (.error e)
    | .ok (halfOpen, generation) =>
      (attempts p n halfOpen generation run p.retries {}).bind fun r =>
        match r with
        | .ok a => .ret (.ok a)
        | .error e => (Proc.atomic (settleFailure p n halfOpen generation e)).bind fun e => .ret (.error e)

end

end Supacloud.Commands

/-!
## トランザクション型のコマンド（commands/src/transactional.ts）

`definition.execute` の書き込みは、表の `effects` への追加である。
-/

namespace Supacloud.Commands.Transactional

open Contracts Library Session

section

variable {ρ : Type} (d : Definition ρ) (i : Nat)

def abortWhen (aborted : Bool) : Session Unit :=
  if aborted then throwCode .COMMAND_OUTCOME_UNKNOWN else pure ()

/-- `definition.execute` の呼び出し。戻り値を正規化し、`result` で読む。 -/
def executeDefinition (request : Prepared) : Session (CommandJson × ρ) := do
  match (← oracle).executed with
  | .error e => throw e
  | .ok value =>
    setTables ((← getTables).addEffect request.reference value)
    let raw ← orThrow .other (canonicalCommandJson value)
    let result ← orThrow .other (d.result raw.toValue)
    return (raw, result)

def executeFresh (request : Prepared) (aborted : Bool) : Session (DurableCommandReceipt ρ) := do
  let o ← oracle
  let (raw, result) ← executeDefinition d request
  abortWhen (aborted || o.abortedBeforeLock || o.abortedBeforeInsert)
  insertReceipt d request .transactional (some raw)
  audit d request result
  abortWhen (aborted || o.abortedBeforeLock || o.abortedBeforeInsert || o.abortedBeforeReturn)
  match ← find d request .transactional with
  | none => throwCode .COMMAND_RECEIPT_INVALID
  | some receipt => return receipt

def executeBody (request : Prepared) (aborted : Bool) : Session (DurableCommandReceipt ρ) := do
  let o ← oracle
  abortWhen (aborted || o.abortedBeforeLock)
  lockRequest d request none
  match ← find d request .transactional with
  | some existing => return existing
  | none => executeFresh d request aborted

def runAttempt (request : Prepared) (s : Signal) :
    Proc Oracle World (Except Thrown (DurableCommandReceipt ρ) × Signal) :=
  Proc.atomic fun o w =>
    let r := transact i request.reference (executeBody d request s.aborted) o w
    ((r.1.mapError Thrown.command, s.after o), r.2)

/-- 呼び出しの結果。再試行の判定が投げた例外は `CommandError` とは限らない。 -/
abbrev Outcome (ρ : Type) := Except Thrown (Option (DurableCommandReceipt ρ))

def policyThrown : PolicyError → Thrown
  | .policy .COMMAND_OUTCOME_UNKNOWN => .command .COMMAND_OUTCOME_UNKNOWN
  | .policy _ => .command .COMMAND_UNAVAILABLE
  | .thrown e => e

def execute (p : ExecutionPolicy) (n : Nat) (identity : CommandIdentity) (key : String) (value : JsValue) :
    Proc Oracle World (Outcome ρ) :=
  (prepareTask d identity key value).run.bind fun r =>
    match r with
    | .error code => .ret (.error (.command code))
    | .ok request =>
      (p.execute n (runAttempt d i request)).bind fun r =>
        match r with
        | .ok receipt => .ret (.ok (some receipt))
        | .error e => .ret (.error (policyThrown e))

def lookup (identity : CommandIdentity) (key : String) (value : JsValue) :
    Task (Option (DurableCommandReceipt ρ)) := do
  let request ← prepareTask d identity key value
  transaction i request.reference do
    lockRequest d request none
    find d request .transactional

def lookupByReference (identity : CommandIdentity) (key : String) :
    Task (Option (DurableCommandReceipt ρ)) := do
  match ← restoreTask d i identity key none with
  | none => return none
  | some request =>
    transaction i request.reference do
      lockRequest d request none
      find d request .transactional

end

/-! ## 呼び出し -/

def commandPolicy (p : ExecutionPolicy) : ExecutionPolicy :=
  { p with kind := .command, bounded := p.bounded }

inductive Call where
  | execute (instanceId : Nat) (identity : CommandIdentity) (key : String) (value : JsValue)
  | lookup (identity : CommandIdentity) (key : String) (value : JsValue)
  | lookupByReference (identity : CommandIdentity) (key : String)
  | redactCompleted (ref : OperationReference)

def ofTask {ρ : Type} (x : Task (Option (DurableCommandReceipt ρ))) : Proc Oracle World (Outcome ρ) :=
  x.run.bind fun r => .ret (r.mapError Thrown.command)

def Call.proc {ρ : Type} (d : Definition ρ) (policies : Nat → ExecutionPolicy) (i : Nat) :
    Call → Proc Oracle World (Outcome ρ)
  | .execute n identity key value => Transactional.execute d i (commandPolicy (policies n)) n identity key value
  | .lookup identity key value => ofTask (Transactional.lookup d i identity key value)
  | .lookupByReference identity key => ofTask (Transactional.lookupByReference d i identity key)
  | .redactCompleted ref => ofTask (do
      transaction i ref (redact ref)
      return none)

def start {ρ : Type} (d : Definition ρ) (policies : Nat → ExecutionPolicy) (calls : Nat → Call) :
    Config Nat Oracle World (Outcome ρ) :=
  { world := .initial, proc := fun i => (calls i).proc d policies i }

end Supacloud.Commands.Transactional
