import Supacloud.Library.Runs
import Supacloud.Library.Table

/-!
# 実行グループの受け入れ（worker/sql/002-admission.sql、004-explicit-admission-columns.sql）

札は `released` になるだけで消えない。どちらの関数もグループの行を `FOR UPDATE` で取るので、
同じグループの取引は一歩で行う。
-/

namespace Supacloud.Worker

open Library

abbrev Text := List Char

inductive AdmissionError where
  | projectMismatch
  | unconfigured
  | conflict
  | paused
  | limit
  | missing
  | checkViolation

/-- `max_outstanding integer NOT NULL CHECK (max_outstanding BETWEEN 1 AND 1000000)` -/
structure Quota where
  maxOutstanding : ℕ
  bounded : 1 ≤ maxOutstanding ∧ maxOutstanding ≤ 1000000

structure LimitRow where
  quota : Quota
  outstanding : ℕ
  accepting : Bool

structure TokenRow where
  groupName : Text
  operationId : Text
  fingerprint : Text
  released : Bool

def TokenRow.key (t : TokenRow) : Text × Text := (t.groupName, t.operationId)

structure Db where
  projectRef : Text
  limits : Text → Option LimitRow
  tokens : List TokenRow

/-- `^[-A-Za-z0-9_.:@/]{1,200}$` -/
def validOperationId (s : Text) : Bool :=
  0 < s.length && s.length ≤ 200 && s.all fun c => c.isAlphanum || "_.:@/-".toList.contains c

/-- `^[a-f0-9]{64}$` -/
def validFingerprint (s : Text) : Bool := s.length = 64 && s.all fun c => c.isDigit || 'a' ≤ c && c ≤ 'f'

namespace Db

variable (db : Db)

def token (group operation : Text) : Option TokenRow := db.tokens.find? fun t => t.key = (group, operation)

def setOutstanding (group : Text) (row : LimitRow) (n : ℕ) : Db :=
  { db with limits := fun g => if g = group then some { row with outstanding := n } else db.limits g }

def insertToken (t : TokenRow) : Db := { db with tokens := db.tokens ++ [t] }

def release (held : TokenRow → Bool) : Db :=
  { db with tokens := update held (fun t => { t with released := true }) db.tokens }

def admitOperation (project group operation fingerprint : Text) : Except AdmissionError (Bool × Db) :=
  if db.projectRef ≠ project then .error .projectMismatch else
  match db.limits group with
  | none => .error .unconfigured
  | some row =>
    match db.token group operation with
    | some token => if token.fingerprint ≠ fingerprint then .error .conflict else .ok (false, db)
    | none =>
      if !row.accepting then .error .paused
      else if row.quota.maxOutstanding ≤ row.outstanding then .error .limit
      else if !validOperationId operation || !validFingerprint fingerprint then .error .checkViolation
      else .ok (true, (db.insertToken ⟨group, operation, fingerprint, false⟩).setOutstanding group row (row.outstanding + 1))

/-- `release_operation`。`outstanding` を負にする書き込みは、列の検査に反する。 -/
def releaseOperation (project group operation : Text) : Except AdmissionError Db :=
  if db.projectRef ≠ project then .error .projectMismatch else
  match db.limits group with
  | none => .error .unconfigured
  | some row =>
    let held (t : TokenRow) : Bool := t.key = (group, operation) && !t.released
    let changed := db.tokens.countP held
    if changed = 1 then
      if row.outstanding = 0 then .error .checkViolation
      else .ok ((db.release held).setOutstanding group row (row.outstanding - 1))
    else if (db.token group operation).isNone then .error .missing
    else .ok db

end Db

/-! ## 取引と走行 -/

inductive Call where
  | admitOperation (project group operation fingerprint : Text)
  | release (project group operation : Text)

inductive Entry where
  | admitted (group operation fingerprint : Text) (first : Bool)
  | released (group operation : Text)

def Db.call (db : Db) : Call → Except AdmissionError (Entry × Db)
  | .admitOperation project group operation fingerprint => do
    let (first, db') ← db.admitOperation project group operation fingerprint
    return (.admitted group operation fingerprint first, db')
  | .release project group operation => do
    let db' ← db.releaseOperation project group operation
    return (.released group operation, db')

def Db.calls (db : Db) : List Call → Except AdmissionError (List Entry × Db)
  | [] => .ok ([], db)
  | c :: cs => do
    let (entry, db') ← db.call c
    let (entries, db'') ← db'.calls cs
    return (entry :: entries, db'')

/-- 出来事。運用者は、グループを止め、また再び受け入れるようにする。 -/
inductive Event where
  | transaction (calls : List Call) (aborted : Bool)
  | setAccepting (group : Text) (accepting : Bool)

structure World where
  db : Db
  log : List Entry

def World.step (w : World) : Event → World
  | .transaction calls aborted =>
    match w.db.calls calls with
    | .error _ => w
    | .ok (entries, db) => if aborted then w else { db, log := w.log ++ entries }
  | .setAccepting group accepting =>
    { w with db := { w.db with limits := fun g => (w.db.limits g).map fun row => if g = group then { row with accepting } else row } }

def World.provisioned (projectRef : Text) (quotas : Text → Option (Quota × Bool)) : World where
  db := { projectRef, tokens := [], limits := fun g => (quotas g).map fun q => { quota := q.1, outstanding := 0, accepting := q.2 } }
  log := []

end Supacloud.Worker
