import Supacloud.Library.Faults

/-!
# 枝のデータベースによる親の置き換え（services/branch.service.ts、services/branch-replacement-journal.ts）

移行の鎖を持つ間に行われ、ほかの呼び出しは入らない。一時と控えの名前は新しい。`Data` は、データベースが誰の中身を持つかである。
-/

namespace Supacloud.BranchReplacement

open Library

inductive DatabaseName where
  | parent
  | branch
  | temp
  | backup
  deriving DecidableEq

inductive Data where
  | original
  | replacement
  | incomplete
  deriving DecidableEq

structure Database where
  data : Data
  allowConnections : Bool
  deriving DecidableEq

inductive BranchReplacementPhase where
  | preparing
  | prepared
  | connectionsDisabled
  | parentRenamed
  | replacementCommitted
  | recoveryRequired
  deriving DecidableEq

structure BranchReplacementJournalEntry where
  parentRef : String
  branchRef : String
  parentDb : DatabaseName
  branchDb : DatabaseName
  tempDb : DatabaseName
  backupDb : DatabaseName
  phase : BranchReplacementPhase
  replacementCommitted : Bool
  recoveryDatabase : Option DatabaseName

structure ReplacementDatabaseNames where
  parentDb : DatabaseName
  branchDb : DatabaseName
  tempDb : DatabaseName
  backupDb : DatabaseName

variable (entry : BranchReplacementJournalEntry)

def BranchReplacementJournalEntry.names : ReplacementDatabaseNames :=
  { parentDb := entry.parentDb, branchDb := entry.branchDb, tempDb := entry.tempDb, backupDb := entry.backupDb }

structure World where
  project : Option String
  databases : DatabaseName → Option Database
  journal : Option BranchReplacementJournalEntry

def World.start (project : Option String) (branch : Option Database) : World :=
  { project
    databases := fun name =>
      match name with
      | .parent => some { data := .original, allowConnections := true }
      | .branch => branch
      | .temp | .backup => none
    journal := none }

inductive Failure where
  | error (message : String)
  | migrationLock (message : String)
  | branchReplacement (code : String) (status : Nat) (message : String) (replacementCommitted : Bool) (backupDatabase : Option DatabaseName)
      (recoveryRequired : Bool) (recoveryDatabase : Option DatabaseName)

def Failure.message : Failure → String
  | .error message | .migrationLock message => message
  | .branchReplacement _ _ message _ _ _ _ => message

/-! ## 一段ずつの文 -/

inductive Statement where
  | withProjectMigrationLocks
  | findByRef
  | journalBegin
  | journalSetPhase (phase : BranchReplacementPhase)
  | journalGet
  | journalList
  | journalRemove
  | databaseExists (name : DatabaseName)
  | createRoles
  | createDatabase (name : DatabaseName)
  | grantConnect (name : DatabaseName)
  | cloneDatabase (source target : DatabaseName)
  | applyRuntimeGrants (name : DatabaseName)
  | validateRestoredDatabase (name : DatabaseName)
  | terminateDatabaseConnections (name : DatabaseName)
  | dropDatabase (name : DatabaseName)
  | setDatabaseConnectionsAllowed (name : DatabaseName) (allowed : Bool)
  | renameDatabase (source target : DatabaseName)
  | removeProjectDbCache (name : DatabaseName)
  | stopRuntime
  | restartRuntime
  deriving DecidableEq

structure RuntimeStatus where
  status : String
  health : String

structure Response where
  outcome : Statement → Outcome Failure
  runtime : RuntimeStatus

abbrev Program (α : Type) : Type := ExceptT Failure (Proc Response World) α

def statement {α : Type} (label : Statement) (act : World → Except Failure (α × World)) : Program α :=
  await (fun ω => ω.outcome label) fun _ => act

def query {α : Type} (label : Statement) (read : World → α) : Program α := statement label fun w => .ok (read w, w)

def external (label : Statement) : Program Unit := query label fun _ => ()

def onlyIf (condition : Bool) (p : Program Unit) : Program Unit := if condition then p else pure ()

def undefinedDatabase : Failure := .error "database does not exist"

def duplicateDatabase : Failure := .error "database already exists"

def databaseExists (name : DatabaseName) : Program Bool := query (.databaseExists name) fun w => (w.databases name).isSome

def terminateDatabaseConnections (name : DatabaseName) : Program Unit := external (.terminateDatabaseConnections name)

variable (w : World) (name : DatabaseName)

def World.setDatabaseConnectionsAllowed (allowed : Bool) : Except Failure (Unit × World) :=
  match w.databases name with
  | none => .error undefinedDatabase
  | some database =>
    .ok ((), { w with databases := Function.update w.databases name (some { database with allowConnections := allowed }) })

def setDatabaseConnectionsAllowed (name : DatabaseName) (allowed : Bool) : Program Unit :=
  statement (.setDatabaseConnectionsAllowed name allowed) fun w => w.setDatabaseConnectionsAllowed name allowed

def World.renameDatabase (source target : DatabaseName) : Except Failure (Unit × World) :=
  match w.databases source, w.databases target with
  | none, _ => .error undefinedDatabase
  | some _, some _ => .error duplicateDatabase
  | some database, none =>
    .ok ((), { w with databases := Function.update (Function.update w.databases source none) target (some database) })

def renameDatabase (source target : DatabaseName) : Program Unit :=
  statement (.renameDatabase source target) fun w => w.renameDatabase source target

def dropDatabaseIfExists : Program Unit := do
  terminateDatabaseConnections name
  statement (.dropDatabase name) fun w => .ok ((), { w with databases := Function.update w.databases name none })

def dropDatabaseWithWarning : Program Unit := tryCatch (dropDatabaseIfExists name) fun _ => pure ()

def World.createDatabase : Except Failure (Unit × World) :=
  match w.databases name with
  | some _ => .error duplicateDatabase
  | none =>
    .ok ((), { w with databases := Function.update w.databases name (some { data := .incomplete, allowConnections := true }) })

def createEmptyTenantDatabase : Program Unit := do
  let existing ← databaseExists name
  if existing then throw (.error "Database already exists; refusing to restore into a non-empty target") else
    external .createRoles
    statement (.createDatabase name) fun w => w.createDatabase name
    external (.grantConnect name)

def World.cloneDatabase (source target : DatabaseName) : Except Failure (Unit × World) :=
  match w.databases source, w.databases target with
  | some _, some database =>
    .ok ((), { w with databases := Function.update w.databases target (some { database with data := .replacement }) })
  | _, _ => .error undefinedDatabase

def cloneDatabase (source target : DatabaseName) : Program Unit :=
  statement (.cloneDatabase source target) fun w => w.cloneDatabase source target

/-! ## 記録（`branchReplacementJournal`） -/

namespace Journal

def begin : Program Unit :=
  statement .journalBegin fun w => .ok ((), { w with journal := some entry })

/-- 書かない `replacement_committed` はそのまま残り、書かない `recovery_database` は消える。 -/
def setPhase (phase : BranchReplacementPhase) (recoveryDatabase : Option DatabaseName) (replacementCommitted : Option Bool) : Program Unit :=
  statement (.journalSetPhase phase) fun w =>
    .ok ((), { w with
      journal := w.journal.map fun entry =>
        { entry with phase, replacementCommitted := replacementCommitted.getD entry.replacementCommitted, recoveryDatabase } })

def get : Program (Option BranchReplacementJournalEntry) := query .journalGet World.journal

def list : Program (List BranchReplacementJournalEntry) := query .journalList fun w => w.journal.toList

def remove : Program Unit := statement .journalRemove fun w => .ok ((), { w with journal := none })

end Journal

def markReplacementRecoveryRequiredBestEffort (recoveryDatabase : Option DatabaseName) (replacementCommitted : Bool) : Program Unit :=
  tryCatch (Journal.setPhase .recoveryRequired recoveryDatabase (some replacementCommitted)) fun _ => pure ()

def clearReplacementJournalBestEffort : Program Unit := tryCatch Journal.remove fun _ => pure ()

def restartParentRuntimeAndVerify (parentDb : DatabaseName) : Program Unit := do
  external (.removeProjectDbCache parentDb)
  let runtimeStatus ← (await (fun ω => ω.outcome .restartRuntime) fun ω w => .ok (ω.runtime, w) : Program RuntimeStatus)
  if runtimeStatus.status ≠ "running" ∨ runtimeStatus.health ≠ "healthy" then
    throw (.error ("runtime status is " ++ runtimeStatus.status ++ "/" ++ runtimeStatus.health))
  else pure ()

def restartParentRuntimeBestEffort (parentDb : DatabaseName) : Program Unit :=
  tryCatch (do
    external (.removeProjectDbCache parentDb)
    external .restartRuntime) fun _ => pure ()

variable (names : ReplacementDatabaseNames)

/-! ## 途切れた置き換えの後始末 -/

/-- `recoverReplacementJournalEntry` の、見えた名前に応じた後始末。どれにも当たらなければ偽を返す。 -/
def recoverObserved (parentExists backupExists tempExists : Bool) : Program Bool :=
  if parentExists && backupExists && !tempExists then do
    restartParentRuntimeAndVerify names.parentDb
    Journal.remove
    pure true
  else if parentExists && !backupExists then do
    setDatabaseConnectionsAllowed names.parentDb true
    onlyIf tempExists (dropDatabaseIfExists names.tempDb)
    restartParentRuntimeAndVerify names.parentDb
    Journal.remove
    pure true
  else if !parentExists && backupExists then do
    renameDatabase names.backupDb names.parentDb
    setDatabaseConnectionsAllowed names.parentDb true
    onlyIf tempExists (dropDatabaseIfExists names.tempDb)
    restartParentRuntimeAndVerify names.parentDb
    Journal.remove
    pure true
  else pure false

def recoverReplacementJournalEntry : Program Bool := do
  let parentExists ← databaseExists entry.names.parentDb
  let backupExists ← databaseExists entry.names.backupDb
  let tempExists ← databaseExists entry.names.tempDb
  let recovered ← tryCatch (recoverObserved entry.names parentExists backupExists tempExists) fun _ => pure false
  if recovered then pure true else
    let recoveryDatabase :=
      if backupExists then some entry.names.backupDb else if parentExists then some entry.names.parentDb else none
    let replacementCommitted := entry.replacementCommitted || (parentExists && backupExists && !tempExists)
    markReplacementRecoveryRequiredBestEffort recoveryDatabase replacementCommitted
    pure false

def recoverExistingReplacement : Program Unit := do
  match ← Journal.get with
  | none => pure ()
  | some entry =>
    let recovered ← recoverReplacementJournalEntry entry
    if recovered then pure () else
      throw (.branchReplacement "replacement_switch_failed" 503
        ("An interrupted database replacement for " ++ entry.parentRef ++ " still requires manual recovery") entry.replacementCommitted
        (some entry.backupDb) true (entry.recoveryDatabase.or (some entry.backupDb)))

structure RecoverySummary where
  checked : Nat
  recovered : Nat
  pending : Nat

def recoverEntry : Program Bool :=
  tryCatch (do
    external .withProjectMigrationLocks
    match ← Journal.get with
    | some current => recoverReplacementJournalEntry current
    | none => pure true) fun _ => pure false

def recoverEach : List BranchReplacementJournalEntry → RecoverySummary → Program RecoverySummary
  | [], summary => pure summary
  | _ :: entries, summary => do
    let didRecover ← recoverEntry
    recoverEach entries
      (if didRecover then { summary with recovered := summary.recovered + 1 } else { summary with pending := summary.pending + 1 })

def recoverInterruptedReplacements : Program RecoverySummary := do
  let entries ← Journal.list
  recoverEach entries { checked := entries.length, recovered := 0, pending := 0 }

/-! ## 置き換え -/

def prepareReplacementDatabase : Program Unit :=
  tryCatch (do
    createEmptyTenantDatabase names.tempDb
    cloneDatabase names.branchDb names.tempDb
    external (.applyRuntimeGrants names.tempDb)
    external (.validateRestoredDatabase names.tempDb)) fun error => do
    dropDatabaseWithWarning names.tempDb
    throw (.branchReplacement "replacement_switch_failed" 500 ("Replacement database preparation failed: " ++ error.message) false none false none)

structure SwitchState where
  parentRenamed : Bool
  tempRenamed : Bool
  connectionsDisabled : Bool

def raising {α : Type} (state : SwitchState) (p : Program α) : ExceptT (SwitchState × Failure) (Proc Response World) α :=
  handle p fun error => throw (state, error)

def switchStatements : ExceptT (SwitchState × Failure) (Proc Response World) Unit := do
  raising ⟨false, false, false⟩ (external .stopRuntime)
  raising ⟨false, false, false⟩ (setDatabaseConnectionsAllowed names.parentDb false)
  raising ⟨false, false, true⟩ (Journal.setPhase .connectionsDisabled (some names.parentDb) none)
  raising ⟨false, false, true⟩ (external (.removeProjectDbCache names.parentDb))
  raising ⟨false, false, true⟩ (terminateDatabaseConnections names.parentDb)
  raising ⟨false, false, true⟩ (terminateDatabaseConnections names.tempDb)
  raising ⟨false, false, true⟩ (renameDatabase names.parentDb names.backupDb)
  raising ⟨true, false, true⟩ (Journal.setPhase .parentRenamed (some names.backupDb) none)
  raising ⟨true, false, true⟩ (renameDatabase names.tempDb names.parentDb)
  raising ⟨true, true, true⟩ (Journal.setPhase .replacementCommitted (some names.backupDb) (some true))

def restoreParentDatabaseName : Program Bool :=
  tryCatch (do
    renameDatabase names.backupDb names.parentDb
    pure true) fun _ => pure false

def reenableParentConnections (parentDb : DatabaseName) : Program Bool :=
  tryCatch (do
    setDatabaseConnectionsAllowed parentDb true
    pure true) fun _ => pure false

structure ReplacementRecoveryResult where
  succeeded : Bool
  recoveryDatabase : DatabaseName

def recoverReplacementSwitch (state : SwitchState) : Program ReplacementRecoveryResult := do
  let restored ← bif state.parentRenamed && !state.tempRenamed then restoreParentDatabaseName names else pure true
  let recoveryDatabase := if state.parentRenamed && !(!state.tempRenamed && restored) then names.backupDb else names.parentDb
  let rollbackSucceeded ←
    bif !state.tempRenamed && state.connectionsDisabled && restored then reenableParentConnections names.parentDb else pure restored
  onlyIf (!state.tempRenamed) (dropDatabaseWithWarning names.tempDb)
  restartParentRuntimeBestEffort names.parentDb
  pure { succeeded := rollbackSucceeded, recoveryDatabase }

def switchCommitted (error : Failure) : Program Unit := do
  tryCatch (restartParentRuntimeAndVerify names.parentDb) fun _ => pure ()
  markReplacementRecoveryRequiredBestEffort (some names.backupDb) true
  throw (.branchReplacement "replacement_switch_failed" 503
    ("Database replacement committed, but its durable phase could not be recorded: " ++ error.message) true (some names.backupDb) true
    (some names.backupDb))

def switchAborted (state : SwitchState) (error : Failure) : Program Unit := do
  let recovery ← recoverReplacementSwitch names state
  bif recovery.succeeded then clearReplacementJournalBestEffort
    else markReplacementRecoveryRequiredBestEffort (some recovery.recoveryDatabase) false
  throw (.branchReplacement "replacement_switch_failed" 500
    ((if recovery.succeeded then "Replacement failed before the parent database switch completed: "
      else "Replacement failed and rollback could not be verified: ") ++ error.message) false
    (if recovery.recoveryDatabase = names.backupDb then some names.backupDb else none) (!recovery.succeeded)
    (if recovery.succeeded then none else some recovery.recoveryDatabase))

def switchParentDatabase : Program Unit :=
  handle (switchStatements names) fun (state, error) =>
    if state.tempRenamed then switchCommitted names error else switchAborted names state error

def restartReplacedParentRuntime : Program Unit :=
  tryCatch (restartParentRuntimeAndVerify names.parentDb) fun error => do
    markReplacementRecoveryRequiredBestEffort (some names.backupDb) true
    throw (.branchReplacement "replacement_runtime_unavailable" 503
      ("Database replacement committed, but the parent runtime is not healthy: " ++ error.message) true (some names.backupDb) true
      (some names.backupDb))

def replacementDatabaseNames : ReplacementDatabaseNames := { parentDb := .parent, branchDb := .branch, tempDb := .temp, backupDb := .backup }

def replaceParentDatabaseUnderLock (parentRef branchRef : String) : Program DatabaseName := do
  recoverExistingReplacement
  match ← query .findByRef World.project with
  | none => throw (.error "Parent project not found")
  | some _ =>
    let names := replacementDatabaseNames
    Journal.begin
      { parentRef, branchRef, parentDb := names.parentDb, branchDb := names.branchDb, tempDb := names.tempDb, backupDb := names.backupDb
        phase := .preparing, replacementCommitted := false, recoveryDatabase := none }
    tryCatch (do
      prepareReplacementDatabase names
      Journal.setPhase .prepared none none) fun error => do
      clearReplacementJournalBestEffort
      throw error
    switchParentDatabase names
    restartReplacedParentRuntime names
    clearReplacementJournalBestEffort
    pure names.backupDb

def replaceParentDatabaseFromBranch (parentRef branchRef : String) : Program DatabaseName :=
  tryCatch (do
    external .withProjectMigrationLocks
    replaceParentDatabaseUnderLock parentRef branchRef) fun error =>
    match error with
    | .migrationLock message => throw (.branchReplacement "replacement_locked" 423 message false none false none)
    | error => throw error

/-! ## 走行と、守られるべきこと -/

def history (parentRef branchRef : String) (replacement : List Response) (recoveries : List (List Response)) : World :=
  recoveries.foldl (fun w responses => recoverInterruptedReplacements.run.exec responses w)
    ((replaceParentDatabaseFromBranch parentRef branchRef).run.exec replacement w)

def World.holds (data : Data) : Prop := ∃ database, w.databases name = some database ∧ database.data = data

def World.Kept : Prop := w.holds .parent .original ∨ w.holds .backup .original

/-- 記録がなければ、親は接続を受け付け、元の中身で控えがないか、置き換えの中身で元の中身が控えにある。 -/
def World.Settled : Prop :=
  w.journal = none → ∃ database, w.databases .parent = some database ∧ database.allowConnections = true ∧
    ((database.data = .original ∧ w.databases .backup = none) ∨ (database.data = .replacement ∧ w.holds .backup .original))

/-- 親の接続を止める文は、果たされたのに例外になることはない。 -/
def Response.Acknowledged (ω : Response) : Prop := ∀ error, ω.outcome (.setDatabaseConnectionsAllowed .parent false) ≠ .lost error

end Supacloud.BranchReplacement
