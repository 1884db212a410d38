import Supacloud.Library.Table
import Supacloud.Library.Runs

/-!
# データの置き場の錠（supacloud-lite/src/runtime/db/data-dir-lock.ts）

ファイル操作の一つずつを一歩とする。開いたファイルへの書き込みは、パスが消されても届く。プロセスはどこで落ちてもよく、
落ちた番号は再び使われない。
-/

namespace Supacloud.DataDirLock

open Library

abbrev Pid := ℕ

abbrev Nonce := String

abbrev FileId := ℕ

abbrev CallId := ℕ

structure DataDirLockOwner where
  pid : Pid
  nonce : Nonce

/-- `contents` は `parseDataDirLockOwner` で読んだ中身で、none は読めない。`creator` はこのファイルを作った呼び出しである。 -/
structure File where
  creator : Option CallId
  contents : Option DataDirLockOwner

/-- `recoverStaleDataDirLock` を呼んだところ。`attempt` は `createDataDirLock` の回数である。 -/
inductive Caller where
  | createDataDirLock (attempt : ℕ)
  | assertDataDirUnlocked

inductive DataDirLockState where
  | missing
  | unreadable
  | active (owner : DataDirLockOwner)
  | stale (owner : DataDirLockOwner)

inductive Failure where
  | inUse (pid : Pid)
  | unreadableLock
  | fileSystem

/-- `createDataDirLock` と `assertDataDirUnlocked` の投げる文。ファイル操作の例外はそのまま伝わる。 -/
def Failure.message (engineName absoluteDataDir lockPath : String) : Failure → Option String
  | .inUse pid => some s!"{engineName} data directory is already in use: {absoluteDataDir} (pid {pid})"
  | .unreadableLock => some (s!"{engineName} data directory has an unreadable lock: {lockPath}. " ++
      "Confirm no SupaCloud Lite process is using it, then remove the lock manually.")
  | .fileSystem => none

/-- 次に行うファイル操作。`held` は錠を得て戻った後、`closing` から `unlocking` までは返した錠の片付けである。 -/
inductive Pc where
  | opening (attempt : ℕ)
  | writing (file : FileId)
  | abandoning (file : FileId)
  | inspecting (caller : Caller)
  | judging (caller : Caller) (owner : DataDirLockOwner)
  | removing (caller : Caller) (owner : DataDirLockOwner)
  | held (file : FileId)
  | closing (file : FileId)
  | reading (file : FileId)
  | unlocking (file : FileId)
  | failed (failure : Failure)
  | finished

structure Call where
  pid : Pid
  nonce : Option Nonce
  pc : Pc

structure World where
  link : Option FileId
  files : List File
  calls : List Call
  alive : Pid → Bool

/-- `found` は、はじめにある錠のファイルの中身である。 -/
def World.start (alive : Pid → Bool) (found : Option (Option DataDirLockOwner)) : World where
  link := found.map fun _ => 0
  files := found.toList.map fun contents => { creator := none, contents }
  calls := []
  alive

/-! ## 呼び出しの続き -/

def Caller.resume : Caller → DataDirLockState → Pc
  | .createDataDirLock attempt, .missing => if attempt + 1 < 3 then .opening (attempt + 1) else .failed .unreadableLock
  | .assertDataDirUnlocked, .missing => .finished
  | _, .active owner => .failed (.inUse owner.pid)
  | _, .unreadable => .failed .unreadableLock
  | caller, .stale owner => .removing caller owner

namespace World

variable (w : World)

def goto (id : CallId) (call : Call) (pc : Pc) : World := { w with calls := w.calls.set id { call with pc } }

def current : Option File := w.link.bind fun file => w.files[file]?

/-- `readFile` と `parseDataDirLockOwner` まで。none は読み終えて、まだ持ち主の生死を調べていない。 -/
def readState : Except DataDirLockState DataDirLockOwner :=
  match w.current with
  | none => .error .missing
  | some file =>
    match file.contents with
    | none => .error .unreadable
    | some owner => .ok owner

def judge (owner : DataDirLockOwner) : DataDirLockState := if w.alive owner.pid then .active owner else .stale owner

def unlink : World := { w with link := none }

/-- 排他の作成。パスにファイルがあれば `EEXIST` で失敗する。 -/
def create (id : CallId) (call : Call) (attempt : ℕ) : World :=
  match w.link with
  | some _ => w.goto id call (.inspecting (.createDataDirLock attempt))
  | none =>
    { w.goto id call (.writing w.files.length) with
      link := some w.files.length, files := w.files ++ [{ creator := some id, contents := none }] }

def write (id : CallId) (call : Call) (file : FileId) : World :=
  { w.goto id call (.held file) with
    files := w.files.set file { creator := some id, contents := call.nonce.map fun nonce => { pid := call.pid, nonce } } }

def readOwn (id : CallId) (call : Call) (file : FileId) : World :=
  match w.readState with
  | .ok owner => if some owner.nonce = call.nonce then w.goto id call (.unlocking file) else w.goto id call .finished
  | .error _ => w.goto id call .finished

def proceed (id : CallId) (call : Call) (ok : Bool) : World :=
  match call.pc with
  | .opening attempt => if ok then w.create id call attempt else w.goto id call (.failed .fileSystem)
  | .writing file => if ok then w.write id call file else w.goto id call (.abandoning file)
  | .abandoning _ => if ok then (w.unlink).goto id call (.failed .fileSystem) else w.goto id call (.failed .fileSystem)
  | .inspecting caller =>
    if ok then
      match w.readState with
      | .ok owner => w.goto id call (.judging caller owner)
      | .error state => w.goto id call (caller.resume state)
    else w.goto id call (caller.resume .unreadable)
  | .judging caller owner => w.goto id call (caller.resume (w.judge owner))
  | .removing caller _ => if ok then (w.unlink).goto id call (caller.resume .missing) else w.goto id call (.failed .fileSystem)
  | .held _ => w
  | .closing file => if ok then w.goto id call (.reading file) else w.goto id call (.failed .fileSystem)
  | .reading file => if ok then w.readOwn id call file else w.goto id call .finished
  | .unlocking _ => if ok then (w.unlink).goto id call .finished else w.goto id call (.failed .fileSystem)
  | .failed _ => w
  | .finished => w

def begin_ (pid : Pid) (nonce : Option Nonce) (pc : Pc) : World :=
  if w.alive pid then { w with calls := w.calls ++ [{ pid, nonce, pc }] } else w

def release (id : CallId) (call : Call) : World :=
  match call.pc with
  | .held file => w.goto id call (.closing file)
  | _ => w

end World

/-! ## 全体の動き -/

inductive Event where
  | acquireDataDirLock (pid : Pid) (nonce : Nonce)
  | assertDataDirUnlocked (pid : Pid)
  | release (id : CallId)
  | proceed (id : CallId) (ok : Bool)
  | crash (pid : Pid)

def World.running (w : World) (id : CallId) : Option Call := w.calls[id]?.filter fun call => w.alive call.pid

def step (w : World) : Event → World
  | .acquireDataDirLock pid nonce => w.begin_ pid (some nonce) (.opening 0)
  | .assertDataDirUnlocked pid => w.begin_ pid none (.inspecting .assertDataDirUnlocked)
  | .release id => (w.running id).elim w (w.release id)
  | .proceed id ok => (w.running id).elim w fun call => w.proceed id call ok
  | .crash pid => { w with alive := Function.update w.alive pid false }

/-- 生きているプロセスの、錠を得て戻り、まだ返していない呼び出し。 -/
def World.Holds (w : World) (id : CallId) : Prop :=
  ∃ call file, w.running id = some call ∧ call.pc = .held file

def World.Exclusive (w : World) : Prop := ∀ id id', w.Holds id → w.Holds id' → id = id'

def World.linkedAlive (w : World) : Bool := w.current.any fun file => file.creator.any fun id => (w.running id).isSome

def World.removal (w : World) : Event → Option DataDirLockOwner
  | .proceed id true => (w.running id).bind fun call =>
    match call.pc with
    | .removing _ owner => some owner
    | _ => none
  | _ => none

/-- 持ち主の死んだ錠を消すとき、パスのファイルは、生きているプロセスの作ったものでない。 -/
def World.RemovesDead (w : World) (e : Event) : Prop := (w.removal e).isSome → w.linkedAlive = false

instance (w : World) (e : Event) : Decidable (w.RemovesDead e) := inferInstanceAs (Decidable (_ → _))

end Supacloud.DataDirLock
