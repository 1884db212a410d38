import Mathlib
import Supacloud.Library.Runs

/-!
# 接続口の中継（services/jit-database-gateway.service.ts）

`socket.write` の結果は、出来事が決める。
-/

namespace Supacloud.JitProxy

abbrev Chunk := List UInt8

def maxPendingBytes : Int := 1024 * 1024

inductive Side where
  | client
  | upstream
  deriving DecidableEq

def Side.other : Side → Side
  | .client => .upstream
  | .upstream => .client

/-- ソケットと `ProxySocketData`。`peer` と `resumeOnDrain` は、相手を指しているかどうかである。`accepted` は書き込みが受け取った
バイト、`received` は届いたバイトである。 -/
structure Socket where
  peer : Bool
  pending : List Chunk
  pendingBytes : Int
  resumeOnDrain : Bool
  closed : Bool
  paused : Bool
  accepted : List UInt8
  received : List UInt8

def socketData : Socket :=
  { peer := false
    pending := []
    pendingBytes := 0
    resumeOnDrain := false
    closed := false
    paused := false
    accepted := []
    received := [] }

structure Pair where
  sockets : Side → Socket
  opened : Bool

def Pair.start : Pair := { sockets := fun _ => socketData, opened := false }

variable (p : Pair)

def Pair.modify (side : Side) (f : Socket → Socket) : Pair :=
  { p with sockets := Function.update p.sockets side (f (p.sockets side)) }

/-- `socket.write` の結果。−1 からかたまりの長さまでの数である。 -/
def writeResult (results : List Int) (chunk : Chunk) : Int := max (-1) (min (results.headD chunk.length) chunk.length)

def Pair.closePair (side : Side) : Pair :=
  if (p.sockets side).closed then p
  else
    let peer := (p.sockets side).peer
    let p := p.modify side fun s => { s with closed := true, peer := false }
    if peer && !(p.sockets side.other).closed then p.modify side.other fun s => { s with closed := true, peer := false } else p

def Pair.queueForPeer (source : Side) (chunk : Chunk) : Pair :=
  let p := p.modify source fun s =>
    { s with pending := s.pending ++ [chunk], pendingBytes := s.pendingBytes + chunk.length }
  if maxPendingBytes < (p.sockets source).pendingBytes then p.closePair source else p

def Socket.write (s : Socket) (chunk : Chunk) (written : Int) : Socket :=
  let s := { s with accepted := s.accepted ++ chunk.take written.toNat }
  if written < chunk.length then
    let rest := chunk.drop (max 0 written).toNat
    { s with pending := s.pending ++ [rest], pendingBytes := s.pendingBytes + rest.length, resumeOnDrain := true }
  else s

def Pair.forward (source : Side) (chunk : Chunk) (results : List Int) : Pair × List Int :=
  if (p.sockets source).closed || (p.sockets source.other).closed then (p, results)
  else
    let written := writeResult results chunk
    let p := p.modify source.other fun s => s.write chunk written
    if written < chunk.length then
      let p := p.modify source fun s => { s with paused := true }
      if maxPendingBytes < (p.sockets source.other).pendingBytes then (p.closePair source.other, results.tail) else (p, results.tail)
    else (p, results.tail)

def Pair.forwardAll (p : Pair) (source : Side) : List Chunk → List Int → Pair
  | [], _ => p
  | chunk :: chunks, results =>
    let (p, results) := p.forward source chunk results
    p.forwardAll source chunks results

def Socket.flush (s : Socket) : List Chunk → List Int → Socket × Bool
  | [], _ => ({ s with pending := [] }, true)
  | chunk :: chunks, results =>
    let written := writeResult results chunk
    let s := { s with pendingBytes := s.pendingBytes - chunk.length, accepted := s.accepted ++ chunk.take written.toNat }
    if written < chunk.length then
      let remainder := chunk.drop (max 0 written).toNat
      ({ s with pending := remainder :: chunks, pendingBytes := s.pendingBytes + remainder.length }, false)
    else s.flush chunks results.tail

def Pair.resumeSource (target : Side) : Pair :=
  let resume := (p.sockets target).resumeOnDrain
  let p := p.modify target fun s => { s with resumeOnDrain := false }
  if resume then p.modify target.other fun s => { s with paused := false } else p

def Pair.flushPending (target : Side) (results : List Int) : Pair :=
  if (p.sockets target).closed then p.resumeSource target
  else
    let (s, finished) := (p.sockets target).flush (p.sockets target).pending results
    let p := p.modify target fun _ => s
    if finished then p.resumeSource target else p

/-! ## 走行 -/

/-- `close` は、`close`、`error`、`connectError`、`end`、つなぎ損ねのどれでもある。 -/
inductive Event where
  | data (side : Side) (chunk : Chunk) (results : List Int)
  | upstreamOpen (results : List Int)
  | drain (side : Side) (results : List Int)
  | close (side : Side)

def Pair.receive (side : Side) (chunk : Chunk) : Pair :=
  p.modify side fun s => { s with received := s.received ++ chunk }

def Pair.onData (side : Side) (chunk : Chunk) (results : List Int) : Pair :=
  match side with
  | .client =>
    let p := p.receive .client chunk
    if (p.sockets .client).peer then (p.forward .client chunk results).1 else p.queueForPeer .client chunk
  | .upstream =>
    if p.opened then
      let p := p.receive .upstream chunk
      if (p.sockets .upstream).peer then (p.forward .upstream chunk results).1 else p
    else p

def Pair.onOpen (results : List Int) : Pair :=
  if p.opened then p
  else
    let pending := (p.sockets .client).pending
    let p := p.modify .upstream fun s => { s with peer := true }
    let p := p.modify .client fun s => { s with peer := true, pending := [], pendingBytes := 0 }
    { p with opened := true }.forwardAll .client pending results

def step : Event → Pair
  | .data side chunk results => p.onData side chunk results
  | .upstreamOpen results => p.onOpen results
  | .drain side results => p.flushPending side results
  | .close side => p.closePair side

/-! ## 中継が守るべきこと -/

/-- どちらのソケットが受け取ったバイトも、相手に届いたバイトの初めの部分である。 -/
def Pair.Faithful : Prop := ∀ side, (p.sockets side).accepted <+: (p.sockets side.other).received

def Pair.Counted : Prop :=
  ∀ side, (p.sockets side).pendingBytes = ((p.sockets side).pending.map List.length).sum

def inTurn (waiting written : Int) : Prop := waiting = 0 ∨ written ≤ 0

/-- つながったときに送るかたまりの列が、順に書き込まれる。書き残しが上限を超えれば、対は閉じて、残りは書き込まれない。 -/
def AllInTurn (waiting : Int) : List Chunk → List Int → Prop
  | [], _ => True
  | chunk :: chunks, results =>
    let written := writeResult results chunk
    inTurn waiting written ∧ (waiting + (chunk.length - max 0 written) ≤ maxPendingBytes →
        AllInTurn (waiting + (chunk.length - max 0 written)) chunks results.tail)

def NothingTaken : List Chunk → List Int → Prop
  | [], _ => True
  | chunk :: chunks, results =>
    writeResult results chunk ≤ 0 ∧ (chunk.length ≤ writeResult results chunk → NothingTaken chunks results.tail)

instance inTurn.decidable (waiting written : Int) : Decidable (inTurn waiting written) := instDecidableOr

instance AllInTurn.decidable (waiting : Int) (chunks : List Chunk) (results : List Int) :
    Decidable (AllInTurn waiting chunks results) :=
  match chunks with
  | [] => isTrue trivial
  | chunk :: chunks =>
    have := AllInTurn.decidable (waiting + (chunk.length - max 0 (writeResult results chunk))) chunks results.tail
    inferInstanceAs (Decidable (_ ∧ (_ → _)))

instance NothingTaken.decidable (chunks : List Chunk) (results : List Int) : Decidable (NothingTaken chunks results) :=
  match chunks with
  | [] => isTrue trivial
  | _ :: chunks =>
    have := NothingTaken.decidable chunks results.tail
    inferInstanceAs (Decidable (_ ∧ (_ → _)))

def Pair.live : Bool := !(p.sockets .client).closed && !(p.sockets .upstream).closed

def Pair.InTurn : Event → Prop
  | .data side chunk results =>
    p.opened = true → p.live = true → inTurn (p.sockets side.other).pendingBytes (writeResult results chunk)
  | .upstreamOpen results => p.opened = false → p.live = true → AllInTurn 0 (p.sockets .client).pending results
  | .drain .client results =>
    p.opened = false → (p.sockets .client).closed = false → NothingTaken (p.sockets .client).pending results
  | .drain .upstream _ | .close _ => True

instance Pair.InTurn.decidable (p : Pair) (e : Event) : Decidable (p.InTurn e) :=
  match e with
  | .data .. => inferInstanceAs (Decidable (_ → _))
  | .upstreamOpen .. => inferInstanceAs (Decidable (_ → _))
  | .drain .client _ => inferInstanceAs (Decidable (_ → _))
  | .drain .upstream _ => isTrue trivial
  | .close _ => isTrue trivial

end Supacloud.JitProxy
