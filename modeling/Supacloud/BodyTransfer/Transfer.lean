import Mathlib.Algebra.BigOperators.Group.List.Basic
import Mathlib.Algebra.Order.BigOperators.Group.List

/-! # 本体の置き場の予算（edge-runtime/body-transfer.ts の `BodyBufferBudget`） -/

namespace Supacloud.BodyTransfer

def bodyChunkBytes : Nat := 512 * 1024

def smallBodyBytes : Nat := 64 * 1024

/-- `BodyBufferBudget`。`leases` は、貸し出しの順に並べた持ち分 `held` である。空きの通知は、次の microtask で一度だけ行う。 -/
structure BodyBufferBudget where
  limit : Nat
  used : Int := 0
  peak : Int := 0
  rejected : Nat := 0
  notificationPending : Bool := false
  leases : List Int := []

namespace BodyBufferBudget

variable (b : BodyBufferBudget) (i : Nat) (bytes : Nat)

def held : Int := (b.leases[i]?).getD 0

def lease : BodyBufferBudget × Nat := ({ b with leases := b.leases ++ [0] }, b.leases.length)

def canResize : Bool := b.used - b.held i + bytes ≤ b.limit

def tryResize : BodyBufferBudget × Bool :=
  if b.used - b.held i + bytes > b.limit then (b, false)
  else
    ({ b with
      used := b.used + (bytes - b.held i)
      leases := b.leases.set i bytes
      peak := max b.peak (b.used + (bytes - b.held i))
      notificationPending := b.notificationPending || bytes < b.held i }, true)

def resize : BodyBufferBudget × Bool :=
  match b.tryResize i bytes with
  | (b', true) => (b', true)
  | (_, false) => ({ b with rejected := b.rejected + 1 }, false)

def release : BodyBufferBudget := (b.tryResize i 0).1

def notified : BodyBufferBudget := { b with notificationPending := false }

end BodyBufferBudget

inductive BudgetCall where
  | lease
  | tryResize (i bytes : Nat)
  | resize (i bytes : Nat)
  | release (i : Nat)
  | notify

def BudgetCall.target : BudgetCall → Option Nat
  | .tryResize i _ => some i
  | .resize i _ => some i
  | .release i => some i
  | .lease | .notify => none

namespace BodyBufferBudget

def call (b : BodyBufferBudget) : BudgetCall → BodyBufferBudget
  | .lease => b.lease.1
  | .tryResize i bytes => if i < b.leases.length then (b.tryResize i bytes).1 else b
  | .resize i bytes => if i < b.leases.length then (b.resize i bytes).1 else b
  | .release i => if i < b.leases.length then b.release i else b
  | .notify => b.notified

def ofCalls (limit : Nat) (calls : List BudgetCall) : BodyBufferBudget := calls.foldl call { limit }

end BodyBufferBudget

/-! ## 応答の受け手（edge-runtime/response-buffer.ts の `receiveBufferedResponse`） -/

abbrev Chunk := List UInt8

inductive BodyMessage where
  | chunk (bytes : Chunk)
  | done (error : Option String) (limit : Option Nat)

inductive StreamError where
  | producer (message : String)
  | bodyLimit (limit : Nat)
  | cancelled
  | timedOut
  | transportClosed
  | postFailed
  | external

inductive Ending where
  | closed
  | errored (error : StreamError)
  | cancelled

/-- `receiveBufferedResponse` の変数と、二つの予算。`enqueued` は読み手に渡したバイトの列、
`posted` は送り手に求めた塊の数、`attached` は通知を聞いていること、`threw` は `resize`
が投げたことである。 -/
structure Receiver where
  readAheadBytes : Nat
  body : BodyBufferBudget
  response : BodyBufferBudget
  lease : Nat
  responseLease : Nat
  chunks : List (Option Chunk) := []
  head : Nat := 0
  bytes : Nat := 0
  credit : Bool := false
  producerDone : Bool := false
  closed : Bool := false
  pulling : Bool := false
  attached : Bool := true
  posted : Nat := 0
  enqueued : Chunk := []
  ending : Option Ending := none
  threw : Bool := false

namespace Receiver

variable (s : Receiver)

def buffered : List Chunk := (s.chunks.drop s.head).filterMap id

def resize : Receiver × Bool :=
  let target := s.bytes + if s.credit then bodyChunkBytes else 0
  match s.body.resize s.lease target with
  | (body, false) => ({ s with body, threw := true }, false)
  | (body, true) =>
    match s.response.resize s.responseLease target with
    | (response, ok) => ({ s with body, response, threw := s.threw || !ok }, ok)

def detachProducer : Receiver := { s with attached := false }

def finish (ending : Ending) : Receiver :=
  if s.closed then s
  else
    { s.detachProducer with
      closed := true
      chunks := []
      head := 0
      bytes := 0
      body := s.body.release s.lease
      response := s.response.release s.responseLease
      pulling := false
      ending := some ending }

def fail (error : StreamError) : Receiver := if s.closed then s else s.finish (.errored error)

def pump (posts : Bool) : Receiver :=
  if s.closed || s.producerDone || s.credit then s
  else if !s.pulling && (s.bytes + bodyChunkBytes > s.readAheadBytes || s.chunks.length - s.head ≥ 256) then s
  else
    let next := s.bytes + bodyChunkBytes
    if !s.response.canResize s.responseLease next || !s.body.canResize s.lease next then s
    else
      match s.response.resize s.responseLease next with
      | (response, false) => { s with response, threw := true }
      | (response, true) =>
        match s.body.resize s.lease next with
        | (body, false) => { s with response, body, threw := true }
        | (body, true) =>
          let s := { s with response, body, credit := true }
          if posts then { s with posted := s.posted + 1 } else s.fail .postFailed

def advance (chunks : List (Option Chunk)) (head : Nat) : List (Option Chunk) × Nat :=
  let chunks := chunks.set head none
  let head := head + 1
  if head = chunks.length then ([], 0)
  else if head ≥ 128 then (chunks.drop head, 0)
  else (chunks, head)

def flush : Receiver :=
  if s.closed || !s.pulling then s
  else
    match (s.chunks[s.head]?).join with
    | some chunk =>
      let ring := advance s.chunks s.head
      let s := { s with
        chunks := ring.1
        head := ring.2
        bytes := s.bytes - chunk.length
        enqueued := s.enqueued ++ chunk }
      match s.resize with
      | (s, false) => s
      | (s, true) => { s with pulling := false }
    | none => if s.producerDone then s.finish .closed else s

/-- `port` の `message`。空の文字列の失敗は、失敗でない終わりと区別されない。 -/
def onMessage (m : BodyMessage) (posts : Bool) : Receiver :=
  if s.closed || !s.attached then s
  else
    let s := { s with credit := false }
    match m with
    | .done error limit =>
      match error.filter (· ≠ ""), limit with
      | some message, none => s.fail (.producer message)
      | some _, some limit => s.fail (.bodyLimit limit)
      | none, _ =>
        match { s with producerDone := true }.resize with
        | (s, false) => s
        | (s, true) => s.detachProducer.flush
    | .chunk bytes =>
      match { s with chunks := s.chunks ++ [some bytes], bytes := s.bytes + bytes.length }.resize with
      | (s, false) => s
      | (s, true) =>
        let s := s.flush
        if s.threw then s else s.pump posts

def onTransportClosed : Receiver := if s.closed || s.producerDone || !s.attached then s else s.fail .transportClosed

def onPull (posts : Bool) : Receiver :=
  if s.closed || s.pulling then s
  else
    let s := { s with pulling := true }.flush
    if s.threw then s else s.pump posts

end Receiver

/-! ## 出来事 -/

/-- 受け手に起きる出来事。`bodyCall` と `responseCall` は、ほかの貸し出しによる予算の変化である。 -/
inductive ReceiverEvent where
  | message (m : BodyMessage) (posts : Bool)
  | transportClosed
  | pull (posts : Bool)
  | cancel
  | abort
  | idleTimeout
  | fail
  | bodyAvailable (posts : Bool)
  | responseAvailable (posts : Bool)
  | bodyCall (call : BudgetCall)
  | responseCall (call : BudgetCall)

namespace Receiver

def step (s : Receiver) : ReceiverEvent → Receiver
  | .message m posts => s.onMessage m posts
  | .transportClosed => s.onTransportClosed
  | .pull posts => s.onPull posts
  | .cancel => if s.closed then s else s.finish .cancelled
  | .abort => s.fail .cancelled
  | .idleTimeout => s.fail .timedOut
  | .fail => s.fail .external
  | .bodyAvailable posts =>
    if s.body.notificationPending then
      let s := { s with body := s.body.notified }
      if s.attached then s.pump posts else s
    else s
  | .responseAvailable posts =>
    if s.response.notificationPending then
      let s := { s with response := s.response.notified }
      if s.attached then s.pump posts else s
    else s
  | .bodyCall call => if call.target = some s.lease then s else { s with body := s.body.call call }
  | .responseCall call => if call.target = some s.responseLease then s else { s with response := s.response.call call }

/-- `receiveBufferedResponse` の始まり。`aborted` は、すでに取り消されていることである。 -/
def receiveBufferedResponse (readAheadBytes : Nat) (body response : BodyBufferBudget) (lease : Nat) (aborted posts : Bool) :
    Receiver :=
  let (response, responseLease) := response.lease
  let s : Receiver := { readAheadBytes, body, response, lease, responseLease }
  if aborted then s.fail .cancelled else s.pump posts

def run (s : Receiver) (events : List ReceiverEvent) : Receiver := events.foldl step s

def paced (s : Receiver) : ReceiverEvent → Bool
  | .message (.chunk bytes) _ => s.credit && bytes.length ≤ bodyChunkBytes
  | _ => true

def runAll (check : Receiver → ReceiverEvent → Bool) (s : Receiver) : List ReceiverEvent → Bool
  | [] => true
  | e :: rest => check s e && runAll check (s.step e) rest

end Receiver

/-!
## 応答の送り手（edge-runtime/body-transfer.ts の `prepareResponseBody`）

待ち合わせのたびに一歩とする。
-/

structure Source where
  chunks : List Chunk
  error : Option String

inductive AbortReason where
  | retiring
  | cancelled

def AbortReason.message : AbortReason → String
  | .retiring => "Worker retiring"
  | .cancelled => "Task cancelled"

/-- 送り手の待つところ。`probing` は小さい応答かを調べる間、`prepared` は `run` を、`awaiting`
は求めを待つ間、`ready` は動き出す前である。 -/
inductive Phase where
  | probing (probe : Chunk)
  | buffered (buffer : Chunk)
  | rejected
  | prepared
  | awaiting
  | ready
  | reading
  | stopped
  deriving DecidableEq

structure Producer where
  limit : Option Nat
  error : Option String
  remaining : List Chunk
  bytesRead : Nat := 0
  small : List Chunk := []
  pending : Chunk := []
  current : Option Chunk := none
  offset : Nat := 0
  available : Bool := false
  cancelled : Bool := false
  aborted : Option AbortReason := none
  phase : Phase

def Phase.running : Phase → Bool
  | .awaiting => true
  | .ready => true
  | .reading => true
  | _ => false

inductive ReadResult where
  | value (chunk : Chunk)
  | done
  | failed (message : String) (limit : Option Nat)

namespace Producer

variable (p : Producer)

def limitMessage (limit : Nat) : String := "Body exceeded the configured limit of " ++ toString limit ++ " bytes"

def read : Producer × ReadResult :=
  match p.aborted with
  | some reason => (p, .failed reason.message none)
  | none =>
    if p.cancelled then (p, .done)
    else
      match p.remaining with
      | [] =>
        match p.error with
        | none => (p, .done)
        | some message => (p, .failed message none)
      | chunk :: rest =>
        let p := { p with remaining := rest, bytesRead := p.bytesRead + chunk.length }
        match p.limit with
        | some limit =>
          if p.bytesRead > limit then (p, .failed (limitMessage limit) (some limit)) else (p, .value chunk)
        | none => (p, .value chunk)

def probeStep (probe : Chunk) : Producer :=
  match p.read with
  | (p, .done) => { p with phase := .buffered probe }
  | (p, .failed ..) => { p with phase := .rejected }
  | (p, .value chunk) =>
    if p.bytesRead > smallBodyBytes then
      { p with small := if probe.isEmpty then [] else [probe], pending := chunk, phase := .prepared }
    else { p with phase := .probing (probe ++ chunk) }

def wake : Producer := if p.phase = .awaiting then { p with phase := .ready } else { p with available := true }

def awaitCredit : Producer := { p with phase := if p.available then .ready else .awaiting }

def stop : Producer := { p with small := [], pending := [], phase := .stopped }

def sendFrom (current : Chunk) (offset : Nat) : Producer × List BodyMessage :=
  let owned := (current.drop offset).take bodyChunkBytes
  ({ p with current := some current, offset := offset + owned.length }.awaitCredit, [.chunk owned])

def unsent : Option Chunk :=
  match p.current with
  | some current => if p.offset = current.length then none else some current
  | none => none

def fail (message : String) (limit : Option Nat) : Producer × List BodyMessage :=
  (p.stop, [.done (some (String.ofList (message.toList.take 4096))) limit])

def sendNext : Producer × List BodyMessage :=
  match p.unsent with
  | some current => p.sendFrom current p.offset
  | none =>
    match p.small with
    | current :: rest => { p with small := rest }.sendFrom current 0
    | [] => if p.pending.isEmpty then ({ p with phase := .reading }, []) else { p with pending := [] }.sendFrom p.pending 0

def produce : Producer × List BodyMessage :=
  let p := { p with available := false }
  match p.aborted with
  | some reason => p.fail reason.message none
  | none => if p.cancelled then p.fail "Function body consumer cancelled" none else p.sendNext

def readStep : Producer × List BodyMessage :=
  match p.read with
  | (p, .done) => (p.stop, [.done none none])
  | (p, .failed message limit) => p.fail message limit
  | (p, .value chunk) => if chunk.isEmpty then (p, []) else p.sendFrom chunk 0

end Producer

def prepareResponseBody (source : Source) (limit : Option Nat) (immediate : Bool) : Producer where
  limit
  error := source.error
  remaining := source.chunks
  phase := if immediate then .prepared else .probing []

/-!
## 送り手と受け手

送り手の一歩、通信路の届け、読み手の求めと予算の空きは、どの順にも起きる。
-/

/-- 送り手、受け手、届く途中の通知。`opened` は受け手が動き出したこと、`taken` は送り手に届いた求めの数である。 -/
structure Transfer where
  producer : Producer
  receiver : Receiver
  opened : Bool := false
  wire : List BodyMessage := []
  taken : Nat := 0

inductive TransferEvent where
  | read
  | start
  | credit
  | produce
  | portClosed
  | abortProducer (reason : AbortReason)
  | receive (aborted posts : Bool)
  | deliver (posts : Bool)
  | receiver (event : ReceiverEvent)

def Phase.streams : Phase → Bool
  | .prepared => true
  | .stopped => true
  | phase => phase.running

namespace Transfer

variable (t : Transfer)

def portOpen : Bool := !t.opened || t.receiver.attached

def post : Producer × List BodyMessage → Transfer
  | (producer, messages) => { t with producer, wire := t.wire ++ if t.portOpen then messages else [] }

def cancelProducer : Transfer := { t with producer := { t.producer with cancelled := true }.wake }

def receiverStep (e : ReceiverEvent) : Transfer :=
  match e with
  | .message .. => t
  | .bodyCall call =>
    if t.opened then { t with receiver := t.receiver.step (.bodyCall call) }
    else { t with receiver := { t.receiver with body := t.receiver.body.call call } }
  | .responseCall call =>
    if t.opened then { t with receiver := t.receiver.step (.responseCall call) }
    else { t with receiver := { t.receiver with response := t.receiver.response.call call } }
  | e => if t.opened then { t with receiver := t.receiver.step e } else t

def step : TransferEvent → Transfer
  | .read =>
    match t.producer.phase with
    | .probing probe => { t with producer := t.producer.probeStep probe }
    | .reading => t.post t.producer.readStep
    | _ => t
  | .start =>
    if t.producer.phase = .prepared then
      let producer := if t.producer.aborted.isSome then { t.producer with cancelled := true, available := true } else t.producer
      { t with producer := producer.awaitCredit }
    else t
  | .credit =>
    if t.producer.phase.running && t.taken < t.receiver.posted then
      { t with producer := t.producer.wake, taken := t.taken + 1 }
    else t
  | .produce => if t.producer.phase = .ready then t.post t.producer.produce else t
  | .portClosed => if t.producer.phase.running && !t.portOpen then t.cancelProducer else t
  | .abortProducer reason =>
    let t := { t with producer := { t.producer with aborted := t.producer.aborted.or (some reason) } }
    if t.producer.phase.running then t.cancelProducer else t
  | .receive aborted posts =>
    if t.producer.phase.streams && !t.opened then
      { t with
        opened := true
        receiver := .receiveBufferedResponse t.receiver.readAheadBytes t.receiver.body t.receiver.response t.receiver.lease
          aborted posts }
    else t
  | .deliver posts =>
    if t.opened then
      match t.wire with
      | [] => t
      | m :: rest => { t with wire := rest, receiver := t.receiver.onMessage m posts }
    else t
  | .receiver e => t.receiverStep e

def run (events : List TransferEvent) : Transfer := events.foldl step t

def initial (source : Source) (limit : Option Nat) (immediate : Bool) (readAheadBytes : Nat) (body response : BodyBufferBudget)
    (lease : Nat) : Transfer where
  producer := prepareResponseBody source limit immediate
  receiver := { readAheadBytes, body, response, lease, responseLease := 0 }

end Transfer

end Supacloud.BodyTransfer
