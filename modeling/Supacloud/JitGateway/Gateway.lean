import Supacloud.Library.Lists
import Supacloud.Library.Runs

/-!
# 期限つきの接続口（jit-gateway/src/gateway.rs）

`select!` は、進める枝のどれを選んでもよい。ネットワークの範囲の読み取りは、外の部品である。
-/

namespace Supacloud.JitGateway

open Library

abbrev CredentialId := String

abbrev ListenerId := Nat

abbrev BindId := Nat

structure AllowedNetworksInput where
  ipv4 : List String
  ipv6 : List String

structure CreateBindingRequest where
  credentialId : CredentialId
  port : UInt16
  expiresAtMs : Nat
  allowedNetworks : AllowedNetworksInput

structure ActiveBinding where
  port : UInt16
  expiresAtMs : Nat
  cancelTx : ListenerId

/-- `TcpListener::bind` を待つ呼び出し。`nowMs` は、期限を調べたときの時刻である。 -/
structure PendingBind where
  request : CreateBindingRequest
  nowMs : Nat

/-- 待ち受けの仕事。`cancelled` は取りやめの知らせが届いていること、`deadline` は始まった後の時計の終わりである。 -/
structure Listener where
  credentialId : CredentialId
  expiresAtMs : Nat
  remainingMs : Nat
  deadline : Option Nat
  cancelled : Bool
  running : Bool

structure GatewayManager where
  bindings : AList fun _ : CredentialId => ActiveBinding
  pending : AList fun _ : BindId => PendingBind
  listeners : AList fun _ : ListenerId => Listener
  nextId : Nat
  nowMs : Nat
  /-- 取り消しか、同じ資格の次の呼び出しで、役目を終えた待ち受け。 -/
  dismissed : List ListenerId

namespace GatewayManager

def start (nowMs : Nat) : GatewayManager where
  bindings := ∅
  pending := ∅
  listeners := ∅
  nextId := 0
  nowMs
  dismissed := []

variable (manager : GatewayManager)

def cancel (listeners : AList fun _ : ListenerId => Listener) (id : ListenerId) : AList fun _ : ListenerId => Listener :=
  adjust listeners id fun l => { l with cancelled := true }

def bound (credentialId : CredentialId) : Option ListenerId := (manager.bindings.lookup credentialId).map ActiveBinding.cancelTx

def release (credentialId : CredentialId) : GatewayManager :=
  match manager.bindings.lookup credentialId with
  | none => manager
  | some binding =>
    { manager with bindings := manager.bindings.erase credentialId, listeners := cancel manager.listeners binding.cancelTx }

def dismiss (ids : Option ListenerId) : GatewayManager := { manager with dismissed := ids.toList ++ manager.dismissed }

end GatewayManager

/-! ## 呼び出し -/

section Policy

variable {Net : Type}

variable (parseNet : String → Except String Net)

def CompiledPolicy.fromInput (input : AllowedNetworksInput) : Except String (List Net) := do
  let v4 ← input.ipv4.mapM fun cidr => (parseNet cidr).mapError fun e => s!"Invalid IPv4 CIDR {cidr}: {e}"
  let v6 ← input.ipv6.mapM fun cidr => (parseNet cidr).mapError fun e => s!"Invalid IPv6 CIDR {cidr}: {e}"
  return v4 ++ v6

def checkRequest (nowMs : Nat) (req : CreateBindingRequest) : Except String (List Net) := do
  if req.expiresAtMs ≤ nowMs then throw "Expiration time must be in the future"
  let networks ← CompiledPolicy.fromInput parseNet req.allowedNetworks
  if networks.isEmpty then throw "At least one allowed network CIDR is required"
  return networks

def GatewayManager.bindStart (manager : GatewayManager) (req : CreateBindingRequest) : GatewayManager :=
  let released := (manager.release req.credentialId).dismiss (manager.bound req.credentialId)
  match checkRequest parseNet manager.nowMs req with
  | .error _ => released
  | .ok _ => { released with
      pending := released.pending.insert released.nextId { request := req, nowMs := manager.nowMs }
      nextId := released.nextId + 1 }

end Policy

namespace GatewayManager

variable (manager : GatewayManager)

def install (id : BindId) (call : PendingBind) (actualPort : UInt16) : GatewayManager :=
  let req := call.request
  let replaced := manager.bound req.credentialId
  let listener : Listener := {
    credentialId := req.credentialId
    expiresAtMs := req.expiresAtMs
    remainingMs := req.expiresAtMs - call.nowMs
    deadline := none
    cancelled := false
    running := true }
  { manager.dismiss replaced with
    bindings := manager.bindings.insert req.credentialId
      { port := actualPort, expiresAtMs := req.expiresAtMs, cancelTx := manager.nextId }
    pending := manager.pending.erase id
    listeners := (replaced.elim manager.listeners (cancel manager.listeners)).insert manager.nextId listener
    nextId := manager.nextId + 1 }

/-- `outcome` は、`TcpListener::bind` で決まった番号か、失敗である。 -/
def bindDone (id : BindId) (outcome : Option UInt16) : GatewayManager :=
  match manager.pending.lookup id with
  | none => manager
  | some call =>
    match outcome with
    | none => { manager with pending := manager.pending.erase id }
    | some port => manager.install id call port

def listenerStart (id : ListenerId) : GatewayManager :=
  { manager with
    listeners := adjust manager.listeners id fun l =>
      if l.running ∧ l.deadline = none then { l with deadline := some (manager.nowMs + l.remainingMs) } else l }

def stop (id : ListenerId) : GatewayManager :=
  { manager with listeners := adjust manager.listeners id fun l => { l with running := false } }

def listenerCancel (id : ListenerId) : GatewayManager :=
  match manager.listeners.lookup id with
  | none => manager
  | some l => if l.running ∧ l.deadline.isSome ∧ l.cancelled then manager.stop id else manager

def Expired (id : ListenerId) (l : Listener) : Prop :=
  manager.listeners.lookup id = some l ∧ l.running ∧ l.deadline.any fun deadline => deadline ≤ manager.nowMs

def listenerExpire (id : ListenerId) : GatewayManager :=
  match manager.listeners.lookup id with
  | none => manager
  | some l => if l.running ∧ l.deadline.any fun deadline => deadline ≤ manager.nowMs then (manager.release l.credentialId).stop id else manager

end GatewayManager

/-! ## 全体の動き -/

inductive Event where
  | tick (ms : Nat)
  | release (credentialId : CredentialId)
  | bindStart (req : CreateBindingRequest)
  | bindDone (id : BindId) (outcome : Option UInt16)
  | listenerStart (id : ListenerId)
  | listenerCancel (id : ListenerId)
  | listenerExpire (id : ListenerId)
  | listenerAccept (id : ListenerId)

def step {Net : Type} (parseNet : String → Except String Net) (manager : GatewayManager) : Event → GatewayManager
  | .tick ms => { manager with nowMs := manager.nowMs + ms }
  | .release credentialId => (manager.release credentialId).dismiss (manager.bound credentialId)
  | .bindStart req => manager.bindStart parseNet req
  | .bindDone id outcome => manager.bindDone id outcome
  | .listenerStart id => manager.listenerStart id
  | .listenerCancel id => manager.listenerCancel id
  | .listenerExpire id => manager.listenerExpire id
  | .listenerAccept _ => manager

namespace GatewayManager

variable (manager : GatewayManager)

/-- 開いた待ち受けは、役目を終えるか期限が来るまで、表にあって受け付けている。 -/
def Kept : Prop :=
  ∀ id l, manager.listeners.lookup id = some l → id ∈ manager.dismissed ∨ l.expiresAtMs ≤ manager.nowMs ∨
    manager.bound l.credentialId = some id ∧ l.running

def Single : Prop :=
  ∀ id id' l l', manager.listeners.lookup id = some l → manager.listeners.lookup id' = some l' → l.credentialId = l'.credentialId →
    l.running → l'.running → l.cancelled = false → l'.cancelled = false → id = id'

/-- 期限の枝を進める待ち受けの資格の束縛は、自分のものか、期限の来たものである。 -/
def OwnExpiry : Event → Prop
  | .listenerExpire id => ∀ l, manager.Expired id l → ∀ binding, manager.bindings.lookup l.credentialId = some binding →
      binding.cancelTx = id ∨ binding.expiresAtMs ≤ manager.nowMs
  | _ => True

end GatewayManager

end Supacloud.JitGateway
