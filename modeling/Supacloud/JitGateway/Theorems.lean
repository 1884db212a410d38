import Supacloud.JitGateway.Lemmas

/-!
# 接続口の性質
-/

namespace Supacloud.JitGateway

open Library GatewayManager

variable {Net : Type}

def OwnLifecycle (parseNet : String → Except String Net) (nowMs : Nat) (events : List Event) : Prop :=
  ∀ before after, events = before ++ after →
    (run (step parseNet) (.start nowMs) before).Kept ∧ (run (step parseNet) (.start nowMs) before).Single

/-- 束縛が自分の一生だけで終わるのは、期限の枝が取り消す束縛が、いつも自分のものか期限の来たものであるときに限る。 -/
theorem own_lifecycle (parseNet : String → Except String Net) (nowMs : Nat) (events : List Event) :
    OwnLifecycle parseNet nowMs events ↔ Along (step parseNet) GatewayManager.OwnExpiry (.start nowMs) events := by
  have hst : (start nowMs).Kept := by
    intro id l hl
    simp [start] at hl
  have hiff := along_iff_forall (step parseNet) events (C := OwnExpiry) (I := Kept)
    (J := Wired) (fun _ _ hwi => hwi.step)
    (fun _ _ hwi hke => ownExpiry_step hwi hke) wired_start hst
  rw [hiff]
  constructor
  · exact fun h before after hsp => (h before after hsp).1
  · intro h before after hsp
    have hwi : (run (step parseNet) (.start nowMs) before).Wired := run_invariant (fun _ _ hwi => hwi.step) wired_start
    exact ⟨h before after hsp, hwi.single⟩

def request (expiresAtMs : Nat) : CreateBindingRequest where
  credentialId := "a"
  port := 0
  expiresAtMs
  allowedNetworks := { ipv4 := ["127.0.0.1/32"], ipv6 := [] }

def reboundAtExpiry : List Event :=
  [.bindStart (request 1000), .bindDone 0 (some 5433), .listenerStart 1, .tick 1000, .bindStart (request 5000), .bindDone 2 (some 5434),
    .listenerExpire 1]

theorem rebound_released : ¬ OwnLifecycle (fun cidr => .ok cidr) 0 reboundAtExpiry := by
  intro h
  have hke := (h reboundAtExpiry [] (List.append_nil _).symm).1 3 {
    credentialId := "a"
    expiresAtMs := 5000
    remainingMs := 4000
    deadline := none
    cancelled := true
    running := true } (by rfl)
  exact absurd hke (by decide)

/-- どの走行でも、表の束縛と、走っていて取り消されていない聞き手は、互いに一つずつ対応する。 -/
theorem bindings_listened (parseNet : String → Except String Net) (nowMs : Nat) (events : List Event) :
    (run (step parseNet) (.start nowMs) events).Wired :=
  run_invariant (fun _ _ hwi => hwi.step) wired_start

end Supacloud.JitGateway
