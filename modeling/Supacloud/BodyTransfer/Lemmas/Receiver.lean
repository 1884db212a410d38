import Mathlib
import Supacloud.BodyTransfer.Transfer

/-!
# 予算の勘定

使用量は持ち分の合計に等しく、上限を超えない。持ち分を減らす `resize` は失敗しない。
-/

namespace Supacloud.BodyTransfer

namespace BodyBufferBudget

structure Ok (b : BodyBufferBudget) : Prop where
  total : b.used = b.leases.sum
  nonneg : ∀ h ∈ b.leases, 0 ≤ h
  le : b.used ≤ b.limit

variable {b b' : BodyBufferBudget} {i j bytes : Nat}

theorem held_eq (hi) : b.held i = b.leases[i] := by
  simp [held, hi]

theorem held_nonneg (h : b.Ok) : 0 ≤ b.held i := by
  unfold held
  cases hi : b.leases[i]? with
  | none => simp
  | some x => exact h.nonneg x (List.mem_of_getElem? hi)

theorem Ok.used_nonneg (h : b.Ok) : 0 ≤ b.used := by
  rw [h.total]
  exact List.sum_nonneg h.nonneg

/-! ## 持ち分の変更 -/

structure Resized (b : BodyBufferBudget) (i bytes : Nat) (b' : BodyBufferBudget) : Prop where
  ok : b'.Ok
  limit : b'.limit = b.limit
  length : b'.leases.length = b.leases.length
  held : b'.held i = bytes
  frame : ∀ j, j ≠ i → b'.held j = b.held j

theorem tryResize_of_canResize (hc : b.canResize i bytes = true) : (b.tryResize i bytes).2 = true := by
  have hle : b.used - b.held i + bytes ≤ b.limit := by simpa [canResize] using hc
  unfold tryResize
  rw [if_neg (by omega)]

section

variable (h : b.Ok) (hi : i < b.leases.length)

include h hi

theorem tryResize_resized (ht : (b.tryResize i bytes).2 = true) : Resized b i bytes (b.tryResize i bytes).1 := by
  unfold tryResize at ht ⊢
  split at ht
  · cases ht
  · rename_i hle
    rw [if_neg hle]
    exact {
      ok := {
        total := by
          simp only [List.sum_set', hi, ↓reduceDIte, held_eq hi, h.total]
          omega
        nonneg := fun x hx => by
          rcases List.mem_or_eq_of_mem_set hx with hx | rfl
          · exact h.nonneg x hx
          · omega
        le := by
          dsimp only
          omega }
      limit := rfl
      length := by simp
      held := by simp [held, hi]
      frame := fun j hj => by simp [held, hj.symm] }

theorem tryResize_ok : (b.tryResize i bytes).1.Ok := by
  cases ht : (b.tryResize i bytes).2 with
  | true => exact (tryResize_resized h hi ht).ok
  | false =>
    unfold tryResize at ht ⊢
    split at ht
    · rename_i hlt
      rw [if_pos hlt]
      exact h
    · cases ht

theorem resize_of_canResize (hc : b.canResize i bytes = true) : ∃ b', b.resize i bytes = (b', true) ∧ Resized b i bytes b' := by
  have ht := tryResize_of_canResize hc
  refine ⟨(b.tryResize i bytes).1, ?_, tryResize_resized h hi ht⟩
  unfold resize
  rw [show b.tryResize i bytes = ((b.tryResize i bytes).1, true) from Prod.ext rfl ht]

theorem resize_of_le (hle : bytes ≤ b.held i) : ∃ b', b.resize i bytes = (b', true) ∧ Resized b i bytes b' := by
  refine resize_of_canResize h hi ?_
  have := h.le
  simp only [canResize, decide_eq_true_eq]
  omega

theorem resize_ok : (b.resize i bytes).1.Ok := by
  have ht : (b.tryResize i bytes).1.Ok := tryResize_ok h hi
  unfold resize
  split
  · rename_i b' he
    rwa [he] at ht
  · exact { h with }

theorem release_resized : Resized b i 0 (b.release i) := by
  refine tryResize_resized h hi (tryResize_of_canResize ?_)
  have := h.le
  have := held_nonneg (i := i) h
  simp only [canResize, decide_eq_true_eq]
  omega

end

/-! ## 呼び出し -/

theorem call_ok (h : b.Ok) (call) : (b.call call).Ok := by
  cases call with
  | lease =>
    exact {
      total := by
        show b.used = (b.leases ++ [0]).sum
        simp [h.total]
      nonneg := fun x hx => by
        rcases List.mem_append.mp hx with hx | hx
        · exact h.nonneg x hx
        · rw [List.mem_singleton.mp hx]
      le := h.le }
  | tryResize i bytes =>
    simp only [call]
    split
    · rename_i hi
      exact tryResize_ok h hi
    · exact h
  | resize i bytes =>
    simp only [call]
    split
    · rename_i hi
      exact resize_ok h hi
    · exact h
  | release i =>
    simp only [call]
    split
    · rename_i hi
      exact (release_resized h hi).ok
    · exact h
  | notify => exact { h with }

theorem tryResize_effect : (b.tryResize i bytes).1.limit = b.limit ∧
    ((b.tryResize i bytes).1.leases = b.leases ∨ (b.tryResize i bytes).1.leases = b.leases.set i bytes) := by
  unfold tryResize
  split
  · exact ⟨rfl, .inl rfl⟩
  · exact ⟨rfl, .inr rfl⟩

theorem resize_effect : (b.resize i bytes).1.limit = b.limit ∧
    ((b.resize i bytes).1.leases = b.leases ∨ (b.resize i bytes).1.leases = b.leases.set i bytes) := by
  have ht := @tryResize_effect b i bytes
  unfold resize
  split
  · rename_i b' he
    rwa [he] at ht
  · exact ⟨rfl, .inl rfl⟩

variable (limit : Nat) (calls : List BudgetCall) (call : BudgetCall)

theorem call_effect : (b.call call).limit = b.limit ∧ ((b.call call).leases = b.leases ∨
    (b.call call).leases = b.leases ++ [0] ∨ ∃ i bytes, call.target = some i ∧ (b.call call).leases = b.leases.set i bytes) := by
  cases call with
  | lease => exact ⟨rfl, .inr (.inl rfl)⟩
  | tryResize i bytes =>
    simp only [call]
    split
    · exact tryResize_effect.imp_right (.imp_right fun hl => .inr ⟨i, bytes, rfl, hl⟩)
    · exact ⟨rfl, .inl rfl⟩
  | resize i bytes =>
    simp only [call]
    split
    · exact resize_effect.imp_right (.imp_right fun hl => .inr ⟨i, bytes, rfl, hl⟩)
    · exact ⟨rfl, .inl rfl⟩
  | release i =>
    simp only [call]
    split
    · exact tryResize_effect.imp_right (.imp_right fun hl => .inr ⟨i, 0, rfl, hl⟩)
    · exact ⟨rfl, .inl rfl⟩
  | notify => exact ⟨rfl, .inl rfl⟩

theorem call_length : b.leases.length ≤ (b.call call).leases.length := by
  rcases (call_effect (b := b) call).2 with hl | hl | ⟨i, bytes, -, hl⟩ <;> simp [hl]

theorem call_frame {call} (hj : j < b.leases.length) (hne : call.target ≠ some j) : (b.call call).held j = b.held j := by
  unfold held
  rcases (call_effect (b := b) call).2 with hl | hl | ⟨i, bytes, ht, hl⟩
  · rw [hl]
  · rw [hl, List.getElem?_append_left hj]
  · rw [hl, List.getElem?_set_ne fun he => hne (ht.trans (congrArg some he))]

theorem call_limit : (b.call call).limit = b.limit := (call_effect call).1

theorem fresh_ok : Ok { limit } where
  total := rfl
  nonneg := nofun
  le := Int.natCast_nonneg _

theorem ofCalls_ok : (ofCalls limit calls).Ok := by
  unfold ofCalls
  generalize hb : ({ limit } : BodyBufferBudget) = b
  have h : b.Ok := hb ▸ fresh_ok limit
  clear hb
  induction calls generalizing b with
  | nil => exact h
  | cons call rest ih => exact ih (b.call call) (call_ok h call)

theorem ofCalls_limit : (ofCalls limit calls).limit = limit := by
  unfold ofCalls
  generalize hb : ({ limit } : BodyBufferBudget) = b
  have h : b.limit = limit := hb ▸ rfl
  clear hb
  induction calls generalizing b with
  | nil => exact h
  | cons call rest ih => exact ih (b.call call) ((call_limit call).trans h)

end BodyBufferBudget

/-! ## 受け手の持ち分 -/

open BodyBufferBudget BodyBufferBudget Receiver List

/-! ## 輪 -/

def Ring (chunks : List (Option Chunk)) (head : Nat) (cs : List Chunk) : Prop := chunks.drop head = cs.map some

namespace Ring

variable {chunks : List (Option Chunk)} {head : Nat} {cs : List Chunk}

theorem empty : Ring [] 0 [] := rfl

theorem push {c} (h : Ring chunks head cs) (hle : head ≤ chunks.length) : Ring (chunks ++ [some c]) head (cs ++ [c]) := by
  unfold Ring at h ⊢
  rw [drop_append_of_le_length hle, h]
  simp

theorem first (h : Ring chunks head cs) : (chunks[head]?).join = cs.head? := by
  have hd : chunks[head]? = (chunks.drop head)[0]? := by simp
  rw [hd, h]
  cases cs with
  | nil | cons c cs => rfl

theorem advance (h : Ring chunks head (c :: cs)) : Ring (advance chunks head).1 (advance chunks head).2 cs ∧
      (advance chunks head).2 ≤ (advance chunks head).1.length := by
  have hlt : head < chunks.length := by
    by_contra hge
    unfold Ring at h
    rw [drop_eq_nil_of_le (Nat.le_of_not_lt hge)] at h
    cases h
  have hres : chunks.drop (head + 1) = cs.map some := by
    unfold Ring at h
    rw [← tail_drop, h]
    rfl
  have hset : (chunks.set head none).drop (head + 1) = cs.map some := by
    rw [drop_set_of_lt (Nat.lt_succ_self head), hres]
  unfold Receiver.advance
  simp only [length_set]
  split
  · rename_i he
    refine ⟨?_, le_rfl⟩
    show [] = cs.map some
    rw [← hres, he, drop_length]
  · split
    · exact ⟨hset, Nat.zero_le _⟩
    · refine ⟨hset, ?_⟩
      simp only [length_set]
      omega

theorem filterMap (h : Ring chunks head cs) : (chunks.drop head).filterMap id = cs := by
  unfold Ring at h
  rw [h, filterMap_map]
  exact filterMap_some

end Ring

namespace Receiver

variable {s : Receiver} {b' r' : BodyBufferBudget} {n : Nat}

def target (s : Receiver) : Nat := s.bytes + if s.credit then bodyChunkBytes else 0

structure Sound (s : Receiver) : Prop where
  body : s.body.Ok
  response : s.response.Ok
  lease_lt : s.lease < s.body.leases.length
  responseLease_lt : s.responseLease < s.response.leases.length
  threw : s.threw = false
  head_le : s.head ≤ s.chunks.length
  ring : Ring s.chunks s.head s.buffered
  bytes_eq : s.bytes = (s.buffered.map List.length).sum

def Covers (s : Receiver) (n : Nat) : Prop := n ≤ s.body.held s.lease ∧ n ≤ s.response.held s.responseLease

theorem Covers.mono {m} (h : s.Covers n) (hle : m ≤ n) : s.Covers m :=
  ⟨(Int.ofNat_le.mpr hle).trans h.1, (Int.ofNat_le.mpr hle).trans h.2⟩

structure Funded (s : Receiver) : Prop extends Sound s where
  covers : s.closed = false → s.Covers s.target
  emptied : s.closed = true → s.bytes = 0 ∧ s.body.held s.lease = 0 ∧ s.response.held s.responseLease = 0

theorem closed_of_open {p} (h : ¬ (s.closed || p) = true) : s.closed = false := by
  cases hc : s.closed with
  | false => rfl
  | true => exact absurd (by simp [hc]) h

def take (s : Receiver) (c : Chunk) : Receiver := { s with
  chunks := (advance s.chunks s.head).1
  head := (advance s.chunks s.head).2
  bytes := s.bytes - c.length
  enqueued := s.enqueued ++ c }

theorem flush_cases (h : Ring s.chunks s.head s.buffered) : s.flush = s ∨ s.closed = false ∧
    (s.buffered = [] ∧ s.producerDone = true ∧ s.flush = s.finish .closed ∨ ∃ c cs, s.buffered = c :: cs ∧
      Ring (s.take c).chunks (s.take c).head (s.take c).buffered ∧ (s.take c).head ≤ (s.take c).chunks.length ∧
      (s.take c).buffered = cs ∧ s.flush = match (s.take c).resize with
        | (s, false) => s
        | (s, true) => { s with pulling := false }) := by
  unfold flush
  split
  · exact .inl rfl
  rename_i hop
  cases hb : s.buffered with
  | nil =>
    rw [show (s.chunks[s.head]?).join = none by rw [h.first, hb]; rfl]
    dsimp only
    split
    · rename_i hdo
      exact .inr ⟨closed_of_open hop, .inl ⟨rfl, hdo, rfl⟩⟩
    · exact .inl rfl
  | cons c cs =>
    rw [show (s.chunks[s.head]?).join = some c by rw [h.first, hb]; rfl]
    obtain ⟨hri, hle⟩ := (hb ▸ h).advance
    have hbu : (s.take c).buffered = cs := hri.filterMap
    exact .inr ⟨closed_of_open hop, .inr ⟨c, cs, rfl, hbu.symm ▸ hri, hle, hbu, rfl⟩⟩

theorem Sound.refund (h : s.Sound) (hb : Resized s.body s.lease n b') (hr : Resized s.response s.responseLease n r') :
    Sound { s with body := b', response := r' } :=
  { h with
    body := hb.ok
    response := hr.ok
    lease_lt := hb.length ▸ h.lease_lt
    responseLease_lt := hr.length ▸ h.responseLease_lt }

theorem resize_spec (h : s.Sound) (hc : s.Covers s.target) :
    ∃ b' r', s.resize = ({ s with body := b', response := r' }, true) ∧ Resized s.body s.lease s.target b' ∧
      Resized s.response s.responseLease s.target r' := by
  obtain ⟨b', heb, hb⟩ := resize_of_le h.body h.lease_lt hc.1
  obtain ⟨r', her, hr⟩ := resize_of_le h.response h.responseLease_lt hc.2
  refine ⟨b', r', ?_, hb, hr⟩
  have ht := h.threw
  simp only [target] at heb her
  simp [resize, heb, her]

/-! ## 終わり -/

section

variable (h : s.Funded)

include h

theorem Funded.finish (e) : (s.finish e).Funded := by
  unfold Receiver.finish
  split
  · exact h
  · have hb := release_resized h.body h.lease_lt
    have hr := release_resized h.response h.responseLease_lt
    exact {
      body := hb.ok
      response := hr.ok
      lease_lt := hb.length ▸ h.lease_lt
      responseLease_lt := hr.length ▸ h.responseLease_lt
      threw := h.threw
      head_le := le_rfl
      ring := .empty
      bytes_eq := rfl
      covers := nofun
      emptied := fun _ => ⟨rfl, hb.held, hr.held⟩ }

theorem Funded.fail (e) : (s.fail e).Funded := by
  unfold Receiver.fail
  split
  · exact h
  · exact h.finish _

/-! ## 求めと受け渡し -/

theorem Funded.pump (posts) : (s.pump posts).Funded := by
  unfold Receiver.pump
  split
  · exact h
  rename_i hop
  split
  · exact h
  dsimp only
  split
  · exact h
  · rename_i hcan
    simp only [Bool.or_eq_true, Bool.not_eq_true', not_or, Bool.not_eq_false] at hop hcan
    obtain ⟨r', her, hr⟩ := resize_of_canResize h.response h.responseLease_lt hcan.1
    obtain ⟨b', heb, hb⟩ := resize_of_canResize h.body h.lease_lt hcan.2
    rw [her, heb]
    have hs : Funded { s with response := r', body := b', credit := true } :=
      { h.toSound.refund hb hr with
        covers := fun _ => ⟨hb.held.ge, hr.held.ge⟩
        emptied := fun hc => absurd hc hop.1.1 }
    dsimp only
    split
    · exact { hs with }
    · exact hs.fail _

theorem Funded.flush : s.flush.Funded := by
  rcases flush_cases h.ring with he | ⟨hcl, ⟨-, -, he⟩ | ⟨c, cs, hb, hri, hle, hbu, he⟩⟩
  · rwa [he]
  · rw [he]
    exact h.finish _
  · have hsi : s.bytes = c.length + (cs.map length).sum := by rw [h.bytes_eq, hb]; rfl
    have hs₁ : (s.take c).Sound :=
      { h with
        head_le := hle
        ring := hri
        bytes_eq := by
          rw [hbu]
          show s.bytes - c.length = _
          rw [hsi, Nat.add_sub_cancel_left] }
    have hle : (s.take c).target ≤ s.target := Nat.add_le_add_right (Nat.sub_le _ _) _
    obtain ⟨b', r', hre, hb', hr'⟩ := resize_spec hs₁ ((h.covers hcl).mono hle)
    rw [he, hre]
    exact { hs₁.refund hb' hr' with
      covers := fun _ => ⟨hb'.held.ge, hr'.held.ge⟩
      emptied := fun hc => absurd (hcl.symm.trans hc) nofun }

theorem Funded.accept (hcl : s.closed = false) (hcr : s.credit = true) {c} (hc : c.length ≤ bodyChunkBytes) :
    Sound { s with credit := false, chunks := s.chunks ++ [some c], bytes := s.bytes + c.length } ∧
      Covers { s with credit := false, chunks := s.chunks ++ [some c], bytes := s.bytes + c.length } (s.bytes + c.length) := by
  have hri := h.ring.push (c := c) h.head_le
  have hbu : ((s.chunks ++ [some c]).drop s.head).filterMap id = s.buffered ++ [c] := hri.filterMap
  refine ⟨{ h with
    head_le := by
      rw [length_append]
      exact Nat.le_add_right_of_le h.head_le
    ring := by
      show Ring _ _ (((s.chunks ++ [some c]).drop s.head).filterMap id)
      rw [hbu]
      exact hri
    bytes_eq := ?_ }, ?_⟩
  · show s.bytes + c.length = ((((s.chunks ++ [some c]).drop s.head).filterMap id).map length).sum
    rw [hbu, h.bytes_eq]
    simp
  · have hold := h.covers hcl
    simp only [target, hcr, if_true] at hold
    exact Covers.mono hold (Nat.add_le_add_left hc _)

theorem Funded.onMessage {m posts} (hp : paced s (.message m posts) = true) : (s.onMessage m posts).Funded := by
  unfold Receiver.onMessage
  split
  · exact h
  rename_i hop
  have hcl := closed_of_open hop
  -- 求めた一塊の枠を返すだけなので、持ち分は足りる
  have hcos : s.Covers s.bytes := (h.covers hcl).mono (Nat.le_add_right _ _)
  have hs : Funded { s with credit := false } := { h with covers := fun _ => hcos }
  cases m with
  | done error limit =>
    dsimp only
    split
    · exact hs.fail _
    · exact hs.fail _
    · obtain ⟨b', r', he, hb, hr⟩ := resize_spec (s := { s with credit := false, producerDone := true })
        { hs.toSound with } hcos
      rw [he]
      refine Funded.flush ?_
      exact { hs.toSound.refund hb hr with
        covers := fun _ => ⟨hb.held.ge, hr.held.ge⟩
        emptied := fun hc => absurd (hcl.symm.trans hc) nofun }
  | chunk c =>
    simp only [paced, Bool.and_eq_true, decide_eq_true_eq] at hp
    obtain ⟨hso, hcov⟩ := h.accept hcl hp.1 hp.2
    obtain ⟨b', r', he, hb, hr⟩ := resize_spec hso hcov
    dsimp only
    rw [he]
    have hfl : Funded (Receiver.flush { s with
        credit := false, chunks := s.chunks ++ [some c], bytes := s.bytes + c.length, body := b', response := r' }) :=
      Funded.flush { hso.refund hb hr with
        covers := fun _ => ⟨hb.held.ge, hr.held.ge⟩
        emptied := fun hc => absurd (hcl.symm.trans hc) nofun }
    dsimp only
    split
    · exact hfl
    · exact hfl.pump _

theorem Funded.onPull (posts) : (s.onPull posts).Funded := by
  unfold Receiver.onPull
  split
  · exact h
  · have hfl : Funded (Receiver.flush { s with pulling := true }) := Funded.flush { h with }
    dsimp only
    split
    · exact hfl
    · exact hfl.pump _

theorem Funded.buffered_le : s.Covers (s.buffered.map length).sum := by
  rw [← h.bytes_eq]
  cases hc : s.closed with
  | false => exact (h.covers hc).mono (Nat.le_add_right _ _)
  | true =>
    obtain ⟨hb, hbo, hrs⟩ := h.emptied hc
    rw [hb]
    exact ⟨hbo.ge, hrs.ge⟩

/-! ## 走行 -/

theorem Funded.step {e} (hp : paced s e = true) : (s.step e).Funded := by
  cases e with
  | message m posts => exact h.onMessage hp
  | transportClosed =>
    simp only [Receiver.step, onTransportClosed]
    split
    · exact h
    · exact h.fail _
  | pull posts => exact h.onPull posts
  | cancel =>
    simp only [Receiver.step]
    split
    · exact h
    · exact h.finish _
  | abort | idleTimeout | fail => exact h.fail _
  | bodyAvailable posts =>
    simp only [Receiver.step]
    split
    · have hs : Funded { s with body := s.body.notified } := { h with body := { h.body with } }
      split
      · exact hs.pump _
      · exact hs
    · exact h
  | responseAvailable posts =>
    simp only [Receiver.step]
    split
    · have hs : Funded { s with response := s.response.notified } := { h with response := { h.response with } }
      split
      · exact hs.pump _
      · exact hs
    · exact h
  | bodyCall call =>
    simp only [Receiver.step]
    split
    · exact h
    · rename_i hne
      have hhe := call_frame h.lease_lt hne
      exact { h with
        body := call_ok h.body call
        lease_lt := h.lease_lt.trans_le (call_length call)
        covers := fun hc => ⟨hhe ▸ (h.covers hc).1, (h.covers hc).2⟩
        emptied := fun hc => ⟨(h.emptied hc).1, hhe ▸ (h.emptied hc).2.1, (h.emptied hc).2.2⟩ }
  | responseCall call =>
    simp only [Receiver.step]
    split
    · exact h
    · rename_i hne
      have hhe := call_frame h.responseLease_lt hne
      exact { h with
        response := call_ok h.response call
        responseLease_lt := h.responseLease_lt.trans_le (call_length call)
        covers := fun hc => ⟨(h.covers hc).1, hhe ▸ (h.covers hc).2⟩
        emptied := fun hc => ⟨(h.emptied hc).1, (h.emptied hc).2.1, hhe ▸ (h.emptied hc).2.2⟩ }

theorem Funded.run {events} (hp : runAll paced s events = true) : (s.run events).Funded := by
  induction events generalizing s with
  | nil => exact h
  | cons e rest ih =>
    simp only [runAll, Bool.and_eq_true] at hp
    exact ih (h.step hp.1) hp.2

end

theorem receiveBufferedResponse_funded {readAheadBytes lease body response} (hb : body.Ok)
    (hr : response.Ok) (hl : lease < body.leases.length) (aborted posts) :
    (receiveBufferedResponse readAheadBytes body response lease aborted posts).Funded := by
  have hnew : (response.lease.1).held response.lease.2 = 0 := by simp [BodyBufferBudget.lease, held]
  have hs : Funded { readAheadBytes, body, response := response.lease.1, lease, responseLease := response.lease.2 } := {
    body := hb
    response := call_ok hr .lease
    lease_lt := hl
    responseLease_lt := by simp [BodyBufferBudget.lease]
    threw := rfl
    head_le := le_rfl
    ring := .empty
    bytes_eq := rfl
    covers := fun _ => ⟨held_nonneg hb, hnew.ge⟩
    emptied := nofun }
  unfold receiveBufferedResponse
  dsimp only
  split
  · exact hs.fail _
  · exact hs.pump _

end Receiver

variable {posts : Bool}

/-! ## 受け手の流れ -/

namespace Receiver

variable {s : Receiver} {sent : Chunk} {done attached : Bool}

/-- sent は受け手に届いたバイトの列、done は送り手が終えたこと、attached は通信路をまだ離れていないことである。 -/
structure Flows (s : Receiver) (sent : Chunk) (done attached : Bool) : Prop where
  producerDone : s.producerDone = done
  attached : s.attached = true → attached = true
  head_le : s.head ≤ s.chunks.length
  ring : Ring s.chunks s.head s.buffered
  whole : s.closed = false → s.enqueued ++ s.buffered.flatten = sent
  before : s.enqueued <+: sent
  ended : s.ending = some .closed → s.enqueued = sent ∧ s.producerDone = true
  running : s.closed = false → s.ending = none
  stopped : s.closed = true → ∃ e, s.ending = some e
  detached : s.attached = false → s.closed = true ∨ s.producerDone = true
  listening : s.attached = true → s.closed = false

theorem resize_flows (h : s.Flows sent done attached) : s.resize.1.Flows sent done attached := by
  unfold resize
  dsimp only
  split
  · exact { h with }
  · exact { h with }

theorem finish_flows {e} (h : s.Flows sent done attached)
    (he : e = .closed → s.closed = false → s.enqueued = sent ∧ s.producerDone = true) : (s.finish e).Flows sent done attached := by
  unfold finish
  split
  · exact h
  · rename_i hop
    exact {
      producerDone := h.producerDone
      attached := nofun
      head_le := le_rfl
      ring := .empty
      whole := nofun
      before := h.before
      ended := fun hc => he (Option.some.inj hc) (by simpa using hop)
      running := nofun
      stopped := fun _ => ⟨e, rfl⟩
      detached := fun _ => .inl rfl
      listening := nofun }

theorem fail_flows {e} (h : s.Flows sent done attached) : (s.fail e).Flows sent done attached := by
  unfold fail
  split
  · exact h
  · exact finish_flows h nofun

theorem pump_flows (h : s.Flows sent done attached) : (s.pump posts).Flows sent done attached := by
  unfold pump
  split
  · exact h
  split
  · exact h
  dsimp only
  split
  · exact h
  split
  · exact { h with }
  · split
    · exact { h with }
    · split
      · exact { h with }
      · exact fail_flows { h with }

theorem flush_flows (h : s.Flows sent done attached) : s.flush.Flows sent done attached := by
  rcases flush_cases h.ring with he | ⟨hcl, ⟨hb, hdo, he⟩ | ⟨c, cs, hb, hri, hle, hbu, he⟩⟩
  · rwa [he]
  · rw [he]
    refine finish_flows h fun _ _ => ⟨?_, hdo⟩
    have := h.whole hcl
    rwa [hb, flatten_nil, append_nil] at this
  · have hse : s.enqueued ++ c ++ cs.flatten = sent := by
      have := h.whole hcl
      rwa [hb, flatten_cons, ← append_assoc] at this
    have hs₁ : (s.take c).Flows sent done attached :=
      { h with
        head_le := hle
        ring := hri
        whole := fun _ => by rw [hbu]; exact hse
        before := ⟨cs.flatten, hse⟩
        ended := fun he => absurd ((h.running hcl).symm.trans he) nofun }
    have hre := resize_flows hs₁
    rw [he]
    split
    · rename_i he
      rwa [he] at hre
    · rename_i he
      rw [he] at hre
      exact { hre with }

theorem onPull_flows (h : s.Flows sent done attached) : (s.onPull posts).Flows sent done attached := by
  unfold onPull
  split
  · exact h
  · have hfl : Flows (flush { s with pulling := true }) sent done attached := flush_flows { h with }
    dsimp only
    split
    · exact hfl
    · exact pump_flows hfl

/-! ## 通知 -/

theorem onMessage_ignored {m} (ha : s.attached = false) : s.onMessage m posts = s := by
  unfold onMessage
  rw [if_pos (by simp [ha])]

section

variable (h : s.Flows sent done attached) (ha : s.attached = true)

include h ha

theorem onMessage_chunk {c : Chunk} : (s.onMessage (.chunk c) posts).Flows (sent ++ c) done attached := by
  have hcl := h.listening ha
  unfold onMessage
  rw [if_neg (by simp [ha, hcl])]
  let s₁ : Receiver := { s with credit := false, chunks := s.chunks ++ [some c], bytes := s.bytes + c.length }
  have hri := h.ring.push (c := c) h.head_le
  have hbu : s₁.buffered = s.buffered ++ [c] := hri.filterMap
  have hs₁ : s₁.Flows (sent ++ c) done attached :=
    { h with
      head_le := by
        show s.head ≤ (s.chunks ++ [some c]).length
        rw [length_append]
        exact Nat.le_add_right_of_le h.head_le
      ring := by rw [hbu]; exact hri
      whole := fun _ => by
        rw [hbu, ← h.whole hcl]
        simp [s₁]
      before := h.before.trans (prefix_append _ _)
      ended := fun he => absurd ((h.running hcl).symm.trans he) nofun }
  have hre := resize_flows hs₁
  show Flows (match s₁.resize with
    | (s, false) => s
    | (s, true) => if s.flush.threw then s.flush else s.flush.pump posts) (sent ++ c) done attached
  split
  · rename_i he
    rwa [he] at hre
  · grind [flush_flows, pump_flows]

theorem onMessage_failed {error limit} (he : error.filter (· ≠ "") ≠ none) :
    (s.onMessage (.done error limit) posts).Flows sent done false := by
  have hcl := h.listening ha
  have hfa : ∀ e, Flows (fail { s with credit := false } e) sent done false := fun e => by
    have hf : Flows (fail { s with credit := false } e) sent done attached := fail_flows { h with }
    have hat : (fail { s with credit := false } e).attached = false := by
      simp [fail, finish, hcl, detachProducer]
    exact { hf with attached := fun ht => absurd (hat.symm.trans ht) nofun }
  unfold onMessage
  rw [if_neg (by simp [ha, hcl])]
  dsimp only
  split
  · exact hfa _
  · exact hfa _
  · rename_i hno
    exact absurd hno he

theorem onMessage_done {error} {limit : Option Nat} (he : error.filter (· ≠ "") = none) :
    (s.onMessage (.done error limit) posts).Flows sent true attached := by
  have hcl := h.listening ha
  unfold onMessage
  rw [if_neg (by simp [ha, hcl])]
  dsimp only
  rw [he]
  let s₁ : Receiver := { s with credit := false, producerDone := true }
  have hs₁ : s₁.Flows sent true attached :=
    { h with
      producerDone := rfl
      ended := fun hc => ⟨(h.ended hc).1, rfl⟩
      detached := fun _ => .inr rfl }
  have hre := resize_flows hs₁
  show Flows (match s₁.resize with
    | (s, false) => s
    | (s, true) => s.detachProducer.flush) sent true attached
  split
  · rename_i hs
    rwa [hs] at hre
  · rename_i hs
    rw [hs] at hre
    exact flush_flows { hre with
      attached := nofun
      detached := fun _ => .inr hre.producerDone
      listening := nofun }

end

/-! ## 通知の外の出来事 -/

theorem step_flows {e} (h : s.Flows sent done attached) (he : ∀ m posts, e ≠ .message m posts) : (s.step e).Flows sent done attached := by
  cases e with
  | message m posts => exact absurd rfl (he m posts)
  | transportClosed =>
    simp only [step, onTransportClosed]
    split
    · exact h
    · exact fail_flows h
  | pull posts => exact onPull_flows h
  | cancel =>
    simp only [step]
    split
    · exact h
    · exact finish_flows h nofun
  | abort | idleTimeout | fail => exact fail_flows h
  | bodyAvailable posts | responseAvailable posts =>
    simp only [step]
    split
    · split
      · exact pump_flows { h with }
      · exact { h with }
    · exact h
  | bodyCall call | responseCall call =>
    simp only [step]
    split
    · exact h
    · exact { h with }

theorem fresh_flows {readAheadBytes lease responseLease body response} :
    Flows { readAheadBytes, body, response, lease, responseLease } [] false true where
  producerDone := rfl
  attached := fun _ => rfl
  head_le := le_rfl
  ring := .empty
  whole := fun _ => rfl
  before := prefix_rfl
  ended := nofun
  running := fun _ => rfl
  stopped := nofun
  detached := nofun
  listening := fun _ => rfl

theorem receiveBufferedResponse_flows {readAheadBytes lease body response aborted} :
    (receiveBufferedResponse readAheadBytes body response lease aborted posts).Flows [] false true := by
  unfold receiveBufferedResponse
  dsimp only
  split
  · exact fail_flows fresh_flows
  · exact pump_flows fresh_flows

/-! ## 読み手の取り消し -/

theorem resize_ending : s.resize.1.ending = s.ending := by
  unfold resize
  dsimp only
  split <;> rfl

theorem fail_cancelled {e} (hc : (s.fail e).ending = some .cancelled) : s.ending = some .cancelled := by
  grind [fail, finish]

theorem pump_cancelled (hc : (s.pump posts).ending = some .cancelled) : s.ending = some .cancelled := by
  grind [pump, → fail_cancelled]

theorem flush_cancelled (hc : s.flush.ending = some .cancelled) : s.ending = some .cancelled := by
  grind [flush, finish, resize_ending]

theorem onMessage_cancelled {m} (hc : (s.onMessage m posts).ending = some .cancelled) : s.ending = some .cancelled := by
  grind [onMessage, detachProducer, resize_ending, → fail_cancelled, → flush_cancelled, → pump_cancelled]

/-- 流れを取り消すのは、読み手だけである。 -/
theorem step_cancelled {e} (hc : (s.step e).ending = some .cancelled) : s.ending = some .cancelled ∨ e = .cancel := by
  cases e with
  | cancel => exact .inr rfl
  | message m posts => exact .inl (onMessage_cancelled hc)
  | transportClosed => grind [step, onTransportClosed, → fail_cancelled]
  | pull posts => grind [step, onPull, → flush_cancelled, → pump_cancelled]
  | abort | idleTimeout | fail => exact .inl (fail_cancelled hc)
  | bodyAvailable posts | responseAvailable posts => grind [step, → pump_cancelled]
  | bodyCall call | responseCall call => grind [step]

theorem receiveBufferedResponse_uncancelled {readAheadBytes lease body response aborted} :
    (receiveBufferedResponse readAheadBytes body response lease aborted posts).ending ≠ some .cancelled := by
  grind [receiveBufferedResponse, → fail_cancelled, → pump_cancelled]

end Receiver

end Supacloud.BodyTransfer
