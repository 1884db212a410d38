import Supacloud.JitProxy.Pair

/-!
# 対のつながり
-/

namespace Supacloud.JitProxy

open Library Side Pair Socket Function List Bool

variable {p q : Pair} {side source : Side} {chunk : Chunk} {chunks : List Chunk} {results : List Int} {s : Socket}
  {f : Socket → Socket}

/-! ## 対の二つの側 -/

@[simp] theorem Side.other_other : side.other.other = side := by cases side <;> rfl

@[simp] theorem Side.other_ne : side.other ≠ side := by cases side <;> decide

@[simp] theorem Side.ne_other : side ≠ side.other := by cases side <;> decide

theorem Side.forall_iff {P : Side → Prop} (side) : (∀ x, P x) ↔ P side ∧ P side.other := by
  constructor
  · exact fun h => ⟨h side, h side.other⟩
  · rintro ⟨h, hot⟩ x
    cases side with
    | client =>
      cases x with
      | client => exact h
      | upstream => exact hot
    | upstream =>
      cases x with
      | client => exact hot
      | upstream => exact h

namespace Pair

@[simp] theorem modify_opened (f) : (p.modify side f).opened = p.opened := rfl

@[simp] theorem modify_self (f) : (p.modify side f).sockets side = f (p.sockets side) := by
  simp [modify]

@[simp] theorem modify_other (f) : (p.modify side f).sockets side.other = p.sockets side.other := by
  simp [modify]

@[simp] theorem modify_of_other (f) : (p.modify side.other f).sockets side = p.sockets side := by
  simp [modify]

theorem live_iff : p.live = true ↔ ∀ side, (p.sockets side).closed = false := by
  rw [forall_iff .client]
  simp [live, other]

theorem live_iff_side (side : Side) : p.live = true ↔ (p.sockets side).closed = false ∧ (p.sockets side.other).closed = false := by
  rw [live_iff, forall_iff side]

/-! ## 旗だけを動かす操作 -/

structure Flags (p q : Pair) : Prop where
  opened : q.opened = p.opened
  accepted : ∀ side, (q.sockets side).accepted = (p.sockets side).accepted
  received : ∀ side, (q.sockets side).received = (p.sockets side).received
  pending : ∀ side, (q.sockets side).pending = (p.sockets side).pending
  pendingBytes : ∀ side, (q.sockets side).pendingBytes = (p.sockets side).pendingBytes
  closed : ∀ side, (q.sockets side).closed = false → (p.sockets side).closed = false

theorem Flags.refl (p) : Flags p p :=
  ⟨rfl, fun _ => rfl, fun _ => rfl, fun _ => rfl, fun _ => rfl, fun _ h => h⟩

theorem Flags.trans {r} (h : Flags p q) (h' : Flags q r) : Flags p r where
  opened := h'.opened.trans h.opened
  accepted side := (h'.accepted side).trans (h.accepted side)
  received side := (h'.received side).trans (h.received side)
  pending side := (h'.pending side).trans (h.pending side)
  pendingBytes side := (h'.pendingBytes side).trans (h.pendingBytes side)
  closed side hc := h.closed side (h'.closed side hc)

theorem flags_modify (hf : ∀ s, (f s).accepted = s.accepted ∧ (f s).received = s.received ∧
    (f s).pending = s.pending ∧ (f s).pendingBytes = s.pendingBytes ∧ ((f s).closed = false → s.closed = false)) :
    Flags p (p.modify side f) := by
  obtain ⟨hac, hre, hpe, hbys, hcl⟩ := hf (p.sockets side)
  constructor
  case opened => rfl
  all_goals
    rw [forall_iff side]
    simp [hac, hre, hpe, hbys]
  exact hcl

theorem flags_closePair : Flags p (p.closePair side) := by
  rw [closePair]
  split
  · exact Flags.refl p
  · dsimp only
    have hfi : Flags p (p.modify side fun s => { s with closed := true, peer := false }) := flags_modify (by simp)
    split
    · exact hfi.trans (flags_modify (by simp))
    · exact hfi

theorem flags_resumeSource : Flags p (p.resumeSource side) := by
  rw [resumeSource]
  have hfi : Flags p (p.modify side fun s => { s with resumeOnDrain := false }) := flags_modify (by simp)
  split
  · exact hfi.trans (flags_modify (by simp))
  · exact hfi

theorem closePair_closed : ((p.closePair side).sockets side).closed = true := by
  rw [closePair]
  split
  · assumption
  · dsimp only
    split
    · simp
    · simp

/-! ## 相手とのつながり -/

structure Wired (p : Pair) : Prop where
  unlinked : p.opened = false → ∀ side, (p.sockets side).peer = false
  linked : p.opened = true → ∀ side, (p.sockets side).closed = false → (p.sockets side).peer = true

theorem wired_start : start.Wired := ⟨fun _ _ => rfl, fun h => by cases h⟩

theorem Wired.modify (h : p.Wired) (hf : (f (p.sockets side)).peer = (p.sockets side).peer)
    (hcl : (f (p.sockets side)).closed = (p.sockets side).closed) : (p.modify side f).Wired := by
  constructor
  · intro ho
    have hu := h.unlinked ho
    rw [forall_iff side] at hu ⊢
    simpa [hf] using hu
  · intro ho
    have hl := h.linked ho
    rw [forall_iff side] at hl ⊢
    simpa [hf, hcl] using hl

theorem Wired.closePair (h : p.Wired) : (p.closePair side).Wired := by
  rw [Pair.closePair]
  split
  · exact h
  · rename_i hop
    dsimp only
    rw [not_eq_true] at hop
    split
    · constructor
      · intro ho
        rw [forall_iff side]
        simp
      · intro ho
        rw [forall_iff side]
        simp
    · rename_i hpr
      constructor
      · intro ho
        have hu := h.unlinked ho
        rw [forall_iff side] at hu ⊢
        simpa using hu.2
      · intro ho
        have hl := h.linked ho side hop
        have hot : (p.sockets side.other).closed = true := by simpa [hl] using hpr
        rw [forall_iff side]
        simp [hot]

theorem Wired.resumeSource (h : p.Wired) : (p.resumeSource side).Wired := by
  rw [Pair.resumeSource]
  split
  · exact (h.modify rfl rfl).modify rfl rfl
  · exact h.modify rfl rfl

theorem write_links (written) : (s.write chunk written).peer = s.peer ∧ (s.write chunk written).closed = s.closed := by
  rw [write]
  dsimp only
  split
  · exact ⟨rfl, rfl⟩
  · exact ⟨rfl, rfl⟩

theorem flush_links : (s.flush chunks results).1.peer = s.peer ∧ (s.flush chunks results).1.closed = s.closed := by
  induction chunks generalizing s results with
  | nil => exact ⟨rfl, rfl⟩
  | cons chunk chunks ih =>
    rw [flush]
    dsimp only
    split
    · exact ⟨rfl, rfl⟩
    · exact ih

section

variable (h : p.Wired)

include h

theorem Wired.forward : (p.forward source chunk results).1.Wired := by
  rw [Pair.forward]
  split
  · exact h
  · have hwr : (p.modify source.other fun s => s.write chunk (writeResult results chunk)).Wired :=
      h.modify (write_links _).1 (write_links _).2
    have hpa : ((p.modify source.other fun s => s.write chunk (writeResult results chunk)).modify source
        fun s => { s with paused := true }).Wired := hwr.modify rfl rfl
    dsimp only
    split
    · split
      · exact hpa.closePair
      · exact hpa
    · exact hwr

theorem Wired.forwardAll : (p.forwardAll source chunks results).Wired := by
  induction chunks generalizing p results with
  | nil => exact h
  | cons chunk chunks ih => exact ih h.forward

theorem Wired.queueForPeer : (p.queueForPeer source chunk).Wired := by
  rw [Pair.queueForPeer]
  split
  · exact (h.modify rfl rfl).closePair
  · exact h.modify rfl rfl

theorem Wired.flushPending : (p.flushPending side results).Wired := by
  rw [Pair.flushPending]
  split
  · exact h.resumeSource
  · have hfl : (p.modify side fun _ => ((p.sockets side).flush (p.sockets side).pending results).1).Wired :=
      h.modify flush_links.1 flush_links.2
    dsimp only
    split
    · exact hfl.resumeSource
    · exact hfl

theorem Wired.onOpen : (p.onOpen results).Wired := by
  rw [Pair.onOpen]
  split
  · exact h
  · apply Wired.forwardAll
    constructor
    · intro ho
      cases ho
    · intro _
      rw [Side.forall_iff .client]
      simp [Pair.modify, Side.other]

theorem Wired.onData : (p.onData side chunk results).Wired := by
  have hre : (p.receive side chunk).Wired := h.modify rfl rfl
  cases side with
  | client =>
    rw [onData]
    split
    · exact hre.forward
    · exact hre.queueForPeer
  | upstream =>
    rw [onData]
    dsimp only
    split
    · split
      · exact hre.forward
      · exact hre
    · exact h

theorem Wired.step (e) : (step p e).Wired := by
  cases e with
  | data side chunk results => exact h.onData
  | upstreamOpen results => exact h.onOpen
  | drain side results => exact h.flushPending
  | close side => exact h.closePair

end

end Pair

/-!
## 中継されるバイトの列
-/

variable {written : Int} {owed : Side → List UInt8}

/-! ## 待っているバイトの数 -/

namespace Pair

theorem Flags.counted (h : Flags p q) (hp : p.Counted) : q.Counted := by
  intro side
  rw [h.pendingBytes, h.pending]
  exact hp side

theorem counted_start : start.Counted := fun _ => rfl

theorem Counted.modify (h : p.Counted)
    (hf : (f (p.sockets side)).pendingBytes = ((f (p.sockets side)).pending.map length).sum) : (p.modify side f).Counted := by
  rw [Counted, forall_iff side]
  simpa [hf] using h side.other

end Pair

theorem writeResult_le : writeResult results chunk ≤ chunk.length := by
  rw [writeResult]
  omega

theorem Socket.write_counted (h : s.pendingBytes = (s.pending.map length).sum) :
    (s.write chunk written).pendingBytes = ((s.write chunk written).pending.map length).sum := by
  rw [write]
  dsimp only
  split
  · simp [h]
  · exact h

theorem Socket.flush_counted (h : s.pendingBytes = (chunks.map length).sum) :
    (s.flush chunks results).1.pendingBytes = ((s.flush chunks results).1.pending.map length).sum := by
  induction chunks generalizing s results with
  | nil => exact h
  | cons chunk chunks ih => grind [flush]

namespace Pair

theorem Counted.forward (h : p.Counted) : (p.forward source chunk results).1.Counted := by
  rw [Pair.forward]
  split
  · exact h
  · have hwr : (p.modify source.other fun s => s.write chunk (writeResult results chunk)).Counted :=
      h.modify (write_counted (h source.other))
    have hpa : ((p.modify source.other fun s => s.write chunk (writeResult results chunk)).modify source
        fun s => { s with paused := true }).Counted := (flags_modify (by simp)).counted hwr
    dsimp only
    split
    · split
      · exact flags_closePair.counted hpa
      · exact hpa
    · exact hwr

theorem Counted.forwardAll (h : p.Counted) : (p.forwardAll source chunks results).Counted := by
  induction chunks generalizing p results with
  | nil => exact h
  | cons chunk chunks ih => exact ih h.forward

theorem Counted.queueForPeer (h : p.Counted) : (p.queueForPeer source chunk).Counted := by
  have hpu : (p.modify source fun s =>
      { s with pending := s.pending ++ [chunk], pendingBytes := s.pendingBytes + chunk.length }).Counted :=
    h.modify (by simp [h source])
  rw [Pair.queueForPeer]
  split
  · exact flags_closePair.counted hpu
  · exact hpu

theorem Counted.receive (h : p.Counted) : (p.receive side chunk).Counted := h.modify (h side)

theorem Counted.step (h : p.Counted) (e) : (step p e).Counted := by
  cases e with
  | data side chunk results =>
    cases side with
    | client =>
      simp only [JitProxy.step, onData]
      split
      · exact h.receive.forward
      · exact h.receive.queueForPeer
    | upstream =>
      simp only [JitProxy.step, onData]
      split
      · split
        · exact h.receive.forward
        · exact h.receive
      · exact h
  | upstreamOpen results =>
    simp only [JitProxy.step, onOpen]
    split
    · exact h
    · apply Counted.forwardAll
      have hli : (p.modify .upstream fun s => { s with peer := true }).Counted := h.modify (h .upstream)
      exact Counted.modify (f := fun s => { s with peer := true, pending := [], pendingBytes := 0 }) hli rfl
  | drain side results =>
    simp only [JitProxy.step, flushPending]
    split
    · exact flags_resumeSource.counted h
    · have hfl : (p.modify side fun _ => ((p.sockets side).flush (p.sockets side).pending results).1).Counted :=
        h.modify (flush_counted (h side))
      split
      · exact flags_resumeSource.counted hfl
      · exact hfl
  | close side => exact flags_closePair.counted h

end Pair

/-! ## 届いた順の書き込み -/

theorem Socket.write_stream (hco : s.pendingBytes = (s.pending.map length).sum) (htu : inTurn s.pendingBytes written)
    (hle : written ≤ chunk.length) :
    (s.write chunk written).accepted ++ (s.write chunk written).pending.flatten = s.accepted ++ s.pending.flatten ++ chunk := by
  have hem : s.pending.flatten = [] ∨ written ≤ 0 := by
    refine htu.imp_left fun hze => ?_
    rw [← length_eq_zero_iff, length_flatten]
    omega
  rw [write]
  dsimp only
  split
  · rcases hem with hem | hta
    · have htoN : (max 0 written).toNat = written.toNat := by omega
      simp [hem, htoN]
    · have hze : written.toNat = 0 := by omega
      have hmax : (max 0 written).toNat = 0 := by omega
      simp [hze, hmax]
  · have hall : chunk.take written.toNat = chunk := take_of_length_le (by omega)
    rcases hem with hem | hta
    · simp [hem, hall]
    · have hnil : chunk = [] := eq_nil_of_length_eq_zero (by omega)
      simp [hnil]

theorem Socket.write_received : (s.write chunk written).received = s.received := by
  rw [write]
  dsimp only
  split <;> rfl

theorem Socket.flush_received (s : Socket) (chunks results) : (s.flush chunks results).1.received = s.received := by
  induction chunks generalizing s results with
  | nil => rfl
  | cons chunk chunks ih =>
    rw [flush]
    dsimp only
    split
    · rfl
    · exact ih _ _

theorem Socket.flush_stream (s : Socket) (chunks results) :
    (s.flush chunks results).1.accepted ++ (s.flush chunks results).1.pending.flatten = s.accepted ++ chunks.flatten := by
  induction chunks generalizing s results with
  | nil => simp [flush]
  | cons chunk chunks ih =>
    have hle : writeResult results chunk ≤ chunk.length := writeResult_le
    rw [flush]
    dsimp only
    split
    · have htoN : (max 0 (writeResult results chunk)).toNat = (writeResult results chunk).toNat := by omega
      have hsp := take_append_drop (writeResult results chunk).toNat chunk
      simp only [htoN, flatten_cons, append_assoc]
      rw [← append_assoc (chunk.take _), hsp]
    · have hall : chunk.take (writeResult results chunk).toNat = chunk := take_of_length_le (by omega)
      rw [ih]
      simp [hall]

theorem Socket.flush_nothing (h : NothingTaken chunks results) : (s.flush chunks results).1.accepted = s.accepted := by
  induction chunks generalizing s results with
  | nil => rfl
  | cons chunk chunks ih =>
    have hze : (writeResult results chunk).toNat = 0 := by
      have := h.1
      omega
    rw [flush]
    dsimp only
    split
    · simp [hze]
    · rename_i hfu
      rw [ih (h.2 (by omega))]
      simp [hze]

/-! ## 列の不変条件 -/

namespace Pair

/-- 受け取られたバイトに待っているバイトの続く列は、届いたバイトの初めの部分であり、どちらも開いていれば、`owed`
まで合わせて全体である。 -/
structure Streams (p : Pair) (owed : Side → List UInt8) : Prop where
  delivered : p.Faithful
  waiting : p.opened = true → ∀ side, (p.sockets side).closed = false →
    (p.sockets side).accepted ++ (p.sockets side).pending.flatten <+: (p.sockets side.other).received
  whole : p.opened = true → p.live = true → ∀ side,
    (p.sockets side).accepted ++ (p.sockets side).pending.flatten ++ owed side = (p.sockets side.other).received
  early : p.opened = false → (∀ side, (p.sockets side).accepted = []) ∧ (p.sockets .upstream).pending = [] ∧
    (p.sockets .upstream).received = [] ∧ (p.sockets .client).pending.flatten = (p.sockets .client).received

def nothingOwed : Side → List UInt8 := fun _ => []

theorem streams_start : start.Streams nothingOwed where
  delivered _ := prefix_refl _
  waiting h := by cases h
  whole h := by cases h
  early _ := ⟨fun _ => rfl, rfl, rfl, rfl⟩

theorem Flags.live (h : Flags p q) (hq : q.live = true) : p.live = true := by
  rw [live_iff] at hq ⊢
  exact fun side => h.closed side (hq side)

theorem Flags.streams (h : Flags p q) (hp : p.Streams owed) : q.Streams owed where
  delivered side := by
    rw [h.accepted, h.received]
    exact hp.delivered side
  waiting ho side hc := by
    rw [h.accepted, h.received, h.pending]
    exact hp.waiting (h.opened ▸ ho) side (h.closed side hc)
  whole ho hl side := by
    rw [h.accepted, h.received, h.pending]
    exact hp.whole (h.opened ▸ ho) (h.live hl) side
  early ho := by
    simp only [h.accepted, h.received, h.pending]
    exact hp.early (h.opened ▸ ho)

theorem Streams.of_dead {owed'} (h : p.Streams owed) (hde : p.live = false) : p.Streams owed' where
  delivered := h.delivered
  waiting := h.waiting
  whole _ hl := by simp [hde] at hl
  early := h.early

theorem Streams.of_whole (ho : p.opened = true)
    (h : ∀ side, (p.sockets side).accepted ++ (p.sockets side).pending.flatten ++ owed side = (p.sockets side.other).received) :
    p.Streams owed where
  delivered side := by
    rw [← h side, append_assoc]
    exact prefix_append _ _
  waiting _ side _ := by
    rw [← h side]
    exact prefix_append _ _
  whole _ _ := h
  early he := by simp [ho] at he

theorem Streams.forward {rest} (h : p.Streams (update owed source.other (chunk ++ rest))) (hco : p.Counted)
    (ho : p.opened = true) (htu : p.live = true → inTurn (p.sockets source.other).pendingBytes (writeResult results chunk)) :
    (p.forward source chunk results).1.Streams (update owed source.other rest) := by
  rw [Pair.forward]
  split
  · rename_i hcl
    refine h.of_dead ?_
    rw [← not_eq_true, live_iff_side source]
    rw [or_eq_true] at hcl
    rintro ⟨hs, ht⟩
    simp [hs, ht] at hcl
  · rename_i hop
    have hlv : p.live = true := by
      rw [live_iff_side source]
      simpa using hop
    have hwh := h.whole ho hlv
    have hwr : (p.modify source.other fun s => s.write chunk (writeResult results chunk)).Streams
        (update owed source.other rest) := by
      refine Streams.of_whole ho ?_
      rw [forall_iff source] at hwh ⊢
      have hst := write_stream (hco source.other) (htu hlv) writeResult_le
      constructor
      · simpa [write_received] using hwh.1
      · grind [modify_self, modify_of_other, other_other]
    have hpa : ((p.modify source.other fun s => s.write chunk (writeResult results chunk)).modify source
        fun s => { s with paused := true }).Streams (update owed source.other rest) :=
      (flags_modify (by simp)).streams hwr
    dsimp only
    split
    · split
      · exact flags_closePair.streams hpa
      · exact hpa
    · exact hwr

theorem forward_opened : (p.forward source chunk results).1.opened = p.opened := by
  rw [forward]
  split
  · rfl
  · dsimp only
    split
    · split
      · exact flags_closePair.opened
      · rfl
    · rfl

theorem write_pendingBytes (hle : written ≤ chunk.length) :
    (s.write chunk written).pendingBytes = s.pendingBytes + (chunk.length - max 0 written) := by
  rw [write]
  dsimp only
  split
  · simp only [length_drop]
    omega
  · simp only
    omega

theorem forward_live (hl : (p.forward source chunk results).1.live = true) :
    p.live = true ∧ (p.forward source chunk results).2 = results.tail ∧
      ((p.forward source chunk results).1.sockets source.other).pendingBytes =
        (p.sockets source.other).pendingBytes + (chunk.length - max 0 (writeResult results chunk)) ∧
      ((p.sockets source.other).pendingBytes ≤ maxPendingBytes →
        ((p.forward source chunk results).1.sockets source.other).pendingBytes ≤ maxPendingBytes) := by
  have hle : writeResult results chunk ≤ chunk.length := writeResult_le
  have hbys := write_pendingBytes (s := p.sockets source.other) hle
  by_cases hop : ((p.sockets source).closed || (p.sockets source.other).closed) = true
  · rw [forward, if_pos hop, live_iff_side source] at hl
    rw [or_eq_true, hl.1, hl.2] at hop
    simp at hop
  · have hlv : p.live = true := by
      rw [live_iff_side source]
      simpa using hop
    rw [forward, if_neg hop] at hl ⊢
    dsimp only at hl ⊢
    refine ⟨hlv, ?_⟩
    split
    · grind [live_iff_side, closePair_closed, modify_other, modify_self]
    · rename_i hfu
      simp only [modify_self]
      exact ⟨trivial, hbys, fun _ => by omega⟩

theorem forwardAll_cons : p.forwardAll source (chunk :: chunks) results =
    (p.forward source chunk results).1.forwardAll source chunks (p.forward source chunk results).2 := rfl

theorem Streams.forwardAll (h : p.Streams (update nothingOwed source.other chunks.flatten)) (hco : p.Counted)
    (ho : p.opened = true) (htu : p.live = true → (p.sockets source.other).pendingBytes ≤ maxPendingBytes ∧
      AllInTurn (p.sockets source.other).pendingBytes chunks results) : (p.forwardAll source chunks results).Streams nothingOwed := by
  induction chunks generalizing p results with
  | nil =>
    rw [show update nothingOwed source.other (flatten []) = nothingOwed from update_eq_self _ _] at h
    exact h
  | cons chunk chunks ih =>
    rw [forwardAll_cons]
    refine ih (h.forward hco ho fun hl => (htu hl).2.1) hco.forward (forward_opened.trans ho) fun hl => ?_
    obtain ⟨hlv, hres, hbys, hlm⟩ := forward_live hl
    obtain ⟨hund, -, hrs⟩ := htu hlv
    have hun' := hlm hund
    rw [hres]
    refine ⟨hun', ?_⟩
    rw [hbys] at hun' ⊢
    exact hrs hun'

/-! ## 一歩 -/

theorem Streams.receive_dead (h : p.Streams owed) (ho : p.opened = true) (hde : p.live = false) :
    (p.receive side chunk).Streams owed where
  delivered x := by
    have hx := h.delivered
    rw [Faithful, forall_iff side, other_other] at hx
    revert x
    rw [forall_iff side]
    simp only [receive, modify_self, modify_other, other_other]
    exact ⟨hx.1, hx.2.trans (prefix_append _ _)⟩
  waiting _ x := by
    have hx := h.waiting ho
    rw [forall_iff side, other_other] at hx
    revert x
    rw [forall_iff side]
    simp only [receive, modify_self, modify_other, other_other]
    exact ⟨hx.1, fun hc => (hx.2 hc).trans (prefix_append _ _)⟩
  whole _ hl := by
    rw [live_iff_side side] at hl
    simp only [receive, modify_self, modify_other] at hl
    rw [← not_eq_true, live_iff_side side] at hde
    exact absurd hl hde
  early he := by
    rw [show (p.receive side chunk).opened = p.opened from rfl, ho] at he
    cases he

theorem receive_live : (p.receive side chunk).live = p.live := by
  have hiff : (p.receive side chunk).live = true ↔ p.live = true := by
    rw [live_iff_side side, live_iff_side side]
    simp [receive]
  cases hp : p.live with
  | false | true => simpa [hp] using hiff

theorem Streams.receive (h : p.Streams nothingOwed) (ho : p.opened = true) :
    (p.receive side chunk).Streams (Function.update nothingOwed side.other (chunk ++ [])) := by
  cases hlv : p.live with
  | false => exact (h.receive_dead ho hlv).of_dead (receive_live.trans hlv)
  | true =>
    refine Streams.of_whole ho ?_
    have hwh := h.whole ho hlv
    rw [Side.forall_iff side, Side.other_other] at hwh
    rw [Side.forall_iff side]
    simp only [Pair.receive, modify_self, modify_other, Side.other_other, Function.update_self, append_nil]
    constructor
    · simpa using hwh.1
    · rw [← hwh.2]
      simp [nothingOwed]

theorem Streams.queueForPeer (h : p.Streams nothingOwed) (ho : p.opened = false) :
    ((p.receive .client chunk).queueForPeer .client chunk).Streams nothingOwed := by
  obtain ⟨hac, hpe, hre, hqu⟩ := h.early ho
  have hpu : ((p.receive .client chunk).modify .client fun s =>
      { s with pending := s.pending ++ [chunk], pendingBytes := s.pendingBytes + chunk.length }).Streams nothingOwed := by
    constructor
    case delivered =>
      rw [Faithful, Side.forall_iff .client]
      simp [Pair.receive, Pair.modify, hac]
    case waiting => exact fun he => by simp [Pair.receive, ho] at he
    case whole => exact fun he => by simp [Pair.receive, ho] at he
    case early =>
      intro _
      rw [Side.forall_iff .client]
      simp [Pair.receive, Pair.modify, hac, hpe, hre, hqu]
  rw [Pair.queueForPeer]
  split
  · exact flags_closePair.streams hpu
  · exact hpu

theorem Streams.queueForPeer_closed (h : p.Streams owed) (ho : p.opened = true) (hcl : (p.sockets side).closed = true) :
    (p.queueForPeer side chunk).Streams owed := by
  have hpu : (p.modify side fun s =>
      { s with pending := s.pending ++ [chunk], pendingBytes := s.pendingBytes + chunk.length }).Streams owed := by
    constructor
    case delivered =>
      have hdl := h.delivered
      rw [Faithful, forall_iff side] at hdl ⊢
      simpa using hdl
    case waiting =>
      intro _
      have hwa := h.waiting ho
      rw [forall_iff side] at hwa ⊢
      simpa [hcl] using hwa.2
    case whole =>
      intro _ hl
      rw [live_iff_side side] at hl
      simp [hcl] at hl
    case early => exact fun he => by simp [ho] at he
  rw [Pair.queueForPeer]
  split
  · exact flags_closePair.streams hpu
  · exact hpu

section

variable (h : p.Streams nothingOwed)

include h

theorem Streams.flushPending (hea : p.opened = false → side = .client → (p.sockets .client).closed = false →
      NothingTaken (p.sockets .client).pending results) : (p.flushPending side results).Streams nothingOwed := by
  rw [Pair.flushPending]
  split
  · exact flags_resumeSource.streams h
  · rename_i hop
    rw [not_eq_true] at hop
    have hst := flush_stream (p.sockets side) (p.sockets side).pending results
    have hre := flush_received (p.sockets side) (p.sockets side).pending results
    have hfl : (p.modify side fun _ => ((p.sockets side).flush (p.sockets side).pending results).1).Streams nothingOwed := by
      cases ho : p.opened with
      | true =>
        have hwa := h.waiting ho
        constructor
        case delivered =>
          rw [Faithful, forall_iff side]
          simp only [modify_self, modify_other]
          have hsi := hwa side hop
          rw [← hst] at hsi
          have hot := h.delivered side.other
          rw [other_other] at hot ⊢
          exact ⟨(prefix_append _ _).trans hsi, by simpa [hre] using hot⟩
        case waiting =>
          intro _
          rw [forall_iff side] at hwa ⊢
          simpa [flush_links, hst, hre] using hwa
        case whole =>
          intro _ hl
          have hlv : p.live = true := by
            rw [live_iff_side side] at hl ⊢
            simpa [flush_links] using hl
          have hwh := h.whole ho hlv
          rw [forall_iff side] at hwh ⊢
          simpa [hst, hre] using hwh
        case early => exact fun he => by simp [ho] at he
      | false =>
        obtain ⟨hac, hpe, hno, hqu⟩ := h.early ho
        have hnt : ((p.sockets side).flush (p.sockets side).pending results).1.accepted = [] := by
          rw [← hac side]
          apply flush_nothing
          cases side with
          | client => exact hea ho rfl hop
          | upstream =>
            rw [hpe]
            trivial
        constructor
        case delivered =>
          rw [Faithful, forall_iff side]
          simp [hnt, hac]
        case waiting => exact fun he => by simp [ho] at he
        case whole => exact fun he => by simp [ho] at he
        case early =>
          intro _
          rw [hnt, hac, nil_append, nil_append] at hst
          refine ⟨?_, ?_⟩
          · rw [forall_iff side]
            simp [hnt, hac]
          · cases side with
            | client => simp_all [modify]
            | upstream => simp_all [modify, flush]
    dsimp only
    split
    · exact flags_resumeSource.streams hfl
    · exact hfl

theorem Streams.onData (hw : p.Wired) (hc : p.Counted)
    (htu : p.InTurn (.data side chunk results)) : (p.onData side chunk results).Streams nothingOwed := by
  have hfo : p.opened = true → ((p.receive side chunk).forward side chunk results).1.Streams nothingOwed := by
    intro ho
    have htu' : (p.receive side chunk).live = true →
        inTurn ((p.receive side chunk).sockets side.other).pendingBytes (writeResult results chunk) := by
      intro hl
      simpa [Pair.receive] using htu ho (receive_live ▸ hl)
    have hrc : (p.receive side chunk).Streams (update nothingOwed side.other (chunk ++ [])) := h.receive ho
    have hse := hrc.forward hc.receive ho htu'
    rwa [show update nothingOwed side.other [] = nothingOwed from update_eq_self _ _] at hse
  have hcl : p.opened = true → ((p.receive side chunk).sockets side).peer = false → (p.sockets side).closed = true := by
    intro ho hpr
    rw [← not_eq_false]
    intro hop
    have hli := hw.linked ho side hop
    simp [Pair.receive, hli] at hpr
  have hde : (p.sockets side).closed = true → p.live = false := by
    intro hsi
    rw [← not_eq_true, live_iff_side side]
    simp [hsi]
  cases side with
  | client =>
    simp only [onData]
    cases ho : p.opened with
    | true =>
      split
      · exact hfo ho
      · rename_i hpr
        rw [not_eq_true] at hpr
        have hsi := hcl ho hpr
        have hre : (p.receive .client chunk).Streams nothingOwed := h.receive_dead ho (hde hsi)
        exact hre.queueForPeer_closed ho (by simpa [Pair.receive] using hsi)
    | false =>
      have hpr := hw.unlinked ho .client
      split
      · rename_i hli
        simp [Pair.receive, hpr] at hli
      · exact h.queueForPeer ho
  | upstream => grind [h.receive_dead, onData]

theorem Streams.onOpen (hc : p.Counted) (htu : p.InTurn (.upstreamOpen results)) : (p.onOpen results).Streams nothingOwed := by
  rw [Pair.onOpen]
  split
  · exact h
  · rename_i hea
    rw [not_eq_true] at hea
    obtain ⟨hac, hpe, hno, hqu⟩ := h.early hea
    have hbys : (p.sockets .upstream).pendingBytes = 0 := by
      rw [hc .upstream, hpe]
      rfl
    apply Streams.forwardAll
    · refine Streams.of_whole rfl ?_
      rw [forall_iff .client]
      simp [modify, other, hac, hpe, hno, hqu, nothingOwed]
    · have hli : (p.modify .upstream fun s => { s with peer := true }).Counted := hc.modify (hc .upstream)
      exact Counted.modify (f := fun s => { s with peer := true, pending := [], pendingBytes := 0 }) hli rfl
    · rfl
    · intro hl
      have hlv : p.live = true := by
        simpa [live, modify] using hl
      have hse := htu hea hlv
      simpa [modify, other, hbys, maxPendingBytes] using hse

theorem Streams.step (hw : p.Wired) (hc : p.Counted) (e) (htu : p.InTurn e) : (step p e).Streams nothingOwed := by
  cases e with
  | data side chunk results => exact h.onData hw hc htu
  | upstreamOpen results => exact h.onOpen hc htu
  | drain side results =>
    apply h.flushPending
    intro ho hsi hop
    subst hsi
    exact htu ho hop
  | close side => exact flags_closePair.streams h

end

end Pair

end Supacloud.JitProxy
