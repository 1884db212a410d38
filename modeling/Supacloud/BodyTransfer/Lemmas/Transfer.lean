import Supacloud.BodyTransfer.Lemmas.Receiver

/-! # 送り手の流れ -/

namespace Supacloud.BodyTransfer

def BodyMessage.bytes : BodyMessage → Chunk
  | .chunk bytes => bytes
  | .done .. => []

def wireBytes (wire : List BodyMessage) : Chunk := wire.flatMap BodyMessage.bytes

def BodyMessage.isClean : BodyMessage → Bool
  | .chunk _ => false
  | .done error _ => (error.filter (· ≠ "")).isNone

def BodyMessage.isDone : BodyMessage → Bool
  | .chunk _ => false
  | .done .. => true

def Phase.active : Phase → Bool
  | .rejected => false
  | .stopped => false
  | _ => true

def Source.Within (source : Source) (limit : Option Nat) : Prop := ∀ l, limit = some l → source.chunks.flatten.length ≤ l

theorem AbortReason.message_ne (reason : AbortReason) : reason.message ≠ "" := by
  cases reason <;> decide

namespace Producer

variable {p : Producer} {source : Source} {sent : Chunk}

def rest (p : Producer) : Chunk :=
  match p.phase with
  | .probing probe => probe ++ p.remaining.flatten
  | .buffered buffer => buffer ++ p.remaining.flatten
  | _ => (p.current.getD []).drop p.offset ++ p.small.flatten ++ p.pending ++ p.remaining.flatten

structure Counts (source : Source) (p : Producer) : Prop where
  count : p.bytesRead + p.remaining.flatten.length = source.chunks.flatten.length
  bound : ∀ l, p.limit = some l → p.bytesRead ≤ l

structure Sends (source : Source) (p : Producer) (sent : Chunk) : Prop extends Counts source p where
  split : source.chunks.flatten = sent ++ p.rest
  probing : ∀ probe, p.phase = .probing probe → p.small = [] ∧ p.pending = [] ∧ p.current = none
  prepared : p.phase = .prepared → p.current = none
  reading : p.phase = .reading → p.unsent = none ∧ p.small = [] ∧ p.pending = []
  offset : ∀ c, p.current = some c → p.offset ≤ c.length

def took (p : Producer) (c : Chunk) (rest : List Chunk) : Producer :=
  { p with remaining := rest, bytesRead := p.bytesRead + c.length }

theorem read_cases (p : Producer) : (∃ reason, p.aborted = some reason ∧ p.read = (p, .failed reason.message none)) ∨
    (p.aborted = none ∧ p.cancelled = true ∧ p.read = (p, .done)) ∨
    (p.remaining = [] ∧ (p.read = (p, .done) ∨ ∃ message, p.read = (p, .failed message none))) ∨
    (∃ c rest l, p.remaining = c :: rest ∧ p.read = (p.took c rest, .failed (limitMessage l) (some l))) ∨
    ∃ c rest, p.remaining = c :: rest ∧ p.read = (p.took c rest, .value c) ∧ ∀ l, p.limit = some l → (p.took c rest).bytesRead ≤ l := by
  unfold read
  cases ha : p.aborted with
  | some reason => exact .inl ⟨reason, rfl, rfl⟩
  | none =>
    cases hc : p.cancelled with
    | true => exact .inr (.inl ⟨rfl, rfl, rfl⟩)
    | false =>
      cases hr : p.remaining with
      | nil => grind
      | cons c rest =>
        refine .inr (.inr (.inr ?_))
        cases hl : p.limit with
        | none =>
          refine .inr ⟨c, rest, rfl, ?_, nofun⟩
          simp [took, ← hl, ha, hc]
        | some l => grind [took]

theorem Counts.took {c rest} (h : Counts source p) (hr : p.remaining = c :: rest)
    (hb : ∀ l, p.limit = some l → (p.took c rest).bytesRead ≤ l) : Counts source (p.took c rest) where
  count := by
    have := h.count
    rw [hr, List.flatten_cons, List.length_append] at this
    simp only [Producer.took]
    omega
  bound := hb

/-! ## 一歩 -/

structure Advances (source : Source) (p : Producer) (sent : Chunk) (r : Producer × List BodyMessage) : Prop where
  limit : r.1.limit = p.limit
  cancelled : r.1.cancelled = p.cancelled
  aborted : r.1.aborted = p.aborted
  outcome : (r.1.phase.running = true ∧ (∀ m ∈ r.2, m.isDone = false) ∧ Sends source r.1 (sent ++ wireBytes r.2)) ∨
    (r.1.phase = .stopped ∧ ∃ e l, r.2 = [.done e l] ∧ ((BodyMessage.done e l).isClean = true →
      (p.aborted = none ∧ p.cancelled = true) ∨ (sent = source.chunks.flatten ∧ source.Within p.limit)))

theorem fail_dirty {message limit} (hm : message ≠ "") :
    (BodyMessage.done (some (String.ofList (message.toList.take 4096))) limit).isClean = false := by
  have hne : String.ofList (message.toList.take 4096) ≠ "" := by
    simpa using hm
  simp [BodyMessage.isClean, hne]

theorem limitMessage_ne (l) : limitMessage l ≠ "" := by
  have hne : ∀ a, a ++ " bytes" ≠ "" := fun a h => by
    have hb := (String.append_eq_empty_iff.mp h).2
    revert hb
    decide
  exact hne _

theorem awaitCredit_running (p : Producer) : p.awaitCredit.phase.running = true := by
  unfold awaitCredit
  dsimp only
  split <;> rfl

theorem rest_of_running (h : p.phase.running = true) :
    p.rest = (p.current.getD []).drop p.offset ++ p.small.flatten ++ p.pending ++ p.remaining.flatten := by
  unfold rest
  split <;> simp_all [Phase.running]

theorem take_append_drop_take {α : Type} (l : List α) (n) : l.take n ++ l.drop (l.take n).length = l := by
  rw [List.length_take]
  rcases Nat.le_total n l.length with h | h
  · rw [Nat.min_eq_left h, List.take_append_drop]
  · rw [Nat.min_eq_right h, List.take_of_length_le h, List.drop_length, List.append_nil]

theorem sendFrom_sends {current : Chunk} {offset} (hc : Counts source p) (ho : offset ≤ current.length)
    (hs : source.chunks.flatten = sent ++ (current.drop offset ++ p.small.flatten ++ p.pending ++ p.remaining.flatten)) :
    Sends source (p.sendFrom current offset).1 (sent ++ wireBytes (p.sendFrom current offset).2) := by
  have hrun : (p.sendFrom current offset).1.phase.running = true := awaitCredit_running _
  have hsp := take_append_drop_take (current.drop offset) bodyChunkBytes
  rw [List.drop_drop] at hsp
  exact {
    count := hc.count
    bound := hc.bound
    split := by
      rw [rest_of_running hrun, hs, ← hsp]
      simp [sendFrom, awaitCredit, wireBytes, BodyMessage.bytes]
    probing := fun probe hp => absurd (hp ▸ hrun) nofun
    prepared := fun hp => absurd (hp ▸ hrun) nofun
    reading := fun hp => by
      simp only [sendFrom, awaitCredit] at hp
      split at hp <;> cases hp
    offset := fun c hc => by
      cases hc
      simp only [sendFrom, awaitCredit, List.length_take, List.length_drop]
      omega }

theorem sendFrom_advances {current offset} (hc : Counts source p) (ho : offset ≤ current.length)
    (hs : source.chunks.flatten = sent ++ (current.drop offset ++ p.small.flatten ++ p.pending ++ p.remaining.flatten)) :
    Advances source p sent (p.sendFrom current offset) where
  limit := rfl
  cancelled := rfl
  aborted := rfl
  outcome := .inl ⟨awaitCredit_running _, fun m hm => by rw [List.mem_singleton.mp hm]; rfl, sendFrom_sends hc ho hs⟩

theorem fail_advances {message limit} (hm : message = "" → sent = source.chunks.flatten ∧ source.Within p.limit) :
    Advances source p sent (p.fail message limit) where
  limit := rfl
  cancelled := rfl
  aborted := rfl
  outcome := by
    refine .inr ⟨rfl, _, limit, rfl, fun hcl => .inr (hm ?_)⟩
    by_contra hne
    exact absurd ((fail_dirty hne).symm.trans hcl) nofun

theorem Advances.of_same {q r} (h : Advances source q sent r) (hl : q.limit = p.limit)
    (hc : q.cancelled = p.cancelled) (ha : q.aborted = p.aborted) : Advances source p sent r where
  limit := h.limit.trans hl
  cancelled := h.cancelled.trans hc
  aborted := h.aborted.trans ha
  outcome := by
    rw [← hl, ← hc, ← ha]
    exact h.outcome

theorem unsent_spec : (∀ c, p.unsent = some c → p.current = some c) ∧ (p.unsent = none → (p.current.getD []).drop p.offset = []) := by
  unfold unsent
  cases hc : p.current with
  | none => exact ⟨nofun, fun _ => by simp⟩
  | some c => grind

theorem sendNext_advances (h : Sends source p sent) (hr : p.phase = .ready) : Advances source p sent p.sendNext := by
  have hsp := h.split
  rw [rest_of_running (by rw [hr]; rfl)] at hsp
  unfold sendNext
  cases hu : p.unsent with
  | some c =>
    have hc := unsent_spec.1 c hu
    rw [hc] at hsp
    exact sendFrom_advances h.toCounts (h.offset c hc) hsp
  | none =>
    have hem := unsent_spec.2 hu
    rw [hem] at hsp
    cases hsm : p.small with
    | cons c rest =>
      have hcos : Counts source { p with small := rest } := { h.toCounts with }
      refine (sendFrom_advances hcos (Nat.zero_le _) ?_).of_same rfl rfl rfl
      simpa [hsm] using hsp
    | nil =>
      rw [hsm] at hsp
      dsimp only
      split
      · rename_i hp
        have hp : p.pending = [] := by simpa using hp
        exact {
          limit := rfl
          cancelled := rfl
          aborted := rfl
          outcome := .inl ⟨rfl, nofun, {
            count := h.count
            bound := h.bound
            split := by
              rw [rest_of_running rfl]
              simpa [wireBytes, hem] using hsp
            probing := nofun
            prepared := nofun
            reading := fun _ => ⟨hu, rfl, hp⟩
            offset := h.offset }⟩ }
      · have hcos : Counts source { p with small := [], pending := [] } := { h.toCounts with }
        refine (sendFrom_advances hcos (Nat.zero_le _) ?_).of_same rfl rfl rfl
        simpa using hsp

theorem produce_advances (h : Sends source p sent) (hr : p.phase = .ready) : Advances source p sent p.produce := by
  unfold produce
  dsimp only
  split
  · rename_i reason _
    exact (fail_advances fun hm => absurd hm reason.message_ne).of_same rfl rfl rfl
  · split
    · exact (fail_advances fun hm => absurd hm (by decide)).of_same rfl rfl rfl
    · have h₁ : Sends source { p with available := false } sent := { h with split := h.split }
      exact (sendNext_advances h₁ hr).of_same rfl rfl rfl

theorem readStep_advances (h : Sends source p sent) (hr : p.phase = .reading) : Advances source p sent p.readStep := by
  have hsp := h.split
  obtain ⟨hu, hsm, hp⟩ := h.reading hr
  rw [rest_of_running (by rw [hr]; rfl), unsent_spec.2 hu, hsm, hp] at hsp
  -- 元の流れを読み終えたときは、すべて送り終えている
  have hall : p.remaining = [] → sent = source.chunks.flatten ∧ source.Within p.limit := fun he => by
    refine ⟨by simpa [he] using hsp.symm, fun l hl => ?_⟩
    rw [← h.count, he]
    simpa using h.bound l hl
  unfold readStep
  rcases p.read_cases with ⟨reason, ha, he⟩ | ⟨ha, hc, he⟩ | ⟨hrem, he | ⟨message, he⟩⟩ | ⟨c, rest, l, hrem, he⟩ |
    ⟨c, rest, hrem, he, hb⟩
  · rw [he]
    exact fail_advances fun hm => absurd hm reason.message_ne
  · rw [he]
    exact { limit := rfl, cancelled := rfl, aborted := rfl, outcome := .inr ⟨rfl, none, none, rfl, fun _ => .inl ⟨ha, hc⟩⟩ }
  · rw [he]
    exact { limit := rfl, cancelled := rfl, aborted := rfl, outcome := .inr ⟨rfl, none, none, rfl, fun _ => .inr (hall hrem)⟩ }
  · rw [he]
    exact fail_advances fun _ => hall hrem
  · rw [he]
    exact (fail_advances fun hm => absurd hm (limitMessage_ne l)).of_same rfl rfl rfl
  · rw [he]
    have hcos : Counts source (p.took c rest) := h.toCounts.took hrem hb
    dsimp only
    split
    · rename_i hem
      have hem : c = [] := by simpa using hem
      exact {
        limit := rfl
        cancelled := rfl
        aborted := rfl
        outcome := .inl ⟨by rw [took, hr]; rfl, nofun, { h with
          count := hcos.count
          bound := hcos.bound
          split := by
            rw [rest_of_running (by rw [took, hr]; rfl)]
            simp only [took, unsent_spec.2 hu, hsm, hp]
            simpa [wireBytes, hrem, hem] using hsp }⟩ }
    · refine (sendFrom_advances hcos (Nat.zero_le _) ?_).of_same rfl rfl rfl
      simp only [took, hsm, hp]
      simpa [hrem] using hsp

structure Probes (source : Source) (p : Producer) (sent : Chunk) (q : Producer) : Prop where
  limit : q.limit = p.limit
  cancelled : q.cancelled = p.cancelled
  aborted : q.aborted = p.aborted
  idle : q.phase.running = false
  silent : q.phase ≠ .stopped
  sends : q.phase ≠ .rejected → Sends source q sent

theorem probeStep_probes {probe} (h : Sends source p sent) (hr : p.phase = .probing probe) :
    Probes source p sent (p.probeStep probe) := by
  obtain ⟨hsm, hp, hcur⟩ := h.probing probe hr
  have hsp : source.chunks.flatten = sent ++ (probe ++ p.remaining.flatten) := by
    have := h.split
    rwa [rest, hr] at this
  have hend : Probes source p sent { p with phase := .buffered probe } :=
    { limit := rfl, cancelled := rfl, aborted := rfl, idle := rfl, silent := nofun, sends := fun _ => { h with
      split := hsp, probing := nofun, prepared := nofun, reading := nofun } }
  have hre : ∀ q : Producer, q.limit = p.limit → q.cancelled = p.cancelled → q.aborted = p.aborted →
      Probes source p sent { q with phase := .rejected } := fun q hl hc ha =>
    { limit := hl, cancelled := hc, aborted := ha, idle := rfl, silent := nofun, sends := fun hne => absurd rfl hne }
  unfold probeStep
  rcases p.read_cases with ⟨reason, -, he⟩ | ⟨-, -, he⟩ | ⟨-, he | ⟨message, he⟩⟩ | ⟨c, rest, l, -, he⟩ |
    ⟨c, rest, hrem, he, hb⟩
  · rw [he]
    exact hre p rfl rfl rfl
  · rw [he]
    exact hend
  · rw [he]
    exact hend
  · rw [he]
    exact hre p rfl rfl rfl
  · rw [he]
    exact hre _ rfl rfl rfl
  · rw [he]
    have hcos : Counts source (p.took c rest) := h.toCounts.took hrem hb
    dsimp only
    split
    · exact { limit := rfl, cancelled := rfl, aborted := rfl, idle := rfl, silent := nofun, sends := fun _ => {
        count := hcos.count
        bound := hcos.bound
        split := by
          have hpr : (if probe.isEmpty then [] else [probe]).flatten = probe := by
            cases probe <;> simp
          simp only [Producer.rest, took, hcur, Option.getD_none, List.drop_nil, List.nil_append, hpr, hsp, hrem,
            List.flatten_cons, List.append_assoc]
        probing := nofun
        prepared := fun _ => hcur
        reading := nofun
        offset := h.offset } }
    · exact { limit := rfl, cancelled := rfl, aborted := rfl, idle := rfl, silent := nofun, sends := fun _ => {
        count := hcos.count
        bound := hcos.bound
        split := by
          simp [Producer.rest, took, hsp, hrem]
        probing := fun _ _ => ⟨hsm, hp, hcur⟩
        prepared := nofun
        reading := nofun
        offset := h.offset } }

end Producer

/-! ## 送り手から読み手まで -/

open Producer Receiver List

variable {wire : List BodyMessage}

namespace Transfer

variable {source : Source} {t : Transfer} {sent out : Chunk}

def Wired (wire : List BodyMessage) (phase : Phase) : Prop :=
  ∃ (cs : List Chunk) (fin : List BodyMessage), wire = cs.map BodyMessage.chunk ++ fin ∧ (fin = [] ∨ ∃ e l, fin = [.done e l] ∧ phase = .stopped)

structure Flow (source : Source) (limit : Option Nat) (t : Transfer) (sent out : Chunk) : Prop where
  limit_eq : t.producer.limit = limit
  flows : t.receiver.Flows sent t.receiver.producerDone t.receiver.attached
  sends : t.producer.phase.active = true → Sends source t.producer out
  out_before : out <+: source.chunks.flatten
  sent_before : sent <+: out
  wired : t.receiver.attached = true → out = sent ++ wireBytes t.wire
  shape : Wired t.wire t.producer.phase
  clean : t.receiver.attached = true → ∀ m ∈ t.wire, m.isClean = true → out = source.chunks.flatten ∧ source.Within limit
  done : t.receiver.producerDone = true → sent = source.chunks.flatten ∧ source.Within limit
  stopped : t.producer.phase = .stopped → (∃ m ∈ t.wire, m.isDone = true) ∨ t.receiver.attached = false ∨ t.receiver.producerDone = true
  cancelled : t.producer.cancelled = true → t.producer.aborted ≠ none ∨ (t.opened = true ∧ t.receiver.attached = false)
  unopened : t.opened = false → t.receiver.attached = true ∧ t.receiver.producerDone = false ∧ sent = []

def Faithful (source : Source) (limit : Option Nat) (t : Transfer) : Prop := ∃ sent out, Flow source limit t sent out

variable {phase : Phase}

/-! ## 通知の並び -/

theorem Wired.of_active {phase'} (h : Wired wire phase) (hp : phase ≠ .stopped) : Wired wire phase' := by
  obtain ⟨cs, fin, rfl, rfl | ⟨e, l, -, hs⟩⟩ := h
  · exact ⟨cs, [], rfl, .inl rfl⟩
  · exact absurd hs hp

theorem Wired.tail {m} (h : Wired (m :: wire) phase) : Wired wire phase := by
  obtain ⟨cs, fin, he, hfin⟩ := h
  cases cs with
  | nil =>
    rcases hfin with rfl | ⟨e, l, rfl, hs⟩
    · cases he
    · cases he
      exact ⟨[], [], rfl, .inl rfl⟩
  | cons c cs =>
    cases he
    exact ⟨cs, fin, rfl, hfin⟩

theorem Wired.done_last {e l} (h : Wired (.done e l :: wire) phase) : wire = [] := by
  obtain ⟨cs, fin, he, hfin⟩ := h
  cases cs with
  | nil =>
    rcases hfin with rfl | ⟨e, l, rfl, hs⟩
    · cases he
    · cases he
      rfl
  | cons c cs => cases he

theorem Wired.post_chunks {msgs phase'} (h : Wired wire phase) (hp : phase ≠ .stopped)
    (hm : ∀ m ∈ msgs, m.isDone = false) : Wired (wire ++ msgs) phase' := by
  obtain ⟨cs, fin, rfl, rfl | ⟨e, l, -, hs⟩⟩ := h
  · obtain ⟨ds, rfl⟩ : ∃ ds : List Chunk, msgs = ds.map BodyMessage.chunk := by
      induction msgs with
      | nil => exact ⟨[], rfl⟩
      | cons m msgs ih =>
        obtain ⟨ds, rfl⟩ := ih fun x hx => hm x (mem_cons_of_mem _ hx)
        cases m with
        | chunk c => exact ⟨c :: ds, rfl⟩
        | done e l => exact absurd (hm _ mem_cons_self) nofun
    exact ⟨cs ++ ds, [], by simp, .inl rfl⟩
  · exact absurd hs hp

theorem Wired.post_done {e l} (h : Wired wire phase) (hp : phase ≠ .stopped) : Wired (wire ++ [.done e l]) .stopped := by
  obtain ⟨cs, fin, rfl, rfl | ⟨e, l, -, hs⟩⟩ := h
  · exact ⟨cs, [.done e l], by simp, .inr ⟨e, l, rfl, rfl⟩⟩
  · exact absurd hs hp

theorem wireBytes_append {a b} : wireBytes (a ++ b) = wireBytes a ++ wireBytes b := by
  simp [wireBytes]

theorem active_of_running (h : phase.running = true) : phase.active = true := by
  cases phase <;> first | rfl | cases h

theorem ne_stopped_of_running (h : phase.running = true) : phase ≠ .stopped := by
  rintro rfl
  cases h

/-! ## 送り手の一歩 -/

variable {limit : Option Nat}

theorem Flow.quiet {p} (h : Flow source limit t sent out) (hl : p.limit = t.producer.limit)
    (hs : p.phase.active = true → Sends source p out) (hold : t.producer.phase ≠ .stopped) (hnew : p.phase ≠ .stopped)
    (hc : p.cancelled = true → p.aborted ≠ none ∨ (t.opened = true ∧ t.receiver.attached = false)) :
    Flow source limit { t with producer := p } sent out :=
  { h with
    limit_eq := hl.trans h.limit_eq
    sends := hs
    shape := h.shape.of_active hold
    stopped := fun hp => absurd hp hnew
    cancelled := hc }

theorem Flow.post {r} (h : Flow source limit t sent out) (hr : t.producer.phase.running = true)
    (ha : Advances source t.producer out r) : Faithful source limit (t.post r) := by
  have hold := ne_stopped_of_running hr
  have hca : r.1.cancelled = true → r.1.aborted ≠ none ∨ (t.opened = true ∧ t.receiver.attached = false) := by
    rw [ha.cancelled, ha.aborted]
    exact h.cancelled
  have hpo : t.receiver.attached = true → t.portOpen = true := fun hat => by simp [portOpen, hat]
  obtain ⟨p, msgs⟩ := r
  rcases ha.outcome with ⟨hrun, hm, hses⟩ | ⟨hst, e, l, rfl, hcl⟩
  · have hnd : ∀ m ∈ msgs, m.isClean = false := fun m hmem => by
      have := hm m hmem
      cases m with
      | chunk c => rfl
      | done e l => cases this
    refine ⟨sent, out ++ wireBytes msgs, { h with
      limit_eq := ha.limit.trans h.limit_eq
      sends := fun _ => hses
      out_before := ⟨_, hses.split.symm⟩
      sent_before := h.sent_before.trans (prefix_append _ _)
      wired := fun hat => ?_
      shape := ?_
      clean := fun hat m hmem hc => ?_
      stopped := fun hp => absurd hp (ne_stopped_of_running hrun)
      cancelled := hca }⟩
    · rw [h.wired hat]
      simp only [Transfer.post, hpo hat, if_true, wireBytes_append, append_assoc]
    · refine h.shape.post_chunks hold fun m hmem => ?_
      split at hmem
      · exact hm m hmem
      · cases hmem
    · simp only [Transfer.post, hpo hat, if_true, mem_append] at hmem
      rcases hmem with hmem | hmem
      · -- 送る途中の送り手が、失敗でない終わりを知らせたことはない
        obtain ⟨cs, fin, hw, rfl | ⟨e, l, -, hs⟩⟩ := h.shape
        · rw [hw, append_nil, mem_map] at hmem
          obtain ⟨c, -, rfl⟩ := hmem
          cases hc
        · exact absurd hs hold
      · exact absurd ((hnd m hmem).symm.trans hc) nofun
  · have hsh : Wired (t.wire ++ if t.portOpen then [.done e l] else []) p.phase := by
      rw [show p.phase = .stopped from hst]
      split
      · exact h.shape.post_done hold
      · rw [append_nil]
        exact h.shape.of_active hold
    refine ⟨sent, out, { h with
      limit_eq := ha.limit.trans h.limit_eq
      sends := fun hact => by
        rw [show (t.post (p, [.done e l])).producer.phase = .stopped from hst] at hact
        cases hact
      wired := fun hat => ?_
      shape := hsh
      clean := fun hat m hmem hc => ?_
      stopped := fun _ => ?_
      cancelled := hca }⟩
    · rw [h.wired hat]
      simp [Transfer.post, wireBytes, BodyMessage.bytes]
    · simp only [Transfer.post, hpo hat, if_true, mem_append, mem_singleton] at hmem
      rcases hmem with hmem | rfl
      · exact h.clean hat m hmem hc
      · rcases hcl hc with ⟨hno, hcan⟩ | hall
        · rcases h.cancelled hcan with hne | ⟨-, hde⟩
          · exact absurd hno hne
          · exact absurd (hde.symm.trans hat) nofun
        · exact h.limit_eq ▸ hall
    · cases hat : t.receiver.attached with
      | false => exact .inr (.inl hat)
      | true => exact .inl ⟨.done e l, by simp [Transfer.post, hpo hat], rfl⟩

/-! ## 送り手の待ち -/

theorem awaitCredit_sends {p : Producer} (h : Sends source p out) (hp : p.phase = .prepared) : Sends source p.awaitCredit out := by
  have hrs : p.rest = p.awaitCredit.rest := by
    rw [rest_of_running p.awaitCredit_running, rest, hp]
    rfl
  exact { h with
    split := hrs ▸ h.split
    probing := fun probe he => absurd (he ▸ p.awaitCredit_running) nofun
    prepared := fun he => absurd (he ▸ p.awaitCredit_running) nofun
    reading := fun he => by
      simp only [awaitCredit] at he
      split at he <;> cases he }

theorem wake_running {p : Producer} (h : p.phase.running = true) : p.wake.phase.running = true := by
  unfold wake
  split
  · rfl
  · exact h

theorem wake_sends {p} (h : Sends source p out) (hr : p.phase.running = true) : Sends source p.wake out := by
  have hrs : p.rest = p.wake.rest := by
    rw [rest_of_running hr, rest_of_running (wake_running hr)]
    unfold wake
    split <;> rfl
  unfold wake at hrs ⊢
  split at hrs
  · rename_i hp
    rw [if_pos hp]
    exact { h with
      split := hrs ▸ h.split
      probing := nofun
      prepared := nofun
      reading := nofun }
  · rename_i hp
    rw [if_neg hp]
    exact { h with split := hrs ▸ h.split }

section

variable (h : Flow source limit t sent out)

include h

theorem Flow.wake (hr : t.producer.phase.running = true) : Flow source limit { t with producer := t.producer.wake } sent out := by
  have hc : t.producer.wake.cancelled = t.producer.cancelled ∧ t.producer.wake.aborted = t.producer.aborted ∧
      t.producer.wake.limit = t.producer.limit := by
    unfold Producer.wake
    split <;> exact ⟨rfl, rfl, rfl⟩
  refine h.quiet hc.2.2 (fun _ => wake_sends (h.sends (active_of_running hr)) hr) (ne_stopped_of_running hr)
    (ne_stopped_of_running (wake_running hr)) ?_
  rw [hc.1, hc.2.1]
  exact h.cancelled

theorem Flow.cancelProducer (hr : t.producer.phase.running = true)
    (hc : t.producer.aborted ≠ none ∨ (t.opened = true ∧ t.receiver.attached = false)) : Flow source limit t.cancelProducer sent out := by
  have hs := h.sends (active_of_running hr)
  have h1 : Flow source limit { t with producer := { t.producer with cancelled := true } } sent out :=
    h.quiet rfl (fun _ => { hs with split := hs.split }) (ne_stopped_of_running hr) (ne_stopped_of_running hr) fun _ => hc
  exact h1.wake hr

/-! ## 受け手の一歩 -/

theorem Flow.receiver {r} (ho : t.opened = true)
    (hf : r.Flows sent t.receiver.producerDone t.receiver.attached) : Flow source limit { t with receiver := r } sent out :=
  { h with
    flows := { hf with producerDone := rfl, attached := id }
    wired := fun ha => h.wired (hf.attached ha)
    clean := fun ha => h.clean (hf.attached ha)
    done := fun hd => h.done (hf.producerDone ▸ hd)
    stopped := fun hp => by
      rcases h.stopped hp with hm | ha | hd
      · exact .inl hm
      · grind [hf.attached]
      · exact .inr (.inr (hf.producerDone.trans hd))
    cancelled := fun hc => (h.cancelled hc).imp_right fun ⟨_, ha⟩ => ⟨ho, by
      by_contra hne
      exact absurd (ha.symm.trans (hf.attached (by simpa using hne))) nofun⟩
    unopened := fun hn => absurd (ho.symm.trans hn) nofun }

theorem Flow.receive {aborted posts} (ho : t.opened = false) : Flow source limit { t with
      opened := true
      receiver := .receiveBufferedResponse t.receiver.readAheadBytes t.receiver.body t.receiver.response t.receiver.lease
        aborted posts } sent out := by
  obtain ⟨ha, hd, rfl⟩ := h.unopened ho
  have hf : Flows (.receiveBufferedResponse t.receiver.readAheadBytes t.receiver.body t.receiver.response t.receiver.lease
      aborted posts) [] t.receiver.producerDone t.receiver.attached := by
    rw [ha, hd]
    exact receiveBufferedResponse_flows
  have hc : t.producer.cancelled = true → t.producer.aborted ≠ none := fun hc =>
    (h.cancelled hc).resolve_right fun hn => absurd (ho.symm.trans hn.1) nofun
  have h1 : Flow source limit { t with opened := true } [] out :=
    { h with cancelled := fun hn => .inl (hc hn), unopened := nofun }
  exact h1.receiver rfl hf

theorem Flow.deliver {m posts} (ho : t.opened = true) (hw : t.wire = m :: wire) :
    Faithful source limit { t with wire, receiver := t.receiver.onMessage m posts } := by
  have hsh : Wired wire t.producer.phase := (hw ▸ h.shape).tail
  cases ha : t.receiver.attached with
  | false =>
    -- 通信路を離れた受け手は、通知を読み捨てる
    rw [onMessage_ignored ha]
    exact ⟨sent, out, { h with
      wired := fun hat => absurd (ha.symm.trans hat) nofun
      shape := hsh
      clean := fun hat => absurd (ha.symm.trans hat) nofun
      stopped := fun _ => .inr (.inl ha) }⟩
  | true =>
    have hout := h.wired ha
    have hsub : ∀ x ∈ wire, x ∈ t.wire := fun x hx => hw ▸ mem_cons_of_mem _ hx
    have hdt : ∀ {r : Receiver} {done attached}, r.Flows sent done attached → attached = false → r.attached = false :=
      fun hf he => by
        by_contra hne
        exact absurd (he.symm.trans (hf.attached (by simpa using hne))) nofun
    cases m with
    | chunk c =>
      rw [hw] at hout
      have hou' : out = sent ++ c ++ wireBytes wire := by simpa [wireBytes, BodyMessage.bytes] using hout
      have hf : Flows (t.receiver.onMessage (.chunk c) posts) (sent ++ c) t.receiver.producerDone t.receiver.attached :=
        onMessage_chunk h.flows ha
      refine ⟨sent ++ c, out, { h with
        flows := { hf with producerDone := rfl, attached := id }
        sent_before := ⟨wireBytes wire, hou'.symm⟩
        wired := fun _ => hou'
        shape := hsh
        clean := fun _ x hx => h.clean ha x (hsub x hx)
        done := fun hd => ?_
        stopped := fun hp => ?_
        cancelled := fun hc => (h.cancelled hc).imp_right fun ⟨_, hat⟩ => absurd (hat.symm.trans ha) nofun
        unopened := fun hn => absurd (ho.symm.trans hn) nofun }⟩
      · obtain ⟨hall, hwi⟩ := h.done (hf.producerDone ▸ hd)
        refine ⟨?_, hwi⟩
        have hle : sent ++ c <+: sent := by grind [h.out_before]
        rw [← hall]
        exact hle.eq_of_length_le (by simp)
      · rcases h.stopped hp with ⟨x, hx, hd⟩ | hat | hd
        · rw [hw, mem_cons] at hx
          rcases hx with rfl | hx
          · cases hd
          · exact .inl ⟨x, hx, hd⟩
        · exact absurd (hat.symm.trans ha) nofun
        · exact .inr (.inr (hf.producerDone.trans hd))
    | done e l =>
      have hla : wire = [] := (hw ▸ h.shape).done_last
      subst hla
      have hou' : out = sent := by simpa [hw, wireBytes, BodyMessage.bytes] using hout
      cases hcl : (BodyMessage.done e l).isClean with
      | true =>
        obtain ⟨hall, hwi⟩ := h.clean ha (.done e l) (hw ▸ mem_cons_self) hcl
        have hf : Flows (t.receiver.onMessage (.done e l) posts) sent true t.receiver.attached :=
          onMessage_done h.flows ha (Option.isNone_iff_eq_none.mp hcl)
        exact ⟨sent, out, { h with
          flows := { hf with producerDone := rfl, attached := id }
          wired := fun _ => by simpa [wireBytes] using hou'
          shape := hsh
          clean := fun _ _ hx => absurd hx not_mem_nil
          done := fun _ => ⟨hou' ▸ hall, hwi⟩
          stopped := fun _ => .inr (.inr hf.producerDone)
          cancelled := fun hc => (h.cancelled hc).imp_right fun ⟨_, hat⟩ => absurd (hat.symm.trans ha) nofun
          unopened := fun hn => absurd (ho.symm.trans hn) nofun }⟩
      | false =>
        have hdi : e.filter (· ≠ "") ≠ none := fun hn => by
          rw [BodyMessage.isClean, hn] at hcl
          cases hcl
        have hf : Flows (t.receiver.onMessage (.done e l) posts) sent t.receiver.producerDone false :=
          onMessage_failed h.flows ha hdi
        have hgo := hdt hf rfl
        exact ⟨sent, out, { h with
          flows := { hf with producerDone := rfl, attached := id }
          wired := fun _ => by simpa [wireBytes] using hou'
          shape := hsh
          clean := fun _ _ hx => absurd hx not_mem_nil
          done := fun hd => h.done (hf.producerDone ▸ hd)
          stopped := fun _ => .inr (.inl hgo)
          cancelled := fun hc => (h.cancelled hc).imp_right fun ⟨_, hat⟩ => absurd (hat.symm.trans ha) nofun
          unopened := fun hn => absurd (ho.symm.trans hn) nofun }⟩

/-! ## 走行 -/

theorem Flow.receiverStep {e} : Flow source limit (t.receiverStep e) sent out := by
  have hop : (∀ m posts, e ≠ .message m posts) → t.opened = true →
      Flow source limit { t with receiver := t.receiver.step e } sent out := fun hne ho => h.receiver ho (step_flows h.flows hne)
  unfold Transfer.receiverStep
  cases e with
  | message m posts => exact h
  | bodyCall call | responseCall call =>
    dsimp only
    split
    · rename_i ho
      exact hop nofun ho
    · exact { h with flows := { h.flows with } }
  | _ =>
    dsimp only
    split
    · rename_i ho
      exact hop nofun ho
    · exact h

end

theorem Faithful.step (h : Faithful source limit t) (e) : Faithful source limit (t.step e) := by
  obtain ⟨sent, out, h⟩ := h
  cases e with
  | read =>
    simp only [Transfer.step]
    split
    · rename_i probe hp
      have hs := h.sends (by rw [hp]; rfl)
      have hpr := probeStep_probes hs hp
      refine ⟨sent, out, h.quiet hpr.limit (fun hact => hpr.sends ?_) (by rw [hp]; nofun) hpr.silent ?_⟩
      · intro hrej
        rw [hrej] at hact
        cases hact
      · rw [hpr.cancelled, hpr.aborted]
        exact h.cancelled
    · rename_i hp
      have hr : t.producer.phase.running = true := by rw [hp]; rfl
      exact h.post hr (readStep_advances (h.sends (active_of_running hr)) hp)
    · exact ⟨sent, out, h⟩
  | start =>
    simp only [Transfer.step]
    split
    · rename_i hp
      refine ⟨sent, out, ?_⟩
      have hs := h.sends (by rw [hp]; rfl)
      have hold : t.producer.phase ≠ .stopped := by rw [hp]; nofun
      split
      · rename_i ha
        have hs' : Sends source { t.producer with cancelled := true, available := true } out := { hs with split := hs.split }
        exact h.quiet rfl (fun _ => awaitCredit_sends hs' hp) hold (ne_stopped_of_running (awaitCredit_running _)) fun _ =>
          .inl (Option.isSome_iff_ne_none.mp ha)
      · exact h.quiet rfl (fun _ => awaitCredit_sends hs hp) hold (ne_stopped_of_running (awaitCredit_running _)) h.cancelled
    · exact ⟨sent, out, h⟩
  | credit =>
    simp only [Transfer.step]
    split
    · rename_i hc
      have hw := h.wake (Bool.and_eq_true_iff.mp hc).1
      exact ⟨sent, out, { hw with }⟩
    · exact ⟨sent, out, h⟩
  | produce =>
    simp only [Transfer.step]
    split
    · rename_i hp
      have hr : t.producer.phase.running = true := by rw [hp]; rfl
      exact h.post hr (produce_advances (h.sends (active_of_running hr)) hp)
    · exact ⟨sent, out, h⟩
  | portClosed =>
    simp only [Transfer.step]
    split
    · rename_i hc
      obtain ⟨hr, hpo⟩ := Bool.and_eq_true_iff.mp hc
      exact ⟨sent, out, h.cancelProducer hr (.inr (by simpa [portOpen] using hpo))⟩
    · exact ⟨sent, out, h⟩
  | abortProducer reason =>
    have hne : t.producer.aborted.or (some reason) ≠ none := by simp
    have h1 : Flow source limit { t with producer := { t.producer with aborted := t.producer.aborted.or (some reason) } } sent out :=
      { h with
        sends := fun hact => { h.sends hact with split := (h.sends hact).split }
        cancelled := fun _ => .inl hne }
    simp only [Transfer.step]
    split
    · rename_i hr
      exact ⟨sent, out, h1.cancelProducer hr (.inl hne)⟩
    · exact ⟨sent, out, h1⟩
  | receive aborted posts =>
    simp only [Transfer.step]
    split
    · rename_i hc
      exact ⟨sent, out, h.receive (by simpa using (Bool.and_eq_true_iff.mp hc).2)⟩
    · exact ⟨sent, out, h⟩
  | deliver posts =>
    simp only [Transfer.step]
    split
    · rename_i ho
      cases hw : t.wire with
      | nil => exact ⟨sent, out, h⟩
      | cons m rest => exact h.deliver ho hw
    · exact ⟨sent, out, h⟩
  | receiver e => exact ⟨sent, out, h.receiverStep⟩

theorem Faithful.run (h : Faithful source limit t) (events) : Faithful source limit (t.run events) := by
  induction events generalizing t with
  | nil => exact h
  | cons e rest ih => exact ih (h.step e)

theorem step_cancelled {e} (hc : (t.step e).receiver.ending = some .cancelled) :
    t.receiver.ending = some .cancelled ∨ e = .receiver .cancel := by
  cases e with
  | deliver posts => grind [Transfer.step, → onMessage_cancelled]
  | receive aborted posts => grind [Transfer.step, receiveBufferedResponse_uncancelled]
  | receiver e =>
    have := @Receiver.step_cancelled t.receiver e
    cases e <;> grind [Transfer.step, Transfer.receiverStep]
  | _ => grind [Transfer.step, post, cancelProducer]

theorem run_cancelled {events} (hc : (t.run events).receiver.ending = some .cancelled) :
    t.receiver.ending = some .cancelled ∨ .receiver .cancel ∈ events := by
  induction events generalizing t with
  | nil => exact .inl hc
  | cons e rest ih =>
    rcases ih hc with hs | hm
    · rcases step_cancelled hs with hs | rfl
      · exact .inl hs
      · exact .inr mem_cons_self
    · exact .inr (mem_cons_of_mem e hm)

theorem initial_faithful {immediate readAheadBytes lease body response} :
    Faithful source limit (initial source limit immediate readAheadBytes body response lease) := by
  refine ⟨[], [], {
    limit_eq := rfl
    flows := fresh_flows
    sends := fun _ => ?_
    out_before := nil_prefix
    sent_before := prefix_rfl
    wired := fun _ => rfl
    shape := ⟨[], [], rfl, .inl rfl⟩
    clean := fun _ _ hm => absurd hm not_mem_nil
    done := nofun
    stopped := ?_
    cancelled := nofun
    unopened := fun _ => ⟨rfl, rfl, rfl⟩ }⟩
  · exact {
      count := by simp [initial, prepareResponseBody]
      bound := fun _ _ => Nat.zero_le _
      split := by
        cases immediate <;> simp [initial, prepareResponseBody, rest]
      probing := fun _ _ => ⟨rfl, rfl, rfl⟩
      prepared := fun _ => rfl
      reading := fun hp => by cases immediate <;> cases hp
      offset := nofun }
  · intro hp
    cases immediate <;> cases hp

end Transfer

end Supacloud.BodyTransfer
