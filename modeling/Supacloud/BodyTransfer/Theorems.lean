import Supacloud.BodyTransfer.Lemmas.Bounded
import Supacloud.BodyTransfer.Lemmas.Transfer

/-!
# 本体の受け渡しの主な性質
-/

namespace Supacloud.BodyTransfer

open BodyBufferBudget Receiver

/-! ## 流れの忠実さ -/

/-- 読み手に渡したバイトは、元の流れの先頭からの列であり、正常に閉じたときは元の流れに等しい。元の流れが上限を超えるときは、正常に閉じず、読み手が取り消さない限り失敗で終わる。
開いた流れは、止まれば時間切れで終わる。 -/
theorem stream_faithful (source : Source) (limit : Option Nat) (immediate : Bool) (readAheadBytes bodyLimit responseLimit : Nat)
    (bodyCalls responseCalls : List BudgetCall) (lease : Nat) (events : List TransferEvent) :
    let t := (Transfer.initial source limit immediate readAheadBytes (ofCalls bodyLimit bodyCalls)
      (ofCalls responseLimit responseCalls) lease).run events
    t.receiver.enqueued <+: source.chunks.flatten ∧ (t.receiver.ending = some .closed → t.receiver.enqueued = source.chunks.flatten) ∧
      (t.opened = true → ∃ e, (t.step (.receiver .idleTimeout)).receiver.ending = some e) ∧
      ∀ l, limit = some l → l < source.chunks.flatten.length → t.receiver.ending ≠ some .closed ∧
          (t.producer.phase = .stopped → t.wire = [] → (∃ e, t.receiver.ending = some (.errored e)) ∨
            t.receiver.ending = some .cancelled ∧ .receiver .cancel ∈ events) := by
  intro t
  obtain ⟨sent, out, h⟩ : Transfer.Faithful source limit t := Transfer.initial_faithful.run events
  have hcl : t.receiver.ending = some .closed → sent = source.chunks.flatten ∧ source.Within limit := fun he =>
    h.done (h.flows.ended he).2
  refine ⟨h.flows.before.trans (h.sent_before.trans h.out_before), fun he => ?_,
    fun ho => (h.receiverStep (e := .idleTimeout)).flows.stopped ?_, fun l hl hlt => ?_⟩
  · rw [(h.flows.ended he).1]
    exact (hcl he).1
  · grind [Transfer.receiverStep, Receiver.step, fail, finish]
  have hexs : ¬ source.Within limit := fun hw => Nat.not_le_of_lt hlt (hw l hl)
  have hnv : t.receiver.ending ≠ some .closed := fun he => hexs (hcl he).2
  refine ⟨hnv, fun hp hw => ?_⟩
  have hund : t.receiver.producerDone ≠ true := fun hd => hexs (h.done hd).2
  have hde : t.receiver.attached = false := by grind [→ h.stopped]
  obtain ⟨e, he⟩ := h.flows.stopped ((h.flows.detached hde).resolve_right hund)
  cases e with
  | closed => exact absurd he hnv
  | errored e => exact .inl ⟨e, he⟩
  | cancelled =>
    rcases Transfer.run_cancelled he with hca | hm
    · cases hca
    · exact .inr ⟨he, hm⟩

/-! ## 予算の勘定 -/

/-- 予算の使用量は貸し出しの持ち分の合計で、上限を超えず、受け手の二つの貸し出しは溜めたバイト以上を持つ。 -/
theorem buffers_accounted :
    (∀ limit calls, (ofCalls limit calls).used = (ofCalls limit calls).leases.sum ∧ 0 ≤ (ofCalls limit calls).used ∧
      (ofCalls limit calls).used ≤ limit) ∧ ∀ readAheadBytes bodyLimit responseLimit bodyCalls responseCalls lease aborted posts events,
      lease < (ofCalls bodyLimit bodyCalls).leases.length →
      let start := receiveBufferedResponse readAheadBytes (ofCalls bodyLimit bodyCalls)
        (ofCalls responseLimit responseCalls) lease aborted posts
      runAll paced start events = true →
      let s := start.run events
      ((s.buffered.map List.length).sum : Int) ≤ s.body.held s.lease ∧
        ((s.buffered.map List.length).sum : Int) ≤ s.response.held s.responseLease ∧
        s.threw = false ∧
        (s.closed = true → s.body.held s.lease = 0 ∧ s.response.held s.responseLease = 0) := by
  refine ⟨fun limit calls => ?_, fun readAheadBytes bodyLimit responseLimit bodyCalls responseCalls lease aborted posts events hl => ?_⟩
  · have h := ofCalls_ok limit calls
    refine ⟨h.total, h.used_nonneg, ?_⟩
    have hle := h.le
    rwa [ofCalls_limit] at hle
  · intro start hp s
    have h : s.Funded :=
      (receiveBufferedResponse_funded (ofCalls_ok _ _) (ofCalls_ok _ _) hl aborted posts).run hp
    exact ⟨h.buffered_le.1, h.buffered_le.2, h.threw, fun hc => (h.emptied hc).2⟩

def sampleReceiver : Receiver :=
  .receiveBufferedResponse 0 (ofCalls bodyChunkBytes [.lease]) (ofCalls bodyChunkBytes []) 0 false true

def sampleReceiverEvents : List ReceiverEvent :=
  [.pull true, .message (.chunk [1, 2]) true, .pull true, .message (.done none none) true]

theorem buffers_accounted_sample :
    (sampleReceiver.run sampleReceiverEvents).threw = false ∧ (sampleReceiver.run sampleReceiverEvents).closed = true ∧
      (sampleReceiver.run sampleReceiverEvents).body.held 0 = 0 := by
  have hl : 0 < (ofCalls bodyChunkBytes [.lease]).leases.length := by decide
  have hp : runAll paced sampleReceiver sampleReceiverEvents = true := by decide
  have hc : (sampleReceiver.run sampleReceiverEvents).closed = true := by decide
  obtain ⟨-, -, ht, he⟩ := buffers_accounted.2 0 bodyChunkBytes bodyChunkBytes [.lease] [] 0 false true sampleReceiverEvents hl hp
  have hls : (sampleReceiver.run sampleReceiverEvents).lease = 0 := by decide
  exact ⟨ht, hc, hls ▸ (he hc).1⟩

/-- 読み取りは必ず終わり、上限に収まる本体をそのまま返し、収まらない本体を断る。 -/
theorem readBoundedBody_exact (env : Environment) (limit extra : ℕ) (body : List Chunk) :
    ∃ s outcome, readBoundedBody env limit (limit + extra) body = some (s, outcome) ∧ (∀ a ∈ s.log, a.Covers limit) ∧
      ((outcome = .error .aborted ∧ ∃ n, env.aborted n = true) ∨ (outcome = .error .refused ∧ env.Refuses) ∨
        outcome = if body.flatten.length ≤ limit then .ok body.flatten else .error .limit) := by
  cases hab : env.aborted 0 with
  | true =>
    exact ⟨{ failed := some .aborted }, .error .aborted, by simp [readBoundedBody, hab], by simp, .inl ⟨rfl, 0, hab⟩⟩
  | false =>
    have hem : Filled limit {} [] := ⟨.inl ⟨rfl, rfl⟩, rfl, Nat.zero_le _, by simp⟩
    obtain ⟨s, hre, h⟩ := receive_spec env 0 body hem rfl (Nat.zero_le _) rfl (Nat.le_add_right limit extra)
    rw [List.nil_append] at h
    cases hfa : s.failed with
    | none =>
      obtain ⟨hto, hft, hfi⟩ := h.filled hfa
      refine ⟨s, .ok s.output, by simp [readBoundedBody, hab, hre, hfa], h.covered, .inr (.inr ?_)⟩
      rw [if_pos hft, hfi.output hto]
    | some e =>
      refine ⟨s, .error e, by simp [readBoundedBody, hab, hre, hfa], h.covered, ?_⟩
      rcases h.failure e hfa with ⟨rfl, hn⟩ | ⟨rfl, hn⟩ | ⟨rfl, hli⟩
      · exact .inl ⟨rfl, hn⟩
      · exact .inr (.inl ⟨rfl, hn⟩)
      · exact .inr (.inr (by rw [if_neg (by omega)]))

end Supacloud.BodyTransfer
