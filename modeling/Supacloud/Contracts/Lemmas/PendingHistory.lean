import Supacloud.Contracts.Lemmas.PendingCommand

/-! # 保留の印の履歴の不変条件 -/

namespace Supacloud.Contracts

open Library Realm List Option

variable {σ ε κ α β γ : Type} {authority : α} {faults : List Fault} {result : Except ε Value} {value : Value}

/-! ## 終わりの状態 -/

def Ends (Q : Except (PendingFailure ε) β → Session σ → Prop) (s : Session σ) (m : Pending σ ε β) : Prop :=
  Q (m.exec s).1 (m.exec s).2

namespace Ends

variable {Q : Except (PendingFailure ε) β → Session σ → Prop} {s : Session σ} {e : PendingFailure ε}

theorem pure {x} (h : Q (.ok x) s) : Ends Q s (Pure.pure x) := h

theorem throw (h : Q (.error e) s) : Ends Q s (MonadExcept.throw e) := h

theorem throw_bind {f : γ → Pending σ ε β} (h : Q (.error e) s) : Ends Q s (MonadExcept.throw e >>= f) := h

theorem bind {m} {f : γ → Pending σ ε β} (h : Ends (fun result s' => match result with
      | .ok x => Ends Q s' (f x)
      | .error e => Q (.error e) s') s m) : Ends Q s (m >>= f) := by
  rcases hm : m.exec s with ⟨e | x, s'⟩
  · simp only [Ends, hm] at h
    simpa [Ends, exec_bind_error hm] using h
  · simp only [Ends, hm] at h
    simpa [Ends, exec_bind_ok hm] using h

theorem orThrow {o} {f : γ → Pending σ ε β} (he : Q (.error e) s) (h : ∀ x, o = some x → Ends Q s (f x)) :
    Ends Q s (Contracts.orThrow e o >>= f) := by
  cases o with
  | none => exact he
  | some x => exact h x rfl

theorem getState {f} (h : Ends Q s (f s)) : Ends Q s (MonadState.get >>= f) := h

theorem setWorld {world : σ} {f : Unit → Pending σ ε β} (h : Ends Q { s with world } (f ⟨⟩)) :
    Ends Q s ((modify fun s => { s with world }) >>= f) := h

theorem orThrow_last {o} (he : Q (.error e) s) (h : ∀ x, o = some x → Q (.ok x) s) : Ends Q s (Contracts.orThrow e o) := by
  cases o with
  | none => exact he
  | some x => exact h x rfl

end Ends

/-! ## 保存先の一歩 -/

section Disk

variable {contract : AuthoritativeCommandContract κ α} {key : JsString} {d : Disk} {calls : List Call} {text : Text}
  {Q : Except (PendingFailure ε) β → Session Disk → Prop}

theorem Ends.get {f} (he : Q (.error .storage) ⟨d, calls⟩)
    (h : ∀ found, d.slot = found → Ends Q ⟨d, calls⟩ (f found)) : Ends Q ⟨d, calls⟩ (diskStorage.get key >>= f) := by
  refine .bind (.getState (.orThrow_last he fun found hfound => ?_))
  simp only [diskStorage] at hfound
  split at hfound
  · cases hfound
  · exact h found (some.inj hfound)

theorem Disk.write_slot {slot d'} (h : d.write slot = some d') : d'.slot = slot ∨ d'.slot = d.slot := by
  unfold Disk.write at h
  split at h <;> cases h
  · exact .inr rfl
  · exact .inl rfl
  · exact .inl rfl

theorem Ends.set {f} (he : Q (.error .storage) ⟨d, calls⟩)
    (h : ∀ d', d'.slot = some text ∨ d'.slot = d.slot → Ends Q ⟨d', .persist text :: calls⟩ (f ⟨⟩)) :
    Ends Q ⟨d, calls⟩ (diskStorage.set key text >>= f) :=
  .bind (.getState (.orThrow he fun d' hd' => .setWorld (h d' (Disk.write_slot hd'))))

theorem Ends.remove {f} (he : Q (.error .storage) ⟨d, calls⟩)
    (h : ∀ d', d'.slot = none ∨ d'.slot = d.slot → Ends Q ⟨d', .remove :: calls⟩ (f ⟨⟩)) :
    Ends Q ⟨d, calls⟩ (diskStorage.remove key >>= f) :=
  .bind (.getState (.orThrow he fun d' hd' => .setWorld (h d' (Disk.write_slot hd'))))

theorem clearPendingCommand_ends : Ends (fun _ s => s.world.slot = d.slot ∨ (d.slot = some text ∧ s.world.slot = none))
    ⟨d, calls⟩ (clearPendingCommand diskStorage key text : Pending Disk ε Unit) := by
  refine .get (.inl rfl) fun found hd => ?_
  split
  · rename_i hfound
    rw [hfound] at hd
    refine .remove (.inl rfl) fun d' hd' => ?_
    have hslot : d'.slot = d.slot ∨ (d.slot = some text ∧ d'.slot = none) := hd'.symm.imp_right fun h => ⟨hd, h⟩
    refine .get hslot fun _ _ => ?_
    split
    · exact .throw hslot
    · exact .pure hslot
  · exact .pure (.inl rfl)

def Prepares (contract : AuthoritativeCommandContract κ α) (value : Value) (j : CommandJson) (input : Value) : Prop :=
  ∃ decoded readback, contract.input value = some decoded ∧ decoded.stringify = some (some j) ∧
    contract.input j.parse = some readback ∧ readback.stringify = some (some j) ∧ readback.structuredClone = some input

def Persists (contract : AuthoritativeCommandContract κ α) (value : Value) (slot slot' : Option Text)
    (result : Except (PendingFailure ε) (Text × Value)) : Prop :=
  (slot' = slot ∧ ∃ e, result = .error e) ∨ (slot = none ∧ ∃ j input, Prepares contract value j input ∧ slot' = some j.text ∧
      (result = .ok (j.text, input) ∨ ∃ e, result = .error e))

theorem prepareMarker_ends : Ends (fun result s => Persists contract value d.slot s.world.slot result) ⟨d, calls⟩
    (prepareMarker contract diskStorage key value : Pending Disk ε (Text × Value)) := by
  have hfa : ∀ (e : PendingFailure ε), Persists contract value d.slot d.slot (.error e) := fun e => .inl ⟨rfl, e, rfl⟩
  refine .get (hfa _) fun found hslot => ?_
  cases found with
  | some existing => exact .orThrow (hfa _) fun _ _ => .orThrow (hfa _) fun _ _ => .throw (hfa _)
  | none =>
    refine .orThrow (hfa _) fun decoded hde => .orThrow (hfa _) fun written hwr => .orThrow (hfa _) fun j hj => ?_
    refine .orThrow (hfa _) fun readback hrd => .orThrow (hfa _) fun again hag => ?_
    dsimp only
    split
    · exact .throw_bind (hfa _)
    rename_i hsa
    have hj' : again = some j := by simpa using hsa
    refine .orThrow (hfa _) fun input hinp => ?_
    have hprep : Prepares contract value j input := ⟨decoded, readback, hde, hj ▸ hwr, hrd, hj' ▸ hag, hinp⟩
    refine .set (hfa _) fun d' hd' => ?_
    have hfa' : ∀ e : PendingFailure ε, Persists contract value d.slot d'.slot (.error e) := by
      intro e
      rcases hd' with h | h
      · exact .inr ⟨hslot, j, input, hprep, h, .inr ⟨e, rfl⟩⟩
      · exact .inl ⟨h, e, rfl⟩
    refine .get (hfa' _) fun stored hst => ?_
    split
    · exact .throw (hfa' _)
    · rename_i hkp
      exact .pure (.inr ⟨hslot, j, input, hprep, hst.trans (not_not.mp hkp), .inl rfl⟩)

theorem startRecovery_ends : Ends (fun result _ => ∀ marker input, result = .ok (some (marker, input)) → d.slot = some marker ∧
      ∃ j readback, marker.tree = some j ∧ contract.input j.parse = some readback ∧ readback.structuredClone = some input)
    ⟨d, calls⟩ (startRecovery contract diskStorage key : Pending Disk ε (Option (Text × Value))) := by
  refine .get nofun fun found hslot => ?_
  cases found with
  | none => exact .pure nofun
  | some serialized =>
    refine .bind (.orThrow nofun fun parsed hpa => .orThrow nofun fun _ _ => .orThrow nofun fun readback hrd => ?_)
    refine .orThrow nofun fun _ _ => ?_
    dsimp only
    split
    · exact .throw_bind nofun
    · refine .orThrow_last nofun fun input hinp => .pure ?_
      rintro marker' input' h
      cases h
      obtain ⟨j, hj, rfl⟩ := map_eq_some_iff.mp hpa
      exact ⟨hslot, j, readback, hj, hrd, hinp⟩

end Disk

/-! ## 待つところで分けた実行 -/

section Split

end Split

/-! ## 一歩の変化 -/

section Step

variable {key : JsString} {w : Realm ε κ α} {f f' : Flight ε κ α}

def Flight.Same (f f' : Flight ε κ α) : Prop := f' = { f with stage := f'.stage } ∧ (f'.stage = .recovering ↔ f.stage = .recovering)

theorem Flight.Same.refl : f.Same f := ⟨rfl, .rfl⟩

def Flight.Settles (f : Flight ε κ α) (note : Note α) : Except ε Value → Prop
  | .ok raw => f.Accepts raw ∧ ∃ authority, note = .confirmed f.call authority
  | .error e => f.Denies e ∧ note = .denied f.call

inductive Change (w : Realm ε κ α) : HistoryEvent ε κ α → Realm ε κ α → Prop
  | idle {e w'} (hslot : w'.slot = w.slot) (hlog : w'.log = w.log) (hflights : ∀ f' ∈ w'.flights, ∃ f ∈ w.flights, f.Same f') :
      Change w e w'
  | stored {setup value confirmation faults w' j input} (hnone : w.slot = none) (hprep : Prepares setup.contract value j input)
      (hslot : w'.slot = some j.text) (hlog : w'.log = .persisted w.nextCall j.text :: w.log) (hflights : w'.flights = w.flights) :
      Change w (.call setup value confirmation faults) w'
  | sent {setup value confirmation faults w' j input} (hnone : w.slot = none) (hprep : Prepares setup.contract value j input)
      (hslot : w'.slot = some j.text) (hlog : w'.log = .sent w.nextCall j.text input :: .persisted w.nextCall j.text :: w.log)
      (hflights : ∀ f ∈ w'.flights, f ∈ w.flights ∨
        f = { toSetup := setup, call := w.nextCall, marker := j.text, input, stage := .sending confirmation }) :
      Change w (.call setup value confirmation faults) w'
  | looked {setup faults w' flight} (hsome : w.slot = some flight.marker) (hreads : flight.Reads) (hstage : flight.stage = .recovering)
      (hslot : w'.slot = w.slot) (hlog : w'.log = .looked flight.call flight.marker :: w.log)
      (hflights : ∀ f ∈ w'.flights, f ∈ w.flights ∨ f = flight) : Change w (.recover setup faults) w'
  | settled {call result faults w' flight note} (hfound : w.flight call = some flight) (hsettles : flight.Settles note result)
      (hslot : w'.slot = w.slot) (hlog : w'.log = note :: w.log) (hflights : ∀ f ∈ w'.flights, f ∈ w.flights) :
      Change w (.answer call result faults) w'
  | removed {call result faults w' flight note} (hfound : w.flight call = some flight) (hsettles : flight.Settles note result)
      (hsome : w.slot = some flight.marker) (hslot : w'.slot = none) (hlog : w'.log = .removed flight.call flight.marker :: note :: w.log)
      (hflights : ∀ f ∈ w'.flights, f ∈ w.flights) : Change w (.answer call result faults) w'

theorem Realm.mem_drop {call} (h : f ∈ (w.drop call).flights) : f ∈ w.flights := (mem_filter.mp h).1

theorem Realm.mem_wait (h : f ∈ (w.wait f').flights) : f ∈ w.flights ∨ f = f' :=
  (mem_cons.mp h).symm.imp_left mem_drop

theorem Realm.mem_of_flight {call} (h : w.flight call = some f) : f ∈ w.flights := mem_of_find?_eq_some h

/-! 結果を受け取る一歩。 -/

theorem Realm.settle_change {call : Nat} {faults' note} (hfound : w.flight call = some f) (hsettles : f.Settles note result) :
    Change w (.answer call result faults) (w.settle key f note faults') := by
  have hen : Ends _ ⟨⟨w.slot, faults'⟩, []⟩ (clearPendingCommand diskStorage key f.marker : Pending Disk ε Unit) :=
    clearPendingCommand_ends
  have hdr : ∀ f' ∈ (w.drop f.call).flights, f' ∈ w.flights := fun _ => mem_drop
  have hnt : ((w.drop f.call).note note).slot = w.slot := rfl
  unfold settle clear
  simp only [hnt]
  rcases hen with hke | ⟨hsome, hnone⟩
  · rw [hke]
    cases hslot : w.slot with
    | none | some found => exact .settled hfound hsettles hslot.symm rfl hdr
  · dsimp only at hsome
    rw [hnone, hsome]
    exact .removed hfound hsettles hsome rfl rfl hdr

theorem Flight.Reads.clone (h : f.Reads) : f.input.structuredClone = some f.input := by
  obtain ⟨j, readback, -, -, hcl⟩ := h
  exact Value.clone_clone hcl

theorem confirm_accepts {contract : AuthoritativeCommandContract κ α} {decode input raw}
    (h : contract.confirm decode (some input) raw = some (authority, true)) :
    decode raw = some authority ∧ contract.accepts input authority = some true := by
  simpa [AuthoritativeCommandContract.confirm, bind_eq_some_iff] using h

theorem confirmLookup_accepts (hreads : f.Reads)
    (h : confirmLookup f.contract f.input result = some authority) : f.Settles (.confirmed f.call authority) result := by
  cases result with
  | error e => cases h
  | ok raw =>
    simp only [confirmLookup, hreads.clone] at h
    split at h
    · rename_i hco
      cases h
      obtain ⟨hdc, hacs⟩ := confirm_accepts hco
      exact ⟨⟨f.contract.lookupDecoder (some f.input), by simp, authority, hdc, hacs⟩, authority, rfl⟩
    · cases h

variable {confirmation : Confirmation}

theorem confirmResponse_accepts {raw} (hreads : f.Reads) (h : confirmResponse f.contract confirmation f.input raw = some authority) :
    f.Settles (.confirmed f.call authority) (.ok raw : Except ε Value) := by
  simp only [confirmResponse, hreads.clone] at h
  split at h
  · split at h
    · rename_i hco
      cases h
      obtain ⟨hdc, hacs⟩ := confirm_accepts hco
      exact ⟨⟨f.contract.responseAuthority.getD f.contract.authority, by simp, authority, hdc, hacs⟩, authority, rfl⟩
    · cases h
  · cases h

theorem Realm.look_change (hmem : f ∈ w.flights) (hstage : f.stage ≠ .recovering) (hreads : f.Reads) {e} : Change w e (w.look f) := by
  simp only [look, hreads.clone]
  refine .idle rfl rfl fun f' hf' => ?_
  rcases mem_wait hf' with h | rfl
  · exact ⟨f', h, .refl⟩
  · exact ⟨f, hmem, rfl, by simp [hstage]⟩

theorem Realm.answer_change {call} (hfound : w.flight call = some f)
    (hreads : f.Reads) : Change w (.answer call result faults) (w.answer key f result faults) := by
  have hmem := mem_of_flight hfound
  unfold answer
  cases hstage : f.stage with
  | looking | recovering =>
    dsimp only
    cases h : confirmLookup f.contract f.input result with
    | none => exact .idle rfl rfl fun f' hf' => ⟨f', mem_drop hf', .refl⟩
    | some authority => exact settle_change hfound (confirmLookup_accepts hreads h)
  | sending confirmation =>
    have hcli : f.stage ≠ .recovering := by simp [hstage]
    simp only [handle]
    cases result with
    | error e =>
      by_cases hd : denies f.classify (.rejected e)
      · simp only [Except.mapError, respond, hd, ↓reduceIte]
        exact settle_change hfound ⟨⟨⟨confirmation, hstage⟩, hd⟩, rfl⟩
      · simp only [Except.mapError, respond, hd]
        exact look_change hmem hcli hreads
    | ok raw =>
      cases hc : confirmResponse f.contract confirmation f.input raw with
      | none =>
        simp only [Except.mapError, respond, hc]
        exact look_change hmem hcli hreads
      | some authority =>
        simp only [Except.mapError, respond, hc]
        exact settle_change hfound (confirmResponse_accepts hreads hc)

/-! 呼び出しの始まりの一歩。 -/

theorem Prepares.clone {contract : AuthoritativeCommandContract κ α} {input j}
    (h : Prepares contract value j input) : input.structuredClone = some input := by
  obtain ⟨decoded, readback, -, -, -, -, hcl⟩ := h
  exact Value.clone_clone hcl

theorem Realm.persist_same {call} : w.persist call w.slot = w := by
  obtain ⟨_ | _, flights, nextCall, log⟩ := w <;> rfl

theorem Realm.persist_new {call marker} (h : w.slot = none) :
    w.persist call (some marker) = { w with slot := some marker, log := .persisted call marker :: w.log } := by
  simp [persist, h]

theorem Realm.call_change {setup} : Change w (.call setup value confirmation faults) (w.call key setup value confirmation faults) := by
  have hen : Ends _ ⟨⟨w.slot, faults⟩, []⟩ (prepareMarker setup.contract diskStorage key value : Pending Disk ε (Text × Value)) :=
    prepareMarker_ends
  unfold call
  simp only [Ends] at hen
  generalize (prepareMarker setup.contract diskStorage key value : Pending Disk ε (Text × Value)).exec ⟨⟨w.slot, faults⟩, []⟩ = out
    at hen ⊢
  obtain ⟨result, s⟩ := out
  dsimp only at hen ⊢
  rcases hen with ⟨hke, failure, rfl⟩ | ⟨hnone, j, input, hprep, hslot, rfl | ⟨failure, rfl⟩⟩
  · rw [hke, show w.enter.persist w.nextCall w.slot = w.enter from persist_same]
    exact .idle rfl rfl fun f hf => ⟨f, hf, .refl⟩
  · rw [hslot, persist_new (w := w.enter) hnone]
    simp only [send, hprep.clone, isNone_some, Bool.and_false, Bool.false_eq_true, ↓reduceIte]
    exact .sent hnone hprep rfl rfl fun f hf => mem_wait hf
  · rw [hslot, persist_new (w := w.enter) hnone]
    exact .stored hnone hprep rfl rfl rfl

theorem Realm.recover_change {setup} : Change w (.recover setup faults) (w.recover key setup faults) := by
  have hen : Ends _ ⟨⟨w.slot, faults⟩, []⟩
      (startRecovery setup.contract diskStorage key : Pending Disk ε (Option (Text × Value))) := startRecovery_ends
  have hidl : Change w (.recover setup faults) w.enter := .idle rfl rfl fun f hf => ⟨f, hf, .refl⟩
  unfold recover
  split
  · rename_i marker input hrsl
    obtain ⟨hsome, j, readback, hj, hrd, hcl⟩ := hen marker input hrsl
    simp only [Value.clone_clone hcl]
    exact .looked hsome ⟨j, readback, hj, hrd, hcl⟩ rfl rfl rfl fun f hf => mem_wait hf
  · exact hidl

theorem historyStep_change {e} (hreads : ∀ f ∈ w.flights, f.Reads) : Change w e (historyStep key w e) := by
  cases e with
  | call setup value confirmation faults => exact call_change
  | recover setup faults => exact recover_change
  | answer call result faults =>
    simp only [historyStep]
    cases hfound : w.flight call with
    | none => exact .idle rfl rfl fun f hf => ⟨f, hf, .refl⟩
    | some f => exact answer_change hfound (hreads f (mem_of_flight hfound))
  | reload => exact .idle rfl rfl nofun

end Step

/-! ## 不変条件 -/

section Invariant

variable {w w' : Realm ε κ α} {f f' : Flight ε κ α} {note : Note α} {log later : List (Note α)} {call : Nat} {marker : Text}
  {P P' : Nat → Text → List (Note α) → Prop}

theorem EachSent.cons (hnew : ∀ call marker request, note = .sent call marker request → P' call marker [])
    (hold : ∀ call marker later, P call marker later → P' call marker (note :: later)) (h : EachSent P log) :
    EachSent P' (note :: log) := by
  intro later call marker request earlier hsp
  cases later with
  | nil =>
    cases hsp
    exact hnew call marker request rfl
  | cons n later =>
    obtain ⟨rfl, hrst⟩ := cons.inj hsp
    exact hold call marker later (h later call marker request earlier hrst)

theorem EachSent.mono (h : EachSent P log) (hP : ∀ call marker later, P call marker later → P' call marker later) : EachSent P' log :=
  fun later call marker request earlier hsp => hP call marker later (h later call marker request earlier hsp)

theorem Resolved.cons (h : Resolved call marker later) : Resolved call marker (note :: later) := by
  rcases h with h | ⟨authority, h⟩ | ⟨recovery, authority, hl, hc⟩
  · exact .inl (mem_cons_of_mem _ h)
  · exact .inr (.inl ⟨authority, mem_cons_of_mem _ h⟩)
  · exact .inr (.inr ⟨recovery, authority, mem_cons_of_mem _ hl, mem_cons_of_mem _ hc⟩)

/-- 結果の確かでない送信の呼び出しは、保存された印の持ち主である。送る側は自分の印を保存した持ち主であり、回復する側は送信の後に
印を読んでいる。 -/
structure Realm.Owned (w : Realm ε κ α) : Prop where
  reads : ∀ f ∈ w.flights, f.Reads
  sent : EachSent (fun call marker later => Resolved call marker later ∨
    (w.slot = some marker ∧ holder w.log = some (call, marker))) w.log
  client : ∀ f ∈ w.flights, f.stage ≠ .recovering → w.slot = some f.marker → holder w.log = some (f.call, f.marker)
  recovery : ∀ f ∈ w.flights, f.stage = .recovering → w.slot = some f.marker →
    EachSent (fun call marker later => marker = f.marker → Resolved call marker later ∨ .looked f.call marker ∈ later) w.log

section

variable (h : f.Settles note result)

include h

theorem Flight.Settles.unsent : ∀ call marker request, note ≠ .sent call marker request := by
  cases result with
  | ok raw =>
    obtain ⟨-, authority, rfl⟩ := h
    nofun
  | error e =>
    obtain ⟨-, rfl⟩ := h
    nofun

theorem Flight.Settles.holder_cons : holder (note :: log) = holder log := by
  cases result with
  | ok raw =>
    obtain ⟨-, authority, rfl⟩ := h
    rfl
  | error e =>
    obtain ⟨-, rfl⟩ := h
    rfl

theorem Flight.Settles.resolved : Resolved f.call marker (note :: later) := by
  cases result with
  | ok raw =>
    obtain ⟨-, authority, rfl⟩ := h
    exact .inr (.inl ⟨authority, mem_cons_self⟩)
  | error e =>
    obtain ⟨-, rfl⟩ := h
    exact .inl mem_cons_self

theorem Flight.Settles.resolved_looked (hstage : f.stage = .recovering)
    (hlo : .looked f.call marker ∈ later) : Resolved call marker (note :: later) := by
  cases result with
  | ok raw =>
    obtain ⟨-, authority, rfl⟩ := h
    exact .inr (.inr ⟨f.call, authority, mem_cons_of_mem _ hlo, mem_cons_self⟩)
  | error e =>
    obtain ⟨⟨⟨confirmation, hsn⟩, -⟩, -⟩ := h
    rw [hstage] at hsn
    cases hsn

end

namespace Realm.Owned

section

variable (h : w.Owned)

include h

theorem resolved (hnone : w.slot = none) : EachSent Resolved w.log := by
  refine h.sent.mono fun call marker later hse => ?_
  rcases hse with hres | ⟨hslot, -⟩
  · exact hres
  · rw [hnone] at hslot
    cases hslot

theorem idle (hslot : w'.slot = w.slot) (hlog : w'.log = w.log)
    (hflights : ∀ f' ∈ w'.flights, ∃ f ∈ w.flights, f.Same f') : w'.Owned := by
  refine ⟨fun f' hf' => ?_, ?_, fun f' hf' hstage hm => ?_, fun f' hf' hstage hm => ?_⟩
  · obtain ⟨f, hf, heq, -⟩ := hflights f' hf'
    rw [heq]
    exact h.reads f hf
  · rw [hslot, hlog]
    exact h.sent
  · obtain ⟨f, hf, heq, hiff⟩ := hflights f' hf'
    rw [heq] at hm ⊢
    rw [hlog]
    exact h.client f hf (hstage ∘ hiff.mpr) (hslot ▸ hm)
  · obtain ⟨f, hf, heq, hiff⟩ := hflights f' hf'
    rw [heq] at hm ⊢
    rw [hlog]
    exact h.recovery f hf (hiff.mp hstage) (hslot ▸ hm)

theorem stored {j : CommandJson} (hnone : w.slot = none) (hslot : w'.slot = some j.text)
    (hlog : w'.log = .persisted call j.text :: w.log) (hflights : w'.flights = w.flights)
    (hdi : ∀ f ∈ w.flights, f.marker ≠ j.text) : w'.Owned := by
  refine ⟨fun f hf => ?_, ?_, fun f hf hstage hm => ?_, fun f hf hstage hm => ?_⟩
  · exact h.reads f (hflights ▸ hf)
  · rw [hlog]
    exact (h.resolved hnone).cons nofun fun _ _ _ hres => .inl hres.cons
  · rw [hslot] at hm
    exact absurd (some.inj hm).symm (hdi f (hflights ▸ hf))
  · rw [hslot] at hm
    exact absurd (some.inj hm).symm (hdi f (hflights ▸ hf))

theorem sends {request} (hslot : w'.slot = some f.marker) (hhe : holder w.log = some (f.call, f.marker))
    (hsome : w.slot = some f.marker) (hlog : w'.log = .sent f.call f.marker request :: w.log) (hreads : f.Reads)
    (hstage : f.stage ≠ .recovering) (hdi : ∀ f' ∈ w.flights, f'.marker ≠ f.marker)
    (hflights : ∀ f' ∈ w'.flights, f' ∈ w.flights ∨ f' = f) : w'.Owned := by
  refine ⟨fun f' hf' => ?_, ?_, fun f' hf' hcli hm => ?_, fun f' hf' hre hm => ?_⟩
  · rcases hflights f' hf' with hold | rfl
    · exact h.reads f' hold
    · exact hreads
  · rw [hlog]
    refine h.sent.cons (fun call marker request' heq => ?_) fun call marker later hse => ?_
    · cases heq
      exact .inr ⟨hslot, hhe⟩
    · rcases hse with hres | ⟨hm, hh⟩
      · exact .inl hres.cons
      · exact .inr ⟨hslot.trans (hsome.symm.trans hm), hh⟩
  · rcases hflights f' hf' with hold | rfl
    · rw [hslot] at hm
      exact absurd (some.inj hm).symm (hdi f' hold)
    · rw [hlog]
      exact hhe
  · grind

theorem looks (hreads : f.Reads) (hstage : f.stage = .recovering) (hslot : w'.slot = w.slot)
    (hlog : w'.log = .looked f.call f.marker :: w.log) (hflights : ∀ f' ∈ w'.flights, f' ∈ w.flights ∨ f' = f) : w'.Owned := by
  have hhe : holder w'.log = holder w.log := by
    rw [hlog]
    rfl
  refine ⟨fun f' hf' => ?_, ?_, fun f' hf' hcli hm => ?_, fun f' hf' hre hm => ?_⟩
  · rcases hflights f' hf' with hold | rfl
    · exact h.reads f' hold
    · exact hreads
  · rw [hhe, hslot, hlog]
    exact h.sent.cons nofun fun _ _ _ hse => hse.imp_left Resolved.cons
  · grind [h.client]
  · rw [hlog]
    rcases hflights f' hf' with hold | rfl
    · refine (h.recovery f' hold hre (hslot ▸ hm)).cons nofun fun _ _ _ hse heq => ?_
      exact (hse heq).imp Resolved.cons (mem_cons_of_mem _)
    · refine h.sent.cons nofun fun call marker later _ heq => .inr ?_
      rw [heq]
      exact mem_cons_self

theorem settles (hsettles : f.Settles note result) (hslot : w'.slot = w.slot)
    (hlog : w'.log = note :: w.log) (hflights : ∀ f' ∈ w'.flights, f' ∈ w.flights) : w'.Owned := by
  have hhe : holder w'.log = holder w.log := by rw [hlog, hsettles.holder_cons]
  refine ⟨fun f' hf' => h.reads f' (hflights f' hf'), ?_, fun f' hf' hcli hm => ?_, fun f' hf' hre hm => ?_⟩
  · grind [h.sent.cons, hsettles.unsent, Resolved.cons]
  · rw [hhe]
    exact h.client f' (hflights f' hf') hcli (hslot ▸ hm)
  · rw [hlog]
    refine (h.recovery f' (hflights f' hf') hre (hslot ▸ hm)).cons
      (fun call marker request heq => absurd heq (hsettles.unsent call marker request)) fun _ _ _ hse heq => ?_
    exact (hse heq).imp Resolved.cons (mem_cons_of_mem _)

theorem removes (hmem : f ∈ w.flights) (hsettles : f.Settles note result)
    (hsome : w.slot = some f.marker) (hslot : w'.slot = none) (hlog : w'.log = .removed f.call f.marker :: note :: w.log)
    (hflights : ∀ f' ∈ w'.flights, f' ∈ w.flights) : w'.Owned := by
  have hrs : EachSent Resolved (note :: w.log) := by
    have huns : ∀ call marker request, note = .sent call marker request → Resolved call marker ([] : List (Note α)) :=
      fun call marker request heq => absurd heq (hsettles.unsent call marker request)
    by_cases hstage : f.stage = .recovering
    · refine EachSent.cons huns ?_ (fun later call marker request earlier hsp =>
        And.intro (h.sent later call marker request earlier hsp)
          (h.recovery f hmem hstage hsome later call marker request earlier hsp))
      rintro call marker later ⟨hres | ⟨hm, -⟩, hlo⟩
      · exact hres.cons
      · rcases hlo (some.inj (hm.symm.trans hsome)) with hres | hlo
        · exact hres.cons
        · exact hsettles.resolved_looked hstage hlo
    · refine h.sent.cons huns fun call marker later hse => ?_
      rcases hse with hres | ⟨-, hhe⟩
      · exact hres.cons
      · rw [h.client f hmem hstage hsome] at hhe
        cases hhe
        exact hsettles.resolved
  refine ⟨fun f' hf' => h.reads f' (hflights f' hf'), ?_, fun f' _ _ hm => ?_, fun f' _ _ hm => ?_⟩
  · rw [hlog]
    exact hrs.cons nofun fun _ _ _ hres => .inl hres.cons
  · rw [hslot] at hm
    cases hm
  · rw [hslot] at hm
    cases hm

end

end Realm.Owned

theorem Change.owned {e} (hch : Change w e w') (hdi : Distinct w e) (h : w.Owned) : w'.Owned := by
  cases hch with
  | idle hslot hlog hflights => exact h.idle hslot hlog hflights
  | stored hnone hprep hslot hlog hflights =>
    obtain ⟨decoded, readback, hde, hj, -⟩ := hprep
    exact h.stored hnone hslot hlog hflights (hdi hnone decoded _ hde hj).1
  | @sent setup value confirmation faults w' j input hnone hprep hslot hlog hflights =>
    obtain ⟨decoded, readback, hde, hj, hrd, -, hcl⟩ := hprep
    have hfr := (hdi hnone decoded j hde hj).1
    have hst : Owned { w with slot := some j.text, log := .persisted w.nextCall j.text :: w.log } :=
      h.stored hnone rfl rfl rfl hfr
    refine hst.sends hslot rfl rfl hlog ⟨j, readback, rfl, hrd, hcl⟩ ?_ hfr hflights
    nofun
  | looked hsome hreads hstage hslot hlog hflights => exact h.looks hreads hstage hslot hlog hflights
  | settled hfound hsettles hslot hlog hflights => exact h.settles hsettles hslot hlog hflights
  | removed hfound hsettles hsome hslot hlog hflights =>
    exact h.removes (mem_of_flight hfound) hsettles hsome hslot hlog hflights

theorem Realm.Owned.empty : (empty : Realm ε κ α).Owned where
  reads := nofun
  sent later _ _ _ _ h := by cases later <;> cases h
  client := nofun
  recovery := nofun

theorem historyReached_owned {key} {es : List (HistoryEvent ε κ α)} (h : Along (historyStep key) Distinct empty es) :
    (historyReached key es).Owned :=
  h.invariant (fun _ _ how hdi => (historyStep_change how.reads).owned hdi how) .empty

/-! ## 一歩の性質 -/

theorem Realm.Owned.keeps (h : w.Owned) : w.Keeps := h.sent.mono fun _ _ _ hse => hse.symm.imp_left And.left

theorem Change.sendsStored {e} (hch : Change w e w') (hdi : Distinct w e) : ∃ new, w'.log = new ++ w.log ∧
    ∀ call marker request, .sent call marker request ∈ new → w.slot = none ∧ w'.slot = some marker ∧
      holder w'.log = some (call, marker) ∧ ∃ j, marker = j.text ∧ request.stringify = some (some j) := by
  cases hch with
  | idle hslot hlog hflights => exact ⟨[], hlog, nofun⟩
  | stored hnone hprep hslot hlog hflights | looked hsome hreads hstage hslot hlog hflights => exact ⟨[_], hlog, by simp⟩
  | @sent setup value confirmation faults w' j input hnone hprep hslot hlog hflights =>
    obtain ⟨decoded, readback, hde, hj, hrd, hag, hcl⟩ := hprep
    refine ⟨[_, _], hlog, fun call marker request hmem => ?_⟩
    obtain ⟨rfl, rfl, rfl⟩ : call = w.nextCall ∧ marker = j.text ∧ request = input := by simpa using hmem
    refine ⟨hnone, hslot, by rw [hlog]; rfl, j, rfl, ?_⟩
    exact (hdi hnone decoded j hde hj).2 readback request hrd hcl hag
  | settled hfound hsettles hslot hlog hflights =>
    refine ⟨[_], hlog, fun call marker request hmem => ?_⟩
    exact absurd (mem_singleton.mp hmem).symm (hsettles.unsent call marker request)
  | removed hfound hsettles hsome hslot hlog hflights =>
    refine ⟨[_, _], hlog, fun call marker request hmem => ?_⟩
    rcases mem_cons.mp hmem with h | h
    · cases h
    · exact absurd (mem_singleton.mp h).symm (hsettles.unsent call marker request)

theorem Change.removesSettled {e} (hch : Change w e w') (h : w.Owned) (hsome : w.slot = some marker) (hgo : w'.slot ≠ some marker) :
    w'.slot = none ∧ ∃ call result faults f, e = .answer call result faults ∧ w.flight call = some f ∧
      f.marker = marker ∧ f.Reads ∧ (f.stage ≠ .recovering → holder w.log = some (f.call, marker)) ∧
      match result with
      | .ok raw => f.Accepts raw
      | .error e => f.Denies e := by
  cases hch with
  | idle hslot hlog hflights | looked _ hreads hstage hslot hlog hflights | settled hfound hsettles hslot hlog hflights => exact absurd (hslot.trans hsome) hgo
  | stored hnone hprep hslot hlog hflights | sent hnone hprep hslot hlog hflights =>
    rw [hnone] at hsome
    cases hsome
  | @removed call result faults w' f note hfound hsettles hma hslot hlog hflights =>
    have hmem := mem_of_flight hfound
    obtain rfl : f.marker = marker := some.inj (hma.symm.trans hsome)
    refine ⟨hslot, call, result, faults, f, rfl, hfound, rfl, h.reads f hmem, fun hcli => h.client f hmem hcli hsome, ?_⟩
    cases result with
    | ok raw | error e => exact hsettles.1

end Invariant

end Supacloud.Contracts
