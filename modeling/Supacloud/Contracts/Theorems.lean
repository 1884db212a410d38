import Supacloud.Contracts.Lemmas.PendingHistory

/-!
# 保留の印の回復と履歴
-/

namespace Supacloud.Contracts

open Library List

variable {σ ε κ α : Type}

/-- 送って保存した印の通りの要求を回復が照会するのは、印の要求が深さ 100 までの JSON のデータのとき、そのときに限る。 -/
theorem marker_recoverable_iff {contract : AuthoritativeCommandContract κ α} {transport transport' : AuthoritativeCommandTransport σ ε}
    {storage : CommandLockStorage σ} {key : JsString} {confirmation : Confirmation} {client : Value → Pending σ ε α}
    (hclient : createPendingCommandClient contract transport storage key confirmation = some client) {value : Value} {world world' : σ}
    {marker : Text} (hpersist : .persist marker ∈ ((client value).exec ⟨world, []⟩).2.calls)
    (hsend : ∃ request, .send request ∈ ((client value).exec ⟨world, []⟩).2.calls)
    (hstored : storage.getItem world' key = some (some marker)) :
    (∃ recovery, createPendingCommandRecovery contract transport' storage key = some recovery ∧
      ∃ input, .lookup input ∈ (recovery.exec ⟨world', []⟩).2.calls ∧
        input.stringify.map (Option.map CommandJson.text) = some (some marker)) ↔
    ∀ j readback, marker.tree = some j → contract.input j.parse = some readback → readback.isData 100 = true := by
  unfold createPendingCommandClient at hclient
  split at hclient
  · cases hclient
  rename_i hkey
  cases hclient
  obtain ⟨j, readback, rfl, hre, hwr⟩ : Stable contract marker := (executePending_adds.mem hpersist).resolve_right not_mem_nil
  have hrc : createPendingCommandRecovery contract transport' storage key = some (recover contract transport' storage key) :=
    if_neg hkey
  constructor
  · rintro ⟨recovery, hr, input, hlo, -⟩ j' readback' hj' hre'
    rw [hrc] at hr
    cases hr
    rw [recover_exec hstored] at hlo
    obtain ⟨j₁, readback₁, hj₁, hre₁, hda⟩ := (recoverMarker_adds.mem hlo).resolve_right not_mem_nil
    rw [hj₁] at hj'
    cases hj'
    rw [hre₁] at hre'
    cases hre'
    exact hda
  · intro h
    have hda := h j readback rfl hre
    cases Value.eq_parse hda hwr
    refine ⟨_, hrc, j.parse, ?_, by rw [hwr]; rfl⟩
    rw [recover_exec hstored]
    exact recoverMarker_lookup hre hda

/-! ## 例 -/

def slotStorage : CommandLockStorage (Option Text) where
  getItem := fun s _ => some s
  setItem := fun _ _ text => some (some text)
  removeItem := fun _ _ => some none

def lostTransport : AuthoritativeCommandTransport (Option Text) Unit where
  send := fun _ s => (.error (), s)
  lookup := fun _ s => (.error (), s)
  isDefinitiveWriteFailure := none

def contractOf (input : Value → Option Value) : AuthoritativeCommandContract Unit Unit where
  input
  acknowledgement := fun _ => none
  authority := fun _ => none
  lookupAuthority := none
  responseAuthority := none
  accepts := fun _ _ => none

def idKey : JsString := [105, 100]

def noteKey : JsString := [110, 111, 116, 101]

def decodeId : Value → Option Value
  | .object ((k, .string s) :: _) => if k = idKey then some (.object [(idKey, .string s)]) else none
  | _ => none

def decodeOptional : Value → Option Value
  | .object ((k, .string s) :: _) =>
    if k = idKey then some (.object [(idKey, .string s), (noteKey, .undefined)]) else none
  | _ => none

def sampleValue : Value := .object [(idKey, .string [120])]

def sampleMarker : Text := (CommandJson.object [(idKey, .string [120])]).text

def sampleClient (input : Value → Option Value) : Value → Pending (Option Text) Unit Unit :=
  executePending (contractOf input) lostTransport slotStorage idKey .lookup

theorem sampleClient_calls :
    ((sampleClient decodeId sampleValue).exec ⟨none, []⟩).2.calls = [.lookup sampleValue, .send sampleValue, .persist sampleMarker] :=
  rfl

theorem marker_recoverable_sample :
    (∃ recovery, createPendingCommandRecovery (contractOf decodeId) lostTransport slotStorage idKey = some recovery ∧
      ∃ input, .lookup input ∈ (recovery.exec ⟨some sampleMarker, []⟩).2.calls ∧
        input.stringify.map (Option.map CommandJson.text) = some (some sampleMarker)) := by
  have hclient : createPendingCommandClient (contractOf decodeId) lostTransport slotStorage idKey .lookup = some (sampleClient decodeId) :=
    rfl
  have hpersist : .persist sampleMarker ∈ ((sampleClient decodeId sampleValue).exec ⟨none, []⟩).2.calls := by
    rw [sampleClient_calls]
    simp
  have hsend : ∃ request, .send request ∈ ((sampleClient decodeId sampleValue).exec ⟨none, []⟩).2.calls := by
    rw [sampleClient_calls]
    exact ⟨sampleValue, by simp⟩
  refine (marker_recoverable_iff hclient hpersist hsend rfl).mpr fun j readback hj hre => ?_
  cases hj
  cases hre
  rfl

/-- `undefined` の項目を持つ要求は、印を保存して送るが、回復は照会の前に投げる。 -/
theorem optional_marker_refused : .persist sampleMarker ∈ ((sampleClient decodeOptional sampleValue).exec ⟨none, []⟩).2.calls ∧
      (∃ request, .send request ∈ ((sampleClient decodeOptional sampleValue).exec ⟨none, []⟩).2.calls) ∧
      ((sampleClient decodeOptional sampleValue).exec ⟨none, []⟩).2.world = some sampleMarker ∧
      (recover (contractOf decodeOptional) lostTransport slotStorage idKey).exec ⟨some sampleMarker, []⟩ =
        (.error .invalidJson, ⟨some sampleMarker, []⟩) :=
  ⟨mem_cons_of_mem _ (mem_cons_of_mem _ mem_cons_self), ⟨_, mem_cons_of_mem _ mem_cons_self⟩, rfl, rfl⟩

/-! ## 印の履歴 -/

/-- 同じ文字列の印が重ならない走行では、送った印は結果が確かになるまで保存され、それを確かめた呼び出しだけが消す。 -/
theorem marker_kept_until_settled {key : JsString} {es : List (HistoryEvent ε κ α)}
    (h : Along (historyStep key) Distinct Realm.empty es) : (historyReached key es).Keeps ∧ ∀ before e after, es = before ++ e :: after →
      SendsStored key (historyReached key before) e ∧ RemovesSettled key (historyReached key before) e := by
  refine ⟨(historyReached_owned h).keeps, fun before e after hsp => ?_⟩
  rw [hsp, Along.append] at h
  have how := historyReached_owned h.1
  have hch : Change (historyReached key before) e (historyStep key (historyReached key before) e) := historyStep_change how.reads
  exact ⟨hch.sendsStored h.2.1, fun marker hso hgo => hch.removesSettled how hso hgo⟩

def agreeingSetup (input : Value → Option Value) : Setup Unit Unit Unit where
  contract := { contractOf input with authority := fun _ => some (), accepts := fun _ _ => some true }
  classify := none

def reloadedCalls : List (HistoryEvent Unit Unit Unit) :=
  [.call (agreeingSetup decodeId) sampleValue .lookup [], .reload, .recover (agreeingSetup decodeId) [], .answer 1 (.ok .null) [],
    .call (agreeingSetup decodeId) sampleValue .lookup []]

theorem marker_kept_after_reload : (historyReached idKey reloadedCalls).Keeps ∧
    (historyReached idKey reloadedCalls).slot = some sampleMarker ∧ ∀ before e after, reloadedCalls = before ++ e :: after →
      SendsStored idKey (historyReached idKey before) e ∧ RemovesSettled idKey (historyReached idKey before) e := by
  have hsa : ∀ w : Realm Unit Unit Unit, w.flights = [] → Distinct w (.call (agreeingSetup decodeId) sampleValue .lookup []) := by
    intro w hem _ decoded j hde hj
    cases hde
    cases hj
    refine ⟨by simp [hem], fun readback input hre hcl _ => ?_⟩
    cases hre
    cases hcl
    rfl
  have hal : Along (historyStep idKey) Distinct Realm.empty reloadedCalls :=
    ⟨hsa _ rfl, trivial, trivial, trivial, hsa _ rfl, trivial⟩
  obtain ⟨hkes, hsts⟩ := marker_kept_until_settled hal
  exact ⟨hkes, rfl, hsts⟩

def overlappingCalls : List (HistoryEvent Unit Unit Unit) :=
  [.call (agreeingSetup decodeId) sampleValue .lookup [], .recover (agreeingSetup decodeId) [], .answer 1 (.ok .null) [],
    .call (agreeingSetup decodeId) sampleValue .lookup [], .answer 0 (.ok .null) [], .answer 0 (.ok .null) []]

def decodeInstance : Value → Option Value
  | .object ((k, .string s) :: _) =>
    if k = idKey then some (.exotic [(noteKey, .string s)] (some (.object [(idKey, .string s)])) .plain) else none
  | _ => none

theorem overlapping_marker_lost : ¬ (historyReached idKey overlappingCalls).Keeps ∧
    ((historyReached idKey overlappingCalls).flight 2).isSome ∧
    ¬ SendsStored idKey Realm.empty (.call (agreeingSetup decodeInstance) sampleValue .lookup []) := by
  refine ⟨fun h => ?_, rfl, ?_⟩
  · have hlog : (historyReached idKey overlappingCalls).log = [.removed 0 sampleMarker, .confirmed 0 ()] ++
        .sent 2 sampleMarker sampleValue :: [.persisted 2 sampleMarker, .removed 1 sampleMarker, .confirmed 1 (), .looked 1 sampleMarker,
          .sent 0 sampleMarker sampleValue, .persisted 0 sampleMarker] := rfl
    rcases h _ _ _ _ _ hlog with hsl | hres
    · cases hsl
    · simp [Resolved] at hres
  · rintro ⟨new, hlog, hse⟩
    have hnew : new = [.sent 0 sampleMarker (.object [(noteKey, .string [120])]), .persisted 0 sampleMarker] :=
      (append_nil new).symm.trans hlog.symm
    obtain ⟨-, -, -, j, hj, hrq⟩ := hse 0 sampleMarker (.object [(noteKey, .string [120])]) (by simp [hnew])
    cases hrq
    cases hj

end Supacloud.Contracts
