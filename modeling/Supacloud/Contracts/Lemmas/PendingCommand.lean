import Supacloud.Contracts.PendingHistory

/-!
# 直列化の往復

JSON のデータだけからなる値は、書いて読むと元に戻り、複製しても変わらない。
-/

namespace Supacloud.Contracts

open Value CommandJson JsValue List Option

namespace CommandJson

mutual
theorem parse_stringify : ∀ j : CommandJson, j.parse.stringify = some (some j)
  | .null | .boolean _ | .number _ | .string _ => rfl
  | .array items => by simp [parse, stringify, parseItems_stringify items]
  | .object entries => by simp [parse, stringify, parseEntries_stringify entries]

theorem parseItems_stringify : ∀ js, stringifyItems (parseItems js) = some js
  | [] => rfl
  | j :: js => by simp [parseItems, stringifyItems, parse_stringify j, parseItems_stringify js]

theorem parseEntries_stringify : ∀ es : List (JsString × CommandJson), stringifyEntries (parseEntries es) = some es
  | [] => rfl
  | (k, j) :: es => by simp [parseEntries, stringifyEntries, parse_stringify j, parseEntries_stringify es]
end

mutual
theorem parse_clone : ∀ j : CommandJson, j.parse.structuredClone = some j.parse
  | .null | .boolean _ | .number _ | .string _ => rfl
  | .array items => by simp [parse, structuredClone, parseItems_clone items]
  | .object entries => by simp [parse, structuredClone, parseEntries_clone entries]

theorem parseItems_clone : ∀ js, cloneItems (parseItems js) = some (parseItems js)
  | [] => rfl
  | j :: js => by simp [parseItems, cloneItems, parse_clone j, parseItems_clone js]

theorem parseEntries_clone : ∀ es : List (JsString × CommandJson), cloneEntries (parseEntries es) = some (parseEntries es)
  | [] => rfl
  | (k, j) :: es => by simp [parseEntries, cloneEntries, parse_clone j, parseEntries_clone es]
end

end CommandJson

namespace Value

mutual
theorem parse_of_isData : ∀ {v d}, v.isData d = true → ∃ j : CommandJson, v = j.parse
  | .null, _, _ => ⟨.null, rfl⟩
  | .boolean b, _, _ => ⟨.boolean b, rfl⟩
  | .number n, _, _ => ⟨.number n, rfl⟩
  | .string s, _, _ => ⟨.string s, rfl⟩
  | .array _, _, h =>
    let ⟨js, hjs⟩ := parse_of_isDataItems h
    ⟨.array js, by rw [hjs, parse]⟩
  | .object _, _, h =>
    let ⟨es, hes⟩ := parse_of_isDataEntries h
    ⟨.object es, by rw [hes, parse]⟩

theorem parse_of_isDataItems : ∀ {vs d}, isDataItems vs d = true → ∃ js, vs = parseItems js
  | [], _, _ => ⟨[], rfl⟩
  | x :: xs, d + 1, h => by
      obtain ⟨hx, hxs⟩ := Bool.and_eq_true_iff.mp h
      obtain ⟨j, rfl⟩ := parse_of_isData hx
      obtain ⟨js, rfl⟩ := parse_of_isDataItems hxs
      exact ⟨j :: js, rfl⟩

theorem parse_of_isDataEntries : ∀ {vs d}, isDataEntries vs d = true →
    ∃ es : List (JsString × CommandJson), vs = parseEntries es
  | [], _, _ => ⟨[], rfl⟩
  | (k, x) :: xs, d + 1, h => by
      obtain ⟨hx, hxs⟩ := Bool.and_eq_true_iff.mp h
      obtain ⟨j, rfl⟩ := parse_of_isData hx
      obtain ⟨es, rfl⟩ := parse_of_isDataEntries hxs
      exact ⟨(k, j) :: es, rfl⟩
end

/-! ## 受け付ける値 -/

theorem visit_deep {v : JsValue} {d} (h : 100 < d) : v.visit d = none := by
  cases v <;> simp [visit, h]

theorem isSome_both {α β γ : Type} {a b} {f : α → β → γ} :
    (do let x ← a; let y ← b; return f x y : Option γ).isSome = (a.isSome && b.isSome) := by
  cases a <;> cases b <;> rfl

mutual
theorem visit_isSome : ∀ (v : Value) {d}, d ≤ 100 → (v.toJs.visit d).isSome = v.isData (100 - d)
  | .null, d, h | .boolean _, d, h | .number _, d, h | .string _, d, h => by
      simp [toJs, visit, isData, Nat.not_lt.mpr h]
  | .undefined, _, _ | .nonFinite, _, _ | .bigint, _, _ | .callable, _, _ | .ancestor, _, _ | .exotic .., _, _ => rfl
  | .array items, d, h => by
      simp only [toJs, visit, isData, gt_iff_lt, Nat.not_lt.mpr h, ↓reduceIte, isSome_map]
      exact visitItems_isSome items h
  | .object entries, d, h => by
      simp only [toJs, visit, isData, gt_iff_lt, Nat.not_lt.mpr h, ↓reduceIte, isSome_map]
      exact visitEntries_isSome entries h

theorem visitItems_isSome : ∀ (vs) {d}, d ≤ 100 → (visitItems (toJsItems vs) (d + 1)).isSome = isDataItems vs (100 - d)
  | [], _, _ => by simp [toJsItems, visitItems, isDataItems]
  | x :: xs, d, h => by
      simp only [toJsItems, visitItems, isSome_both]
      rcases Nat.lt_or_eq_of_le h with hlt | rfl
      · obtain ⟨n, hn⟩ : ∃ n, 100 - d = n + 1 := ⟨99 - d, by omega⟩
        rw [hn, isDataItems, ← hn, visitItems_isSome xs h, visit_isSome x hlt, show 100 - (d + 1) = n by omega]
      · rw [visit_deep (by decide)]
        rfl

theorem visitEntries_isSome : ∀ (vs) {d}, d ≤ 100 → (visitEntries (toJsEntries vs) (d + 1)).isSome = isDataEntries vs (100 - d)
  | [], _, _ => by simp [toJsEntries, visitEntries, isDataEntries]
  | (k, x) :: xs, d, h => by
      simp only [toJsEntries, visitEntries, isSome_both]
      rcases Nat.lt_or_eq_of_le h with hlt | rfl
      · obtain ⟨n, hn⟩ : ∃ n, 100 - d = n + 1 := ⟨99 - d, by omega⟩
        rw [hn, isDataEntries, ← hn, visitEntries_isSome xs h, visit_isSome x hlt, show 100 - (d + 1) = n by omega]
      · rw [visit_deep (by decide)]
        rfl
end

theorem canonicalCommandJson_isSome (v : Value) : (canonicalCommandJson v.toJs).isSome = v.isData 100 :=
  visit_isSome v (Nat.zero_le _)

theorem eq_parse {v : Value} {d j} (hd : v.isData d = true) (hj : v.stringify = some (some j)) : v = j.parse := by
  obtain ⟨j', rfl⟩ := parse_of_isData hd
  rw [parse_stringify] at hj
  cases hj
  rfl

/-! ## 複製の複製 -/

mutual
theorem clone_clone : ∀ {v w : Value}, v.structuredClone = some w → w.structuredClone = some w
  | .undefined, _, h | .null, _, h | .boolean _, _, h | .number _, _, h | .nonFinite, _, h | .string _, _, h | .bigint, _, h
  | .ancestor, _, h | .exotic _ _ .native, _, h => by
      cases h
      rfl
  | .callable, _, h | .exotic _ _ .refused, _, h => nomatch h
  | .array _, _, h => by
      obtain ⟨ys, hys, rfl⟩ := map_eq_some_iff.mp h
      simp [structuredClone, cloneItems_clone hys]
  | .object _, _, h | .exotic _ _ .plain, _, h => by
      obtain ⟨ys, hys, rfl⟩ := map_eq_some_iff.mp h
      simp [structuredClone, cloneEntries_clone hys]

theorem cloneItems_clone : ∀ {vs ws}, cloneItems vs = some ws → cloneItems ws = some ws
  | [], _, h => by
      cases h
      rfl
  | x :: xs, ws, h => by
      cases hx : x.structuredClone with
      | none => simp [cloneItems, hx] at h
      | some y =>
        cases hxs : cloneItems xs with
        | none => simp [cloneItems, hxs] at h
        | some ys =>
          obtain rfl : y :: ys = ws := by simpa [cloneItems, hx, hxs] using h
          simp [cloneItems, clone_clone hx, cloneItems_clone hxs]

theorem cloneEntries_clone : ∀ {vs ws}, cloneEntries vs = some ws → cloneEntries ws = some ws
  | [], _, h => by
      cases h
      rfl
  | (k, x) :: xs, ws, h => by
      cases hx : x.structuredClone with
      | none => simp [cloneEntries, hx] at h
      | some y =>
        cases hxs : cloneEntries xs with
        | none => simp [cloneEntries, hxs] at h
        | some ys =>
          obtain rfl : (k, y) :: ys = ws := by simpa [cloneEntries, hx, hxs] using h
          simp [cloneEntries, clone_clone hx, cloneEntries_clone hxs]
end

end Value

/-! ## 保留の印の作用 -/

variable {σ ε κ α β γ : Type} {P : Call → Prop}

variable {s : Session σ} {m : Pending σ ε β} {f : β → Pending σ ε γ}

theorem exec_bind_ok {s' x} (h : m.exec s = (.ok x, s')) : (m >>= f).exec s = (f x).exec s' := by
  simp only [Pending.exec] at h
  simp only [Pending.exec, bind, ExceptT.bind, ExceptT.mk, StateT.bind, h]
  rfl

variable {e : PendingFailure ε}

theorem exec_bind_error {s'} (h : m.exec s = (.error e, s')) : (m >>= f).exec s = (.error e, s') := by
  simp only [Pending.exec] at h
  simp only [Pending.exec, bind, ExceptT.bind, ExceptT.mk, StateT.bind, h]
  rfl

def Adds (P : Call → Prop) (m : Pending σ ε β) : Prop :=
  ∀ s, ∃ new, (m.exec s).2.calls = new ++ s.calls ∧ ∀ c ∈ new, P c

namespace Adds

theorem pure (x) : Adds P (Pure.pure x : Pending σ ε β) := fun _ => ⟨[], rfl, nofun⟩

theorem throw (e) : Adds P (MonadExcept.throw e : Pending σ ε β) := fun _ => ⟨[], rfl, nofun⟩

theorem throw_bind : Adds P (MonadExcept.throw e >>= f) := fun _ => ⟨[], rfl, nofun⟩

theorem bind (hm : Adds P m) (hf : ∀ x, Adds P (f x)) : Adds P (m >>= f) := by
  intro s
  obtain ⟨new, hnew, hP⟩ := hm s
  rcases hms : m.exec s with ⟨e | x, s'⟩
  · rw [exec_bind_error hms]
    rw [hms] at hnew
    exact ⟨new, hnew, hP⟩
  · rw [exec_bind_ok hms]
    rw [hms] at hnew
    obtain ⟨new', hne', hP'⟩ := hf x s'
    refine ⟨new' ++ new, ?_, fun c hc => (mem_append.mp hc).elim (hP' c) (hP c)⟩
    rw [append_assoc, ← hnew, hne']

theorem orThrow {o e} {f : β → Pending σ ε γ} (h : ∀ x, o = some x → Adds P (f x)) : Adds P (Contracts.orThrow e o >>= f) := by
  cases o with
  | none => exact fun _ => ⟨[], rfl, nofun⟩
  | some x => exact h x rfl

theorem record {call} (h : P call) : Adds P (Contracts.record call : Pending σ ε Unit) := fun s =>
  ⟨[call], rfl, fun c hc => by rwa [mem_singleton.mp hc]⟩

theorem getState : Adds P (MonadState.get : Pending σ ε (Session σ)) := fun _ => ⟨[], rfl, nofun⟩

theorem setWorld (world) : Adds P (modify fun s => { s with world } : Pending σ ε Unit) := fun _ => ⟨[], rfl, nofun⟩

theorem mem {c} (h : Adds P m) (hc : c ∈ (m.exec s).2.calls) : P c ∨ c ∈ s.calls := by
  obtain ⟨new, hnew, hP⟩ := h s
  rw [hnew, mem_append] at hc
  exact hc.imp_left (hP c)

theorem keeps {c} (h : Adds P m) (hc : c ∈ s.calls) : c ∈ (m.exec s).2.calls := by
  obtain ⟨new, hnew, -⟩ := h s
  rw [hnew]
  exact mem_append_right _ hc

theorem mem_bind {c} (hf : ∀ x, Adds P (f x)) (hc : c ∈ (m.exec s).2.calls) : c ∈ ((m >>= f).exec s).2.calls := by
  rcases hm : m.exec s with ⟨e | x, s'⟩
  · rw [exec_bind_error hm]
    rwa [hm] at hc
  · rw [exec_bind_ok hm]
    rw [hm] at hc
    exact (hf x).keeps hc

end Adds

/-! ## 部品の作用 -/

section Parts

variable {storage : CommandLockStorage σ} {key : JsString} {contract : AuthoritativeCommandContract κ α}
  {transport : AuthoritativeCommandTransport σ ε}

theorem get_adds : Adds P (storage.get key : Pending σ ε (Option Text)) :=
  .bind .getState fun s => by
    cases h : storage.getItem s.world key with
    | none => exact .throw _
    | some x => exact .pure x

theorem set_adds {text} (h : P (.persist text)) : Adds P (storage.set key text : Pending σ ε Unit) :=
  .bind .getState fun _ => .orThrow fun world _ => .bind (.setWorld world) fun _ => .record h

theorem remove_adds (h : P .remove) : Adds P (storage.remove key : Pending σ ε Unit) :=
  .bind .getState fun _ => .orThrow fun world _ => .bind (.setWorld world) fun _ => .record h

theorem clear_adds {serialized} (h : P .remove) : Adds P (clearPendingCommand storage key serialized : Pending σ ε Unit) := by
  refine .bind get_adds fun found => ?_
  split
  · refine .bind (remove_adds h) fun _ => .bind get_adds fun left => ?_
    split
    · exact .throw _
    · exact .pure _
  · exact .pure _

theorem callTransport_adds {call} {send : Value → σ → Except ε Value × σ} {request}
    (h : ∀ argument, request.structuredClone = some argument → P (call argument)) : Adds P (callTransport call send request) := by
  unfold callTransport
  split
  · exact .pure _
  · rename_i argument ha
    exact .bind (.record (h argument ha)) fun _ => .bind .getState fun s => .bind (.setWorld _) fun _ => .pure _

/-! ## 送る側 -/

def Stable (contract : AuthoritativeCommandContract κ α) (marker : Text) : Prop :=
  ∃ j readback, marker = j.text ∧ contract.input j.parse = some readback ∧ readback.stringify = some (some j)

def PersistsStable (contract : AuthoritativeCommandContract κ α) : Call → Prop
  | .persist marker => Stable contract marker
  | _ => True

theorem prepareMarker_adds {value} :
    Adds (PersistsStable contract) (prepareMarker contract storage key value : Pending σ ε (Text × Value)) := by
  refine .bind get_adds fun found => ?_
  cases found with
  | some existing => exact .orThrow fun _ _ => .orThrow fun _ _ => .throw _
  | none =>
    refine .orThrow fun decoded _ => .orThrow fun written _ => .orThrow fun j _ => .orThrow fun readback hre => ?_
    refine .orThrow fun again hag => ?_
    dsimp only
    split
    · exact .throw_bind
    · rename_i hsa
      have hj : again = some j := by simpa using hsa
      have hst : Stable contract j.text := ⟨j, readback, rfl, hre, hj ▸ hag⟩
      refine .orThrow fun input _ => .bind (set_adds hst) fun _ => .bind get_adds fun saved => ?_
      split
      · exact .throw _
      · exact .pure _

variable {confirmation : Confirmation}

theorem executeAuthoritative_adds {input} (hs : ∀ v, P (.send v)) (hl : ∀ v, P (.lookup v)) :
    Adds P (executeAuthoritative contract transport confirmation input) := by
  unfold executeAuthoritative
  split
  · exact .pure _
  · refine .bind (callTransport_adds fun v _ => hs v) fun response => ?_
    dsimp only
    split
    · exact .pure _
    · exact .pure _
    · refine .bind (callTransport_adds fun v _ => hl v) fun result => ?_
      cases result with
      | error cause => exact .pure _
      | ok raw =>
        dsimp only
        split
        · exact .pure _
        · exact .pure _

theorem executePending_adds {value} :
    Adds (PersistsStable contract) (executePending contract transport storage key confirmation value) := by
  refine .bind prepareMarker_adds fun (serialized, input) => .bind (executeAuthoritative_adds (fun _ => trivial) fun _ => trivial)
    fun outcome => ?_
  cases outcome with
  | denied cause => exact .bind (clear_adds trivial) fun _ => .throw _
  | confirmed authority => exact .bind (clear_adds trivial) fun _ => .pure _
  | unknown lookupFailure => exact .throw _

/-! ## 回復する側 -/

/-- 照会するのは、印を読み直した要求が深さ 100 までの JSON のデータのときだけである。 -/
def LooksUpData (contract : AuthoritativeCommandContract κ α) (marker : Text) : Call → Prop
  | .lookup _ => ∃ j readback, marker.tree = some j ∧ contract.input j.parse = some readback ∧ readback.isData 100 = true
  | _ => True

variable {marker : Text}

theorem settleRecovery_adds {input} {result : Except (Cause ε) Value} (h : P .remove) :
    Adds P (settleRecovery contract storage key marker input result) := by
  cases result with
  | error cause => exact .throw _
  | ok raw =>
    unfold settleRecovery
    dsimp only
    split
    · exact .bind (clear_adds h) fun _ => .pure _
    · exact .throw _

theorem recoverMarker_adds : Adds (LooksUpData contract marker) (recoverMarker contract transport storage key marker) := by
  refine .orThrow fun parsed hpa => .orThrow fun persisted _ => .orThrow fun readback hre => .orThrow fun again hag => ?_
  dsimp only
  split
  · exact .throw_bind
  · obtain ⟨j, hj, rfl⟩ := map_eq_some_iff.mp hpa
    have hda : readback.isData 100 = true := by
      rw [← canonicalCommandJson_isSome, hag]
      rfl
    exact .orThrow fun input _ => .bind (callTransport_adds fun _ _ => ⟨j, readback, hj, hre, hda⟩) fun _ =>
      settleRecovery_adds trivial

theorem lookupCopy_calls {v} (hcl : v.structuredClone = some v) : .lookup v ∈ ((transport.lookupCopy v).exec s).2.calls := by
  simp only [AuthoritativeCommandTransport.lookupCopy, callTransport, hcl]
  refine Adds.mem_bind (P := fun _ => True) (fun _ => .bind .getState fun _ => .bind (.setWorld _) fun _ => .pure _) ?_
  exact mem_cons_self

theorem recoverMarker_lookup {j : CommandJson} (hre : contract.input j.parse = some j.parse) (hda : j.parse.isData 100 = true) :
    .lookup j.parse ∈ ((recoverMarker contract transport storage key j.text).exec s).2.calls := by
  obtain ⟨persisted, hp⟩ := isSome_iff_exists.mp ((canonicalCommandJson_isSome j.parse).trans hda)
  have hca : .lookup j.parse ∈ ((transport.lookupCopy j.parse).exec s).2.calls := lookupCopy_calls j.parse_clone
  have hrs : ∀ result, Adds (fun _ => True) (settleRecovery contract storage key j.text j.parse result :
      Pending σ ε (Value × α)) := fun _ => settleRecovery_adds trivial
  have hbo := Adds.mem_bind hrs hca
  unfold recoverMarker
  simpa [text, orThrow, hp, hre, j.parse_clone] using hbo

theorem recover_exec (hm : storage.getItem s.world key = some (some marker)) :
    ((recover contract transport storage key).exec s).2 = ((recoverMarker contract transport storage key marker).exec s).2 := by
  have hget : (storage.get key : Pending σ ε (Option Text)).exec s = (.ok (some marker), s) := by
    have hs : (MonadState.get : Pending σ ε (Session σ)).exec s = (.ok s, s) := rfl
    unfold CommandLockStorage.get
    rw [exec_bind_ok hs, hm]
    rfl
  unfold recover
  rw [exec_bind_ok hget]
  rcases h : (recoverMarker contract transport storage key marker).exec s with ⟨e | x, s'⟩
  · exact congrArg Prod.snd (exec_bind_error h)
  · exact congrArg Prod.snd (exec_bind_ok h)

end Parts

end Supacloud.Contracts
