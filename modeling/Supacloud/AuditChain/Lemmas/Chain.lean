import Supacloud.AuditChain.Chain
import Supacloud.AuditChain.Lemmas.Canonical
import Mathlib.Data.List.Induction

/-!
# 鎖の不変条件
-/

namespace Supacloud.AuditChain

open Library Contracts.CommandJson List Option

open Contracts (JsString)

open Vectors (js)

variable {platform : Platform} {w : World} {rows : List AuditChainRow} {row stored : AuditChainRow} {projectRef : ProjectRef}
  {input : AppendAuditEventInput} {id : JsString} {createdAt : Timestamp} {checkpoint : Option AuditCheckpoint} {ref : JsString}
  {w' : World}

variable {entries : List (JsString × Json)}

/-! ## 書いた行の要約 -/

theorem auditEventHash_roundTrip (hpl : platform.Lawful) (hme : row.metadata = .object entries) (hdi : Distinct row.metadata)
    (hset : AllSettled platform row.metadata) :
    auditEventHash platform { row with metadata := roundTrip row.metadata } = auditEventHash platform row := by
  have hva : canonicalize platform (auditMetadata (roundTrip row.metadata)) = canonicalize platform (auditMetadata row.metadata) := by
    have heq := canonicalize_roundTrip hpl row.metadata hdi hset
    rw [hme] at heq ⊢
    exact heq
  rw [auditEventHash, auditEventHash, canonicalEvent, canonicalEvent, canonicalize, canonicalize]
  simp [canonicalizeEntries, hva]

theorem storeRow_inv (h : storeRow row = some stored) (hac : Kept storeText row.actor) (hacT : Kept storeText row.actorType)
    (hact : Kept storeText row.action) (hmt : Kept (storeVarchar 16) row.method) (hpa : Kept storeText row.path)
    (hre : Kept storeText row.requestId) (hso : Kept storeText row.source) :
    stored = { row with metadata := roundTrip row.metadata } := by
  simp only [storeRow, Option.bind_eq_bind, Option.bind_eq_some_iff, Option.pure_def, Option.some.injEq] at h
  obtain ⟨actor, h₁, actorType, h₂, action, h₃, method, h₄, path, h₅, requestId, h₆, source, h₇, metadata, h₈, rfl⟩ := h
  rw [storeJsonb] at h₈
  split at h₈
  · cases h₈
    rw [hac _ h₁, hacT _ h₂, hact _ h₃, hmt _ h₄, hpa _ h₅, hre _ h₆, hso _ h₇]
  · cases h₈

theorem storeRow_keeps (h : storeRow row = some stored) : stored.projectRef = row.projectRef := by
  simp only [storeRow, Option.bind_eq_bind, Option.bind_eq_some_iff, Option.pure_def, Option.some.injEq] at h
  obtain ⟨actor, -, actorType, -, action, -, method, -, path, -, requestId, -, source, -, metadata, -, rfl⟩ := h
  rfl

theorem kept_of_store {store s} (h : store s = some s) : Kept store s :=
  fun _ ht => (some.inj (h.symm.trans ht)).symm

theorem kept_default : Kept storeText (js "management-api") := kept_of_store (by decide)

theorem kept_source (h : ∀ source ∈ input.source, Kept storeText source) :
    Kept storeText ((input.source.filter (· ≠ [])).getD (js "management-api")) := by
  cases hso : input.source with
  | none => exact kept_default
  | some source =>
    rw [filter_some]
    by_cases hem : source = []
    · simpa [hem] using kept_default
    · simpa [hem] using h source hso

/-! ## 鎖 -/

structure Chain (platform : Platform) (rows : List AuditChainRow) : Prop where
  hashes : hashedEventFailure platform rows 0 none = none
  hashed : ∀ row ∈ rows, row.hashed = true
  bounded : ∀ row ∈ rows, ∃ n : Nat, row.chainSequence = some (n : Int) ∧ n ≤ rows.length
  increasing : rows.Pairwise fun a b => a.chainSequence.getD 0 < b.chainSequence.getD 0

theorem chain_nil : Chain platform [] := ⟨rfl, nofun, nofun, List.Pairwise.nil⟩

theorem hashedEventFailure_append {index previousHash} (h : hashedEventFailure platform rows index previousHash = none)
    (hrow : eventMismatchReason platform row (index + rows.length + 1) (rows.getLast?.elim previousHash AuditChainRow.eventHash) = none) :
    hashedEventFailure platform (rows ++ [row]) index previousHash = none := by
  induction rows generalizing index previousHash with
  | nil => grind [hashedEventFailure]
  | cons first rows ih =>
    rw [cons_append, hashedEventFailure] at *
    cases hfr : eventMismatchReason platform first (index + 1) previousHash with
    | some reason => rw [hfr] at h; cases h
    | none => grind

theorem Chain.append (h : Chain platform rows) (hse : row.chainSequence = some ((rows.length + 1 : Nat) : Int))
    (hprs : row.previousHash = rows.getLast?.bind AuditChainRow.eventHash) (hha : row.eventHash = some (auditEventHash platform row))
    (hpl : platform.Lawful) : Chain platform (rows ++ [row]) := by
  refine ⟨hashedEventFailure_append h.hashes ?_, ?_, ?_, ?_⟩
  · grind [eventMismatchReason]
  · grind [h.hashed, hpl.sha256_ne_nil, AuditChainRow.hashed, auditEventHash]
  · grind [h.bounded]
  · grind [h.increasing, h.bounded]

def Head (projectRef : JsString) (rows : List AuditChainRow) (checkpoint : Option AuditCheckpoint) : Prop :=
  checkpoint = rows.getLast?.map fun last =>
    { projectRef, lastEventId := some last.id, lastEventHash := last.eventHash, eventCount := rows.length }

theorem checkpointFailure_none (hhe : Head ref rows checkpoint) : checkpointFailure rows checkpoint = none := by
  rw [Head] at hhe
  cases hla : rows.getLast? with
  | none =>
    rw [getLast?_eq_none_iff] at hla
    simp [hhe, hla, checkpointFailure]
  | some last => simp [hhe, hla, checkpointFailure]

theorem verify_chain (h : Chain platform rows) (hhe : Head ref rows checkpoint) :
    (verifyAuditChain platform (rows.insertionSort byRow) checkpoint).status = .verified := by
  have hro : rows.insertionSort byRow = rows := by
    refine List.Pairwise.insertionSort_eq (h.increasing.imp_of_mem fun {a b} ha hb hlt => ?_)
    obtain ⟨m, hm, -⟩ := h.bounded a ha
    obtain ⟨n, hn, -⟩ := h.bounded b hb
    rw [hm, hn] at hlt
    rw [byRow, hm, hn]
    exact .inl hlt
  have hhs : rows.filter AuditChainRow.hashed = rows := filter_eq_self.mpr h.hashed
  have hlg : (rows.filter fun row => !row.hashed) = [] :=
    filter_eq_nil_iff.mpr fun row hrow => by simp [h.hashed row hrow]
  have hsr : rows.insertionSort bySequence = rows :=
    List.Pairwise.insertionSort_eq (h.increasing.imp fun hlt => Int.le_of_lt hlt)
  rw [hro, verifyAuditChain, hhs, hlg, hsr, h.hashes, checkpointFailure_none hhe]
  rfl

/-! ## 追記の一歩 -/

def World.rowsOf (w : World) (ref : JsString) : List AuditChainRow := w.rows.filter fun row => row.projectRef = some ref

structure World.Linked (platform : Platform) (ref : JsString) (w : World) : Prop where
  chain : Chain platform (w.rowsOf ref)
  head : Head ref (w.rowsOf ref) (w.checkpoint ref)

theorem linked_empty : World.empty.Linked platform ref := ⟨chain_nil, rfl⟩

theorem append_inv (h : appendAuditEventInTransaction platform w input id createdAt = some w') :
    ∃ stored, storeRow (prepareAuditRow platform input (prepareAuditAppend platform input id)
        (w.checkpoint (prepareAuditAppend platform input id).projectChainKey) createdAt) = some stored ∧
      w' = advanceAuditCheckpoint { w with rows := w.rows ++ [stored] } (prepareAuditAppend platform input id)
        (prepareAuditRow platform input (prepareAuditAppend platform input id)
          (w.checkpoint (prepareAuditAppend platform input id).projectChainKey) createdAt) := by
  simp only [appendAuditEventInTransaction, Option.bind_eq_bind, Option.bind_eq_some_iff, Option.pure_def, Option.some.injEq] at h
  obtain ⟨inserted, hins, rfl⟩ := h
  rw [insertAuditRow] at hins
  split at hins
  · cases hins
  · simp only [Option.bind_eq_bind, Option.bind_eq_some_iff, Option.pure_def, Option.some.injEq] at hins
    obtain ⟨stored, hst, rfl⟩ := hins
    exact ⟨stored, hst, rfl⟩

theorem checkpoint_advance {append} : (advanceAuditCheckpoint w append row).checkpoint ref =
      if append.projectChainKey = ref then
        some { projectRef := ref, lastEventId := some append.id, lastEventHash := row.eventHash, eventCount := (row.chainSequence.getD 0).toNat }
      else w.checkpoint ref := by
  rw [World.checkpoint, advanceAuditCheckpoint, find?_cons]
  by_cases hkey : append.projectChainKey = ref
  · simp [hkey]
  · have hfi : ∀ l : List AuditCheckpoint, (l.filter fun c => c.projectRef ≠ append.projectChainKey).find?
        (fun c => c.projectRef = ref) = l.find? fun c => c.projectRef = ref := by
      intro l
      induction l with
      | nil => rfl
      | cons c l ih => grind
    simp only [hkey, decide_false, hfi]
    rfl

theorem World.Linked.append_other (h : w.Linked platform ref) (hot : input.projectRef.map ProjectRef.value ≠ some ref)
    (hkey : (prepareAuditAppend platform input id).projectChainKey ≠ ref)
    (hap : appendAuditEventInTransaction platform w input id createdAt = some w') : w'.Linked platform ref := by
  obtain ⟨stored, hst, rfl⟩ := append_inv hap
  have hro : ∀ (append) (row), (advanceAuditCheckpoint { w with rows := w.rows ++ [stored] } append row).rowsOf ref = w.rowsOf ref := by
    intro append row
    have hpro : stored.projectRef ≠ some ref := by
      rw [storeRow_keeps hst]
      exact hot
    simp [World.rowsOf, advanceAuditCheckpoint, hpro]
  refine ⟨?_, ?_⟩
  · rw [hro]
    exact h.chain
  · rw [hro, checkpoint_advance, if_neg hkey]
    exact h.head

theorem World.Linked.append (hpl : platform.Lawful) (h : w.Linked platform ref)
    (hpro : input.projectRef.map ProjectRef.value = some ref) (hfa : input.Faithful platform)
    (hap : appendAuditEventInTransaction platform w input id createdAt = some w') : w'.Linked platform ref := by
  have hkey : (prepareAuditAppend platform input id).projectChainKey = ref := by
    cases hinp : input.projectRef with
    | none =>
      rw [hinp] at hpro
      cases hpro
    | some project =>
      rw [hinp] at hpro
      simpa [prepareAuditAppend, hinp] using hpro
  obtain ⟨stored, hst, rfl⟩ := append_inv hap
  rw [hkey] at hst ⊢
  generalize hrow : prepareAuditRow platform input (prepareAuditAppend platform input id) (w.checkpoint ref) createdAt = row at hst ⊢
  have hme : Distinct row.metadata ∧ AllSettled platform row.metadata := by
    rw [← hrow]
    refine ⟨distinct_redact _ (input.metadata.getD Metadata.empty).distinct, settled_redact _ ?_⟩
    cases hinp : input.metadata with
    | none => exact ⟨List.Pairwise.nil, trivial⟩
    | some metadata => exact hfa.metadata metadata (by simp [hinp])
  have heq : stored = { row with metadata := roundTrip row.metadata } := by
    refine storeRow_inv hst ?_ ?_ ?_ ?_ ?_ ?_ ?_
    all_goals rw [← hrow]
    · exact hfa.actor
    · exact hfa.actorType
    · exact hfa.action
    · exact hfa.method
    · exact hfa.path
    · exact hfa.requestId
    · exact kept_source hfa.source
  have hha : row.eventHash = some (auditEventHash platform stored) := by
    rw [heq, auditEventHash_roundTrip hpl (by rw [← hrow]; rfl) hme.1 hme.2, ← hrow]
    rfl
  have hcn : (w.checkpoint ref).elim 0 AuditCheckpoint.eventCount = (w.rowsOf ref).length ∧
      (w.checkpoint ref).bind AuditCheckpoint.lastEventHash = (w.rowsOf ref).getLast?.bind AuditChainRow.eventHash := by
    rw [h.head]
    cases hla : (w.rowsOf ref).getLast? with
    | none =>
      rw [getLast?_eq_none_iff] at hla
      simp [hla]
    | some last => exact ⟨rfl, rfl⟩
  have hse : row.chainSequence = some (((w.rowsOf ref).length + 1 : Nat) : Int) := by
    rw [← hcn.1, ← hrow]
    rfl
  have hprs : row.previousHash = (w.rowsOf ref).getLast?.bind AuditChainRow.eventHash := by
    rw [← hcn.2, ← hrow]
    rfl
  have hro : (advanceAuditCheckpoint { w with rows := w.rows ++ [stored] } (prepareAuditAppend platform input id) row).rowsOf ref =
      w.rowsOf ref ++ [stored] := by
    have hmi : stored.projectRef = some ref := by
      rw [storeRow_keeps hst, ← hrow]
      exact hpro
    simp [World.rowsOf, advanceAuditCheckpoint, hmi]
  refine ⟨?_, ?_⟩
  · grind [h.chain.append]
  · rw [hro, Head, checkpoint_advance, if_pos hkey, getLast?_concat, map_some, hse]
    have hid : (prepareAuditAppend platform input id).id = stored.id := by
      rw [heq, ← hrow]
      rfl
    have hev : stored.eventHash = row.eventHash := by rw [heq]
    rw [hid, hev, length_append]
    rfl

theorem chainKey_ne (hot : input.projectRef.map ProjectRef.value ≠ some projectRef.value) :
    (prepareAuditAppend platform input id).projectChainKey ≠ projectRef.value := by
  cases hinp : input.projectRef with
  | none =>
    intro hkey
    have hplK : (prepareAuditAppend platform input id).projectChainKey = platformChainKey := by
      rw [prepareAuditAppend, hinp]
      rfl
    have hle := projectRef.length
    rw [← hkey, hplK] at hle
    exact absurd hle (by decide)
  | some project => grind [prepareAuditAppend]

theorem World.Linked.step (hpl : platform.Lawful) {e} (h : w.Linked platform projectRef.value)
    (haps : Appends platform projectRef w e) : (step platform w e).Linked platform projectRef.value := by
  rw [AuditChain.step]
  cases hco : e.commit with
  | false => exact h
  | true =>
    cases hap : appendAuditEventInTransaction platform w e.input e.id e.createdAt with
    | none => exact h
    | some w' =>
      by_cases hpro : e.input.projectRef.map ProjectRef.value = some projectRef.value
      · exact h.append hpl hpro (haps hco hpro) hap
      · exact h.append_other hpro (chainKey_ne hpro) hap

theorem linked_run (hpl : platform.Lawful) {events} (h : Along (AuditChain.step platform) (Appends platform projectRef) .empty events) :
    (run (AuditChain.step platform) .empty events).Linked platform projectRef.value :=
  h.invariant (fun _ _ hln haps => hln.step hpl haps) linked_empty

theorem verify_linked (h : w.Linked platform projectRef.value) : (verifyProjectAuditIntegrity platform w projectRef).status = .verified :=
  verify_chain h.chain h.head

/-! ## 検査を通る列は、作られた鎖に一致する -/

open Contracts (JsString)

open Vectors (js)

variable {platform : Platform}

mutual
theorem same_canonicalize : ∀ value, SameJson (canonicalize platform value) value
  | .array items => by
      rw [canonicalize]
      exact same_canonicalizeItems [] items
  | .object entries => by
      rw [canonicalize]
      refine .trans (.order (enumerate_perm.trans (perm_insertionSort (byLocale platform) _))) ?_
      exact same_canonicalizeEntries [] entries
  | .null => .refl _
  | .boolean _ => .refl _
  | .number _ => .refl _
  | .string _ => .refl _

theorem same_canonicalizeItems : ∀ front items : List Json,
    SameJson (.array (front ++ canonicalizeItems platform items)) (.array (front ++ items))
  | _, [] => .refl _
  | front, item :: items => by
      rw [canonicalizeItems]
      refine .trans (.item front _ (same_canonicalize item)) ?_
      have hrs := same_canonicalizeItems (front ++ [item]) items
      rwa [append_assoc, append_assoc] at hrs

theorem same_canonicalizeEntries : ∀ front entries : List (JsString × Json),
    SameJson (.object (front ++ canonicalizeEntries platform entries)) (.object (front ++ entries))
  | _, [] => .refl _
  | front, (key, value) :: entries => by
      rw [canonicalizeEntries]
      refine .trans (.entry key front _ (same_canonicalize value)) ?_
      have hrs := same_canonicalizeEntries (front ++ [(key, value)]) entries
      rwa [append_assoc, append_assoc] at hrs
end

theorem same_of_canonicalize {a b} (h : canonicalize platform a = canonicalize platform b) : SameJson a b :=
  .trans (.symm (same_canonicalize a)) (h ▸ same_canonicalize b)

/-! ## 要約の等しい行 -/

theorem eq_of_perm_keys {a b : List (JsString × Json)} (hpe : a.Perm b) (hke : a.map Prod.fst = b.map Prod.fst)
    (hn : (b.map Prod.fst).Nodup) : a = b := by
  refine ext_getElem hpe.length_eq fun i hi hj => ?_
  have hkey : a[i].1 = b[i].1 := by
    have hat := congrArg (fun keys => keys[i]?) hke
    simpa [hi, hj] using hat
  exact inj_on_of_nodup_map hn (hpe.mem_iff.mp (getElem_mem hi)) (getElem_mem hj) hkey

theorem nullable_injective {a b} (h : canonicalize platform (nullable a) = canonicalize platform (nullable b)) : a = b := by
  cases a with
  | none =>
    cases b with
    | none => rfl
    | some t => cases h
  | some s =>
    cases b with
    | none => cases h
    | some t => exact congrArg some (string.inj h)

theorem status_injective {a b : Option Int}
    (h : canonicalize platform (a.elim .null fun status => .number status) = canonicalize platform (b.elim .null fun status => .number status)) :
    a = b := by
  cases a with
  | none =>
    cases b with
    | none => rfl
    | some n => cases h
  | some m =>
    cases b with
    | none => cases h
    | some n => exact congrArg some (Rat.intCast_inj.mp (number.inj h))

theorem canonicalize_perm {a b : List (JsString × Json)} (h : canonicalize platform (.object a) = canonicalize platform (.object b)) :
    (canonicalizeEntries platform a).Perm (canonicalizeEntries platform b) := by
  rw [canonicalize, canonicalize] at h
  have hsr := object.inj h
  have hpe : ∀ entries : List (JsString × Json),
      (enumerate ((canonicalizeEntries platform entries).insertionSort (byLocale platform))).Perm (canonicalizeEntries platform entries) :=
    fun entries => enumerate_perm.trans (perm_insertionSort (byLocale platform) _)
  exact (hpe a).symm.trans (hsr ▸ hpe b)

def eventKeys : List JsString :=
  ["id", "project_ref", "actor", "actor_type", "action", "method", "path", "status", "request_id", "source", "metadata", "created_at",
    "previous_hash"].map js

theorem eventKeys_nodup : eventKeys.Nodup := by decide

theorem canonicalEvent_keys (platform row) (h : canonicalEvent platform row = .object entries) : (canonicalizeEntries platform entries).map Prod.fst = eventKeys := by
  cases h
  simp [canonicalizeEntries, eventKeys]

theorem agrees_of_hash (hfre : platform.CollisionFree) {produced : AuditChainRow}
    (hrow : row.eventHash = some (auditEventHash platform row)) (hpr : produced.eventHash = some (auditEventHash platform produced))
    (hha : row.eventHash = produced.eventHash) : Agrees platform row produced := by
  have heq := hfre row produced (some.inj (hrow.symm.trans (hha.trans hpr)))
  have hke := canonicalEvent_keys platform produced rfl
  have hens := eq_of_perm_keys (canonicalize_perm heq) ((canonicalEvent_keys platform row rfl).trans hke.symm) (hke ▸ eventKeys_nodup)
  simp only [canonicalizeEntries, cons.injEq, Prod.mk.injEq, true_and, and_true] at hens
  obtain ⟨hid, hpro, hac, hacT, hact, hmt, hpa, hsts, hre, hso, hme, hcr, hprs⟩ := hens
  exact
    { id := string.inj hid
      projectRef := nullable_injective hpro
      actor := string.inj hac
      actorType := string.inj hacT
      action := string.inj hact
      method := string.inj hmt
      path := string.inj hpa
      status := status_injective hsts
      requestId := string.inj hre
      source := string.inj hso
      previousHash := nullable_injective hprs
      eventHash := hha
      metadata := same_of_canonicalize hme
      createdAt := string.inj hcr }

/-! ## つながった列 -/

def Linking (platform : Platform) : Option JsString → List AuditChainRow → Prop
  | _, [] => True
  | previousHash, row :: rows =>
    row.previousHash = previousHash ∧ row.eventHash = some (auditEventHash platform row) ∧ Linking platform row.eventHash rows

def lastHash (previousHash : Option JsString) (rows : List AuditChainRow) : Option JsString :=
  rows.getLast?.elim previousHash AuditChainRow.eventHash

theorem linking_concat : Linking platform previousHash (rows ++ [row]) ↔ Linking platform previousHash rows ∧
    row.previousHash = lastHash previousHash rows ∧ row.eventHash = some (auditEventHash platform row) := by
  induction rows generalizing previousHash with
  | nil => simp [Linking, lastHash]
  | cons first rows ih => grind [lastHash, Linking]

theorem linking_of_verified {index} (h : hashedEventFailure platform rows index previousHash = none) :
    Linking platform previousHash rows := by
  induction rows generalizing index previousHash with
  | nil => trivial
  | cons row rows ih =>
    rw [hashedEventFailure] at h
    cases hrow : eventMismatchReason platform row (index + 1) previousHash with
    | some reason => rw [hrow] at h; cases h
    | none =>
      rw [hrow] at h
      rw [eventMismatchReason] at hrow
      split at hrow
      · cases hrow
      · split at hrow
        · cases hrow
        · rename_i hprs
          split at hrow
          · cases hrow
          · rename_i hha
            exact ⟨not_not.mp hprs, (not_not.mp hha).symm, ih h⟩

theorem agrees_of_linking (hfre : platform.CollisionFree) (hro : Linking platform none rows) (hpr : Linking platform none produced)
    (hle : rows.length = produced.length) (hla : lastHash none rows = lastHash none produced) :
    Forall₂ (Agrees platform) rows produced := by
  induction rows using reverseRecOn generalizing produced with
  | nil =>
    cases produced with
    | nil => exact .nil
    | cons first rest => cases hle
  | append_singleton rows row ih =>
    cases produced using reverseRecOn with
    | nil => simp at hle
    | append_singleton earlier final =>
      obtain ⟨hea, hprs, hrow⟩ := linking_concat.mp hro
      obtain ⟨hbe, hbeH, hfn⟩ := linking_concat.mp hpr
      have hha : row.eventHash = final.eventHash := by simpa [lastHash] using hla
      have hags := agrees_of_hash hfre hrow hfn hha
      have hrs : lastHash none rows = lastHash none earlier := by
        rw [← hprs, ← hbeH]
        exact hags.previousHash
      exact rel_append (ih hea hbe (by simpa using hle) hrs) (.cons hags .nil)

/-! ## 作られた鎖 -/

def Produced (platform : Platform) (key : JsString) (rows : List AuditChainRow) (checkpoint : Option AuditCheckpoint) : Prop :=
  Linking platform none rows ∧ Head key rows checkpoint

theorem produced_empty : Produced platform key [] (World.empty.checkpoint key) := ⟨trivial, rfl⟩

section

variable (h : Produced platform key rows (w.checkpoint key))

include h

theorem Produced.append {append input createdAt} (hkey : append.projectChainKey = key)
    (hrow : row = prepareAuditRow platform input append (w.checkpoint key) createdAt) :
    Produced platform key (rows ++ [row]) ((advanceAuditCheckpoint w' append row).checkpoint key) := by
  obtain ⟨hli, hhe⟩ := h
  have hla : (w.checkpoint key).bind AuditCheckpoint.lastEventHash = lastHash none rows ∧
      (w.checkpoint key).elim 0 AuditCheckpoint.eventCount = rows.length := by
    rw [hhe]
    cases hro : rows.getLast? with
    | none =>
      rw [getLast?_eq_none_iff] at hro
      simp [hro, lastHash]
    | some last => simp [lastHash, hro]
  refine ⟨linking_concat.mpr ⟨hli, ?_, ?_⟩, ?_⟩
  · rw [hrow, ← hla.1]
    rfl
  · rw [hrow]
    rfl
  · rw [Head, checkpoint_advance, if_pos hkey, getLast?_concat, map_some, length_append, ← hla.2, hrow]
    rfl

theorem produced_step {e} : Produced platform key
      (rows ++ if (prepareAuditAppend platform e.input e.id).projectChainKey = key then (producedRow platform w e).toList else [])
      ((step platform w e).checkpoint key) := by
  rw [step]
  cases hco : e.commit with
  | false =>
    have hno : producedRow platform w e = none := by simp [producedRow, hco]
    simpa [hno] using h
  | true =>
    cases hap : appendAuditEventInTransaction platform w e.input e.id e.createdAt with
    | none =>
      have hno : producedRow platform w e = none := by simp [producedRow, hap]
      simpa [hno] using h
    | some w' =>
      obtain ⟨stored, -, rfl⟩ := append_inv hap
      by_cases hkey : (prepareAuditAppend platform e.input e.id).projectChainKey = key
      · have hsm : producedRow platform w e =
            some (prepareAuditRow platform e.input (prepareAuditAppend platform e.input e.id) (w.checkpoint key) e.createdAt) := by
          simp [producedRow, hco, hap, hkey]
        rw [if_pos hkey, hsm, hkey]
        exact h.append hkey rfl
      · rw [if_neg hkey, append_nil, if_pos rfl, getD_some, checkpoint_advance, if_neg hkey]
        exact h

theorem produced_run {events} :
    Produced platform key (rows ++ producedRows platform key w events) ((run (step platform) w events).checkpoint key) := by
  induction events generalizing w rows with
  | nil => simpa [producedRows] using h
  | cons e events ih =>
    have hrs := ih (produced_step (e := e) h)
    rwa [append_assoc] at hrs

end

theorem verified_inv (h : (verifyAuditChain platform rows checkpoint).status = .verified) :
    Linking platform none (rows.insertionSort bySequence) ∧ checkpointFailure (rows.insertionSort bySequence) checkpoint = none := by
  rw [verifyAuditChain] at h
  split at h
  · cases h
  · rename_i hhas
    split at h
    · cases h
    · rename_i hch
      split at h
      · cases h
      · rename_i hlg
        have hno : (rows.filter fun row => !row.hashed) = [] := length_eq_zero_iff.mp (Nat.eq_zero_of_not_pos hlg)
        have hall : rows.filter AuditChainRow.hashed = rows := by
          refine filter_eq_self.mpr fun row hrow => ?_
          simpa using filter_eq_nil_iff.mp hno row hrow
        rw [hall] at hhas hch
        exact ⟨linking_of_verified hhas, hch⟩

theorem ends_of_checkpoint (hhe : Head key produced checkpoint) (h : checkpointFailure rows checkpoint = none) :
    rows.length = produced.length ∧ lastHash none rows = lastHash none produced := by
  rw [Head] at hhe
  cases hla : produced.getLast? with
  | none =>
    rw [hla] at hhe
    rw [getLast?_eq_none_iff] at hla
    rw [hhe, checkpointFailure.eq_def] at h
    cases rows with
    | nil => simp [hla]
    | cons row rows => simp at h
  | some last =>
    rw [hla] at hhe
    rw [hhe, checkpointFailure.eq_def] at h
    dsimp only [map_some] at h
    split at h
    · cases h
    · grind [lastHash]

end Supacloud.AuditChain
