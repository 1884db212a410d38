import Supacloud.ProjectMutations.Journal

/-!
# 一つの操作が行にすること
-/

namespace Supacloud.ProjectMutations

open Library StoredProjectMutationRow Claim List

variable {now : Timestamp} {rows : Journal} {row row' : StoredProjectMutationRow} {key : MutationKey} {call : Nat}

structure Written (row row' : StoredProjectMutationRow) : Prop where
  key : row'.key = row.key
  operation : row'.operation = row.operation
  resourceKey : row'.resourceKey = row.resourceKey
  requestFingerprint : row'.requestFingerprint = row.requestFingerprint
  principal : row'.principal = row.principal
  fencingEpoch : row'.fencingEpoch = row.fencingEpoch
  leaseToken : row'.status = .running → row.status = .running ∧ row'.leaseToken = row.leaseToken

theorem Written.refl (row) : Written row row := ⟨rfl, rfl, rfl, rfl, rfl, rfl, fun h => ⟨h, rfl⟩⟩

theorem Written.trans {row''} (h : Written row row') (h' : Written row' row'') : Written row row'' where
  key := h'.key.trans h.key
  operation := h'.operation.trans h.operation
  resourceKey := h'.resourceKey.trans h.resourceKey
  requestFingerprint := h'.requestFingerprint.trans h.requestFingerprint
  principal := h'.principal.trans h.principal
  fencingEpoch := h'.fencingEpoch.trans h.fencingEpoch
  leaseToken hru := by
    obtain ⟨hro', hto'⟩ := h'.leaseToken hru
    obtain ⟨hrow, hto⟩ := h.leaseToken hro'
    exact ⟨hrow, hto'.trans hto⟩

/-! ## 受け持った者の書き込み -/

theorem holds_iff {lease : MutationLeaseInput} : lease.holds now row = true ↔ row.key = lease.key ∧ row.status = .running ∧
    row.leaseToken = some lease.leaseToken ∧ row.fencingEpoch = lease.fencingEpoch ∧ row.leaseActive now = true := by
  simp [MutationLeaseInput.holds, and_assoc]

theorem written_checkpointed {input} : Written row (row.checkpointed now input) :=
  ⟨rfl, rfl, rfl, rfl, rfl, rfl, fun h => ⟨h, rfl⟩⟩

theorem FinishStatus.status_ne_running (status : FinishStatus) : status.status ≠ .running := by
  cases status <;> exact nofun

theorem written_finished {input} : Written row (row.finished now input) :=
  ⟨rfl, rfl, rfl, rfl, rfl, rfl, fun h => absurd h input.status.status_ne_running⟩

variable {input : ReconcileProjectMutationInput}

theorem written_reconciled : Written row (row.reconciled now input) :=
  ⟨rfl, rfl, rfl, rfl, rfl, rfl, fun h => absurd h input.status.status_ne_running⟩

theorem apply_spec (now) (action : LeaseAction) :
    ∃ f, (∀ rows, action.apply now rows = update (action.lease.holds now) f rows) ∧ ∀ row, Written row (f row) := by
  have hidl : ∀ rows, rows = update (action.lease.holds now) id rows := by
    intro rows
    simp [update]
  have hfn : ∀ input, input.lease = action.lease →
      ∃ f, (∀ rows, (finishProjectMutation now rows input).2 = update (action.lease.holds now) f rows) ∧ ∀ row, Written row (f row) := by
    intro input hls
    cases hva : validCompletionResponseStatus input.status input.responseStatus with
    | true =>
      refine ⟨finished now input, fun rows => ?_, fun row => written_finished⟩
      rw [finishProjectMutation, if_pos hva, updateReturning, hls]
    | false =>
      refine ⟨id, fun rows => ?_, Written.refl⟩
      rw [finishProjectMutation, hva]
      exact hidl rows
  cases action with
  | checkpoint input =>
    cases hva : leaseSecondsValid input.leaseSeconds with
    | true =>
      refine ⟨checkpointed now input, fun rows => ?_, fun row => written_checkpointed⟩
      rw [LeaseAction.apply, checkpointProjectMutation, if_pos hva]
      rfl
    | false =>
      refine ⟨id, fun rows => ?_, Written.refl⟩
      rw [LeaseAction.apply, checkpointProjectMutation, hva]
      exact hidl rows
  | success lease receipt responseStatus => exact hfn _ rfl
  | failure lease status failureCode receipt responseStatus recoveryNotBefore =>
    simp only [LeaseAction.apply]
    cases hinp : completeProjectMutationFailure lease status failureCode receipt responseStatus recoveryNotBefore with
    | none => exact ⟨id, hidl, Written.refl⟩
    | some input =>
      apply hfn
      rw [completeProjectMutationFailure] at hinp
      split at hinp
      · cases hinp
      · cases hinp
        rfl

/-! ## 照合と登録 -/

theorem matches_iff {actor} : input.matches actor row = true ↔
    row.key = input.key ∧ row.principal = actor ∧ row.status = .outcomeUnknown ∧ row.fencingEpoch = input.expectedFencingEpoch := by
  simp [ReconcileProjectMutationInput.matches, and_assoc]

theorem reconcile_spec (now rows actor input) : (reconcileProjectMutation now rows actor input).2 = rows ∨
      (reconcileProjectMutation now rows actor input).2 = update (input.matches actor) (reconciled now input) rows := by
  rw [reconcileProjectMutation]
  split
  · grind [updateReturning]
  · exact .inl rfl

theorem find_key (h : rows.find key = some row) : row.key = key := by
  have hkey := find?_some h
  simpa using hkey

theorem find_mem (h : rows.find key = some row) : row ∈ rows := mem_of_find?_eq_some h

theorem find_none : rows.find key = none ↔ ∀ row ∈ rows, row.key ≠ key := by
  simp [Journal.find]

theorem insert_spec (now rows input) : insertProjectMutation now rows input = (none, rows) ∨
      (insertProjectMutation now rows input = (some (insertedRow now input), rows ++ [insertedRow now input]) ∧
        rows.find input.key = none ∧
        ∀ resourceKey, input.resourceKey = some resourceKey → ∀ row ∈ rows, blocks input.key.projectRef resourceKey row = false) := by
  rw [insertProjectMutation]
  split
  · exact .inl rfl
  · rename_i hfr
    rw [not_or] at hfr
    refine .inr ⟨rfl, by simpa using hfr.1, ?_⟩
    intro resourceKey hre row hrow
    have hno := hfr.2
    rw [hre] at hno
    simp only [Option.any_some, Option.isSome_iff_ne_none, ne_eq, not_not, activeResourceMutation, find?_eq_none] at hno
    simpa using hno row hrow

theorem begin_spec (now rows input) : (beginProjectMutation now rows input).2 = rows ∨
      ((beginProjectMutation now rows input).2 = rows ++ [insertedRow now input] ∧ rows.find input.key = none ∧
        ∀ resourceKey, input.resourceKey = some resourceKey → ∀ row ∈ rows, blocks input.key.projectRef resourceKey row = false) := by
  rcases insert_spec now rows input with hins | ⟨hins, hfr⟩
  · left
    rw [beginProjectMutation, hins]
    dsimp only
    split
    · rfl
    · split
      · rfl
      · rfl
  · right
    rw [beginProjectMutation, hins]
    exact ⟨rfl, hfr⟩

theorem claim_matches {input : ClaimProjectMutationInput} (h : input.matches now row = true) :
    row.key = input.key ∧ row.claimable now = true := by
  simp only [ClaimProjectMutationInput.matches, Bool.and_eq_true, decide_eq_true_eq] at h
  exact ⟨h.1.2, h.2⟩

theorem claimable_unresolved (h : row.claimable now = true) : row.status.unresolved = true := by
  simp only [claimable, Bool.and_eq_true, Bool.or_eq_true, decide_eq_true_eq] at h
  rcases h.2 with (hsts | hsts) | ⟨hsts, -⟩
  all_goals
    rw [hsts]
    rfl

theorem unclaimed_claimed {input mutation}
    (h : unclaimedMutationResult now row input = .ok (.claimed mutation)) : row.status = .running ∧ row = mutation := by
  rw [unclaimedMutationResult] at h
  by_cases hru : row.status = .running ∧ row.leaseActive now
  · rw [if_pos hru] at h
    split at h
    · cases h
      exact ⟨hru.1, rfl⟩
    · cases h
  · grind

theorem claim_spec (now rows input) : ((claimOrResumeProjectMutation now rows input).2 = rows ∨
        (claimOrResumeProjectMutation now rows input).2 = update (input.matches now) (input.claim now) rows) ∧
      ∀ mutation, (claimOrResumeProjectMutation now rows input).1 = .ok (.claimed mutation) →
        ∃ row ∈ rows, row.key = input.key ∧ row.status.unresolved = true ∧ mutation.checkpoint = row.checkpoint := by
  rw [claimOrResumeProjectMutation, updateReturning]
  split
  · cases hfi : rows.find? (input.matches now) with
    | some row =>
      refine ⟨.inr rfl, fun mutation hmu => ?_⟩
      cases hmu
      obtain ⟨hkey, hcl⟩ := claim_matches (find?_some hfi)
      exact ⟨row, mem_of_find?_eq_some hfi, hkey, claimable_unresolved hcl, rfl⟩
    | none =>
      have hsa : update (input.matches now) (input.claim now) rows = rows := by
        rw [update]
        refine (map_congr_left fun row hrow => ?_).trans (map_id rows)
        rw [if_neg (find?_eq_none.mp hfi row hrow)]
        rfl
      rw [hsa, Option.map_none]
      dsimp only
      cases hrow : rows.find input.key with
      | none =>
        dsimp only
        exact ⟨.inl rfl, fun _ h => by cases h⟩
      | some row =>
        dsimp only
        refine ⟨.inl rfl, fun mutation hmu => ?_⟩
        obtain ⟨hru, rfl⟩ := unclaimed_claimed hmu
        exact ⟨row, find_mem hrow, find_key hrow, by rw [hru]; rfl, rfl⟩
  · exact ⟨.inl rfl, fun _ h => by cases h⟩

theorem recoverable_claimable {operations} (h : row.recoverable now operations = true) : row.claimable now = true := by
  simp only [recoverable, Bool.and_eq_true, Bool.or_eq_true] at h
  simp only [claimable, Bool.and_eq_true, Bool.or_eq_true]
  refine ⟨h.1.1.2, ?_⟩
  rcases h.2 with hrt | hex
  · exact .inl (.inr hrt)
  · exact .inr hex

theorem recover_matches {input : ClaimRecoverableProjectMutationsInput} {skip} (hn : (rows.map StoredProjectMutationRow.key).Nodup)
    (hrow : row ∈ rows) (h : input.matches now rows skip row = true) : row.key ∉ skip ∧ row.claimable now = true := by
  simp only [ClaimRecoverableProjectMutationsInput.matches, Bool.and_eq_true, decide_eq_true_eq, recoveryCandidates, mem_map] at h
  obtain ⟨-, candidate, hca, hkey⟩ := h
  have hmem := mem_mergeSort.mp (mem_of_mem_take hca)
  rw [mem_filter] at hmem
  have heq : candidate = row := eq_of_key hn hmem.1 hrow hkey
  subst heq
  simp only [Bool.and_eq_true, decide_eq_true_eq] at hmem
  exact ⟨hmem.2.2, recoverable_claimable hmem.2.1⟩

/-!
## 台帳の不変条件
-/

variable {w : World}

namespace World

def epochOf (w : World) (key : MutationKey) : Nat := ((w.lastClaim key).map Claim.fencingEpoch).getD 0

structure Sound (w : World) : Prop where
  keys : (w.rows.map StoredProjectMutationRow.key).Nodup
  unique : w.SingleUnresolved
  epochs : ∀ row ∈ w.rows, row.fencingEpoch = w.epochOf row.key
  tokens : ∀ row ∈ w.rows, row.status = .running → w.lastClaim row.key = some (Claim.of row)
  fenced : w.Fenced
  known : ∀ c ∈ w.claims, ∃ row ∈ w.rows, row.key = c.key
  exclusive : w.Exclusive
  calls : (w.executions.map Execution.call).Nodup ∧ ∀ x ∈ w.executions, x.call < w.nextCall
  executing : ∀ x ∈ w.executions, ∃ row ∈ w.rows, row.key = x.lease.key ∧ row.status = .running ∧
    row.leaseToken = some x.lease.leaseToken ∧ row.fencingEpoch = x.lease.fencingEpoch ∧ Written row x.draft

theorem sound_start (now) : (start now).Sound := by
  constructor
  case calls => exact ⟨nodup_nil, fun _ h => by cases h⟩
  all_goals simp [start, SingleUnresolved, Fenced, Exclusive]

theorem locked_iff : w.locked key = true ↔ ∃ x ∈ w.executions, x.lease.key = key := by
  simp [locked]

theorem not_locked : w.locked key = false ↔ ∀ x ∈ w.executions, x.lease.key ≠ key := by
  simp [locked]

/-! ## 錠のかかっていない行の書き込み -/

section Update

theorem keys_update {p f} {rows : Journal} (hf : ∀ row, p row = true → (f row).key = row.key) :
    (update p f rows).map StoredProjectMutationRow.key = rows.map StoredProjectMutationRow.key := map_update hf

theorem unique_update {p f} (h : w.SingleUnresolved) (hf : ∀ row ∈ w.rows, p row = true → (f row).key = row.key ∧
    (f row).resourceKey = row.resourceKey ∧ row.status.unresolved = true) : { w with rows := update p f w.rows }.SingleUnresolved := by
  have hba : ∀ row ∈ w.rows, ∀ row', (if p row then f row else row) = row' → row'.key = row.key ∧
      row'.resourceKey = row.resourceKey ∧ (row'.status.unresolved = true → row.status.unresolved = true) := by
    rintro row hrow row' rfl
    by_cases hp : p row = true
    · obtain ⟨hkey, hre, hunr⟩ := hf row hrow hp
      simp [hp, hkey, hre, hunr]
    · simp [hp]
  intro a ha b hb hua hub hpro hre hso
  obtain ⟨a₀, ha₀, hfa⟩ := mem_update.mp ha
  obtain ⟨b₀, hb₀, hfb⟩ := mem_update.mp hb
  obtain ⟨hka, hra, hua₀⟩ := hba a₀ ha₀ a hfa
  obtain ⟨hkb, hrb, hub₀⟩ := hba b₀ hb₀ b hfb
  have heq : a₀ = b₀ := by
    refine h a₀ ha₀ b₀ hb₀ (hua₀ hua) (hub₀ hub) ?_ ?_ ?_
    · rw [← hka, ← hkb, hpro]
    · rw [← hra, ← hrb, hre]
    · rw [← hra]
      exact hso
  subst heq
  exact hfa.symm.trans hfb

theorem Sound.executing_update {p f} (h : w.Sound) (hp : ∀ row ∈ w.rows, p row = true → w.locked row.key = false) :
    ∀ x ∈ w.executions, ∃ row ∈ update p f w.rows, row.key = x.lease.key ∧ row.status = .running ∧
      row.leaseToken = some x.lease.leaseToken ∧ row.fencingEpoch = x.lease.fencingEpoch ∧ Written row x.draft := by
  intro x hx
  obtain ⟨row, hrow, hkey, hrs⟩ := h.executing x hx
  have hpr : p row = false := by
    rw [← Bool.not_eq_true]
    intro hpr
    exact not_locked.mp (hp row hrow hpr) x hx hkey.symm
  exact ⟨row, mem_update.mpr ⟨row, hrow, by simp [hpr]⟩, hkey, hrs⟩

theorem exists_key_update {p f} {rows : Journal} (hke : (update p f rows).map StoredProjectMutationRow.key = rows.map StoredProjectMutationRow.key)
    (hrow : row ∈ rows) : ∃ row' ∈ update p f rows, row'.key = row.key :=
  mem_map.mp (hke ▸ mem_map_of_mem hrow)

theorem Sound.written {p f} (h : w.Sound) (hp : ∀ row ∈ w.rows, p row = true → row.status.unresolved = true ∧ w.locked row.key = false)
    (hf : ∀ row ∈ w.rows, p row = true → Written row (f row)) : { w with rows := update p f w.rows }.Sound := by
  have hke : (update p f w.rows).map StoredProjectMutationRow.key = w.rows.map StoredProjectMutationRow.key := by
    rw [update, map_map]
    apply map_congr_left
    intro row hrow
    by_cases hpr : p row = true
    · simp [hpr, (hf row hrow hpr).key]
    · simp [hpr]
  constructor
  case keys =>
    rw [hke]
    exact h.keys
  case unique => exact unique_update h.unique fun row hrow hpr => ⟨(hf row hrow hpr).key, (hf row hrow hpr).resourceKey, (hp row hrow hpr).1⟩
  case epochs =>
    intro row' hro'
    obtain ⟨row, hrow, rfl⟩ := mem_update.mp hro'
    by_cases hpr : p row = true
    · simp only [hpr, if_true, (hf row hrow hpr).fencingEpoch, (hf row hrow hpr).key]
      exact h.epochs row hrow
    · simp only [hpr]
      exact h.epochs row hrow
  case tokens =>
    intro row' hro' hru
    obtain ⟨row, hrow, rfl⟩ := mem_update.mp hro'
    by_cases hpr : p row = true
    · simp only [hpr, if_true] at hru ⊢
      have hwr := hf row hrow hpr
      obtain ⟨hsts, hto⟩ := hwr.leaseToken hru
      have hla := h.tokens row hrow hsts
      rw [Claim.of] at hla ⊢
      rw [hwr.key, hto, hwr.fencingEpoch]
      exact hla
    · simp only [hpr] at hru ⊢
      exact h.tokens row hrow hru
  case fenced => exact h.fenced
  case known =>
    intro c hc
    obtain ⟨row, hrow, hkey⟩ := h.known c hc
    obtain ⟨row', hro', hke'⟩ := exists_key_update hke hrow
    exact ⟨row', hro', hke'.trans hkey⟩
  case exclusive => exact h.exclusive
  case calls => exact h.calls
  case executing => exact h.executing_update fun row hrow hpr => (hp row hrow hpr).2

end Update

/-! ## 新しい受け持ち -/

theorem Fenced.le_last (h : w.Fenced) {c} (hc : c ∈ w.claims) : c.fencingEpoch ≤ w.epochOf c.key := by
  rw [epochOf, lastClaim]
  cases hfi : w.claims.find? fun d => d.key = c.key with
  | none =>
    rw [find?_eq_none] at hfi
    exact absurd (by simp) (hfi c hc)
  | some last =>
    simp only [Option.map_some, Option.getD_some]
    obtain ⟨hla, before, after, hsp', hbe⟩ := find?_eq_some_iff_append.mp hfi
    rw [hsp'] at hc
    rcases mem_append.mp hc with hc | hc
    · have := hbe c hc
      simp at this
    · rcases mem_cons.mp hc with rfl | hc
      · exact Nat.le_refl _
      · have hpa : (before ++ last :: after).Pairwise fun newer older => newer.key = older.key → older.fencingEpoch < newer.fencingEpoch :=
          hsp' ▸ h
        have hlt := (pairwise_cons.mp (pairwise_append.mp hpa).2.1).1 c hc
        exact Nat.le_of_lt (hlt (by simpa using hla))

section Grant

variable {p : StoredProjectMutationRow → Bool} {claim : StoredProjectMutationRow → StoredProjectMutationRow}

def Leases (now : Timestamp) (claim : StoredProjectMutationRow → StoredProjectMutationRow) : Prop :=
  ∀ row, ∃ leaseOwner leaseToken leaseSeconds, claim row = row.lease now leaseOwner leaseToken leaseSeconds

theorem Leases.spec {now} (h : Leases now claim) (row) : (claim row).key = row.key ∧
    (claim row).resourceKey = row.resourceKey ∧ (claim row).fencingEpoch = row.fencingEpoch + 1 ∧ (claim row).checkpoint = row.checkpoint := by
  obtain ⟨leaseOwner, leaseToken, leaseSeconds, heq⟩ := h row
  rw [heq]
  exact ⟨rfl, rfl, rfl, rfl⟩

theorem lastClaim_grant (h : w.Sound) (hc : Leases w.now claim) (hrow : row ∈ w.rows) (hp : p row = true) :
    (w.grant p claim).lastClaim row.key = some (of (claim row)) := by
  have hnew : of (claim row) ∈ (w.rows.filter p).map fun row => of (claim row) :=
    mem_map_of_mem (mem_filter.mpr ⟨hrow, hp⟩)
  rw [lastClaim, grant, find?_append]
  cases hfi : ((w.rows.filter p).map fun row => of (claim row)).find? fun c => c.key = row.key with
  | none =>
    rw [find?_eq_none] at hfi
    exact absurd (by simp [of, (hc.spec row).1]) (hfi _ hnew)
  | some c =>
    obtain ⟨row', hro', rfl⟩ := mem_map.mp (mem_of_find?_eq_some hfi)
    have hkey : row'.key = row.key := by
      have := find?_some hfi
      simpa [of, (hc.spec row').1] using this
    have heq : row' = row := eq_of_key h.keys (mem_filter.mp hro').1 hrow hkey
    rw [heq]
    rfl

theorem lastClaim_grant_other (hc : Leases w.now claim) (hot : ∀ row ∈ w.rows, p row = true → row.key ≠ key) :
    (w.grant p claim).lastClaim key = w.lastClaim key := by
  rw [lastClaim, grant, find?_append]
  have hno : ((w.rows.filter p).map fun row => of (claim row)).find? (fun c => c.key = key) = none := by grind [hc.spec, of]
  rw [hno]
  rfl

theorem Sound.apart (h : w.Sound) (hrow : row ∈ w.rows) (hp : ¬ p row = true) : ∀ row' ∈ w.rows, p row' = true → row'.key ≠ row.key := by
  intro row' hro' hp' hkey
  rw [eq_of_key h.keys hro' hrow hkey] at hp'
  exact hp hp'

theorem Sound.grant (h : w.Sound) (hc : Leases w.now claim)
    (hp : ∀ row ∈ w.rows, p row = true → row.claimable w.now = true ∧ w.locked row.key = false) : (w.grant p claim).Sound := by
  have hke : (update p claim w.rows).map StoredProjectMutationRow.key = w.rows.map StoredProjectMutationRow.key :=
    keys_update fun row _ => (hc.spec row).1
  constructor
  case keys =>
    rw [World.grant, hke]
    exact h.keys
  case unique =>
    exact unique_update h.unique fun row hrow hpr => ⟨(hc.spec row).1, (hc.spec row).2.1, claimable_unresolved (hp row hrow hpr).1⟩
  case epochs =>
    intro row' hro'
    obtain ⟨row, hrow, rfl⟩ := mem_update.mp hro'
    by_cases hpr : p row = true
    · simp only [hpr, if_true, epochOf, (hc.spec row).1, lastClaim_grant h hc hrow hpr]
      rfl
    · simp only [hpr, epochOf]
      rw [if_neg (by simp), lastClaim_grant_other hc (h.apart hrow hpr)]
      exact h.epochs row hrow
  case tokens =>
    intro row' hro' hru
    obtain ⟨row, hrow, rfl⟩ := mem_update.mp hro'
    by_cases hpr : p row = true
    · simp only [hpr, if_true, (hc.spec row).1]
      exact lastClaim_grant h hc hrow hpr
    · simp only [hpr] at hru ⊢
      rw [if_neg (by simp)] at hru ⊢
      rw [lastClaim_grant_other hc (h.apart hrow hpr)]
      exact h.tokens row hrow hru
  case fenced =>
    refine pairwise_append.mpr ⟨?_, h.fenced, ?_⟩
    · rw [pairwise_map]
      have hnd : ((w.rows.filter p).map StoredProjectMutationRow.key).Nodup := h.keys.sublist (filter_sublist.map _)
      rw [Nodup, pairwise_map] at hnd
      refine hnd.imp fun {a b} hne hkey => ?_
      simp only [Claim.of, (hc.spec a).1, (hc.spec b).1] at hkey
      exact absurd hkey hne
    · intro newer hnw older holder hkey
      obtain ⟨row, hrow, rfl⟩ := mem_map.mp hnw
      have hle := h.fenced.le_last holder
      have hroK : row.key = older.key := by
        simpa [Claim.of, (hc.spec row).1] using hkey
      have hep := h.epochs row (mem_filter.mp hrow).1
      rw [hroK] at hep
      simp only [Claim.of, (hc.spec row).2.2.1]
      omega
  case known =>
    intro c hmem
    rcases mem_append.mp hmem with hnew | hold
    · obtain ⟨row, hrow, rfl⟩ := mem_map.mp hnew
      obtain ⟨row', hro', hkey⟩ := exists_key_update hke (mem_filter.mp hrow).1
      exact ⟨row', hro', hkey.trans (hc.spec row).1.symm⟩
    · obtain ⟨row, hrow, hkey⟩ := h.known c hold
      obtain ⟨row', hro', hke'⟩ := exists_key_update hke hrow
      exact ⟨row', hro', hke'.trans hkey⟩
  case exclusive => exact h.exclusive
  case calls => exact h.calls
  case executing => exact h.executing_update fun row hrow hpr => (hp row hrow hpr).2

end Grant

/-! ## 登録 -/

theorem Sound.insert (h : w.Sound) (input) (hnew : w.rows.find input.key = none)
    (hfr : ∀ resourceKey, input.resourceKey = some resourceKey → ∀ row ∈ w.rows, blocks input.key.projectRef resourceKey row = false) :
    { w with rows := w.rows ++ [insertedRow w.now input] }.Sound := by
  rw [find_none] at hnew
  have hnoC : w.lastClaim input.key = none := by grind [h.known, lastClaim]
  constructor
  case keys =>
    rw [map_append, nodup_append]
    refine ⟨h.keys, by simp, ?_⟩
    intro a ha b hb
    obtain ⟨row, hrow, rfl⟩ := mem_map.mp ha
    have hb : b = input.key := by simpa [insertedRow] using hb
    rw [hb]
    exact hnew row hrow
  case unique =>
    have hap : ∀ a ∈ w.rows, a.status.unresolved = true → a.key.projectRef = input.key.projectRef →
        a.resourceKey = input.resourceKey → input.resourceKey ≠ none → False := by
      intro a ha hua hpro hre hso
      obtain ⟨resourceKey, hkey⟩ := Option.ne_none_iff_exists'.mp hso
      have hbl := hfr resourceKey hkey a ha
      simp [blocks, hua, hpro, hre, hkey] at hbl
    intro a ha b hb hua hub hpro hre hso
    rcases mem_append.mp ha with ha | ha
    · rcases mem_append.mp hb with hb | hb
      · exact h.unique a ha b hb hua hub hpro hre hso
      · rw [mem_singleton.mp hb] at hpro hre
        exact (hap a ha hua hpro hre (fun hn => hso (hre.trans hn))).elim
    · rw [mem_singleton.mp ha] at hpro hre hso ⊢
      rcases mem_append.mp hb with hb | hb
      · exact (hap b hb hub hpro.symm hre.symm hso).elim
      · exact (mem_singleton.mp hb).symm
  case epochs =>
    intro row hrow
    rcases mem_append.mp hrow with hrow | hrow
    · exact h.epochs row hrow
    · rw [mem_singleton.mp hrow]
      change 0 = ((w.lastClaim input.key).map Claim.fencingEpoch).getD 0
      rw [hnoC]
      rfl
  case tokens =>
    intro row hrow hru
    rcases mem_append.mp hrow with hrow | hrow
    · exact h.tokens row hrow hru
    · rw [mem_singleton.mp hrow] at hru
      cases hru
  case fenced => exact h.fenced
  case known =>
    intro c hc
    obtain ⟨row, hrow, hkey⟩ := h.known c hc
    exact ⟨row, mem_append_left _ hrow, hkey⟩
  case exclusive => exact h.exclusive
  case calls => exact h.calls
  case executing =>
    intro x hx
    obtain ⟨row, hrow, hrs⟩ := h.executing x hx
    exact ⟨row, mem_append_left _ hrow, hrs⟩

/-! ## 錠を持つ取引 -/

theorem Sound.enter (h : w.Sound) {lease} (hfr : w.locked lease.key = false) : (w.enter lease).Sound := by
  rw [World.enter]
  cases hfi : w.rows.find? (lease.holds w.now) with
  | none => exact h
  | some row =>
    obtain ⟨hkey, hsts, hto, hep, -⟩ := holds_iff.mp (find?_some hfi)
    refine { h with exclusive := ?exclusive, calls := ?calls, executing := ?executing }
    case exclusive =>
      refine nodup_cons.mpr ⟨?_, h.exclusive⟩
      intro hmem
      obtain ⟨x, hx, hxk⟩ := mem_map.mp hmem
      exact not_locked.mp hfr x hx hxk
    case calls =>
      refine ⟨nodup_cons.mpr ⟨?_, h.calls.1⟩, ?_⟩
      · grind [h.calls]
      · grind [h.calls]
    case executing =>
      intro x hx
      rcases mem_cons.mp hx with rfl | hx
      · exact ⟨row, mem_of_find?_eq_some hfi, hkey, hsts, hto, hep, Written.refl row⟩
      · exact h.executing x hx

theorem written_inside (now) (action : LeaseAction) (draft) :
    (action.apply now [draft]).headD draft = draft ∨ (action.lease.holds now draft = true ∧ Written draft ((action.apply now [draft]).headD draft)) := by
  obtain ⟨f, hf, hwr⟩ := apply_spec now action
  rw [hf]
  by_cases hhos : action.lease.holds now draft = true
  · grind [update]
  · left
    simp [update, hhos]

theorem Sound.inside (h : w.Sound) {action} : (w.inside call action).Sound := by
  refine { h with exclusive := ?exclusive, calls := ?calls, executing := ?executing }
  case exclusive =>
    rw [Exclusive, World.inside, map_update]
    · exact h.exclusive
    · exact fun _ _ => rfl
  case calls =>
    rw [World.inside, map_update]
    · grind [h.calls, mem_update]
    · exact fun _ _ => rfl
  case executing =>
    intro x hx
    obtain ⟨y, hy, rfl⟩ := mem_update.mp hx
    obtain ⟨row, hrow, hkey, hsts, hto, hep, hdr⟩ := h.executing y hy
    split
    · refine ⟨row, hrow, hkey, hsts, hto, hep, ?_⟩
      rcases written_inside w.now action y.draft with hsa | ⟨-, hwr⟩
      · dsimp only
        rw [hsa]
        exact hdr
      · exact hdr.trans hwr
    · exact ⟨row, hrow, hkey, hsts, hto, hep, hdr⟩

theorem Sound.drop (h : w.Sound) (call) : (w.drop call).Sound where
  keys := h.keys
  unique := h.unique
  epochs := h.epochs
  tokens := h.tokens
  fenced := h.fenced
  known := h.known
  exclusive := h.exclusive.sublist (filter_sublist.map _)
  calls := ⟨h.calls.1.sublist (filter_sublist.map _), fun x hx => h.calls.2 x (mem_filter.mp hx).1⟩
  executing x hx := h.executing x (mem_filter.mp hx).1

theorem execution_mem {x} (h : w.execution call = some x) : x ∈ w.executions ∧ x.call = call := by
  refine ⟨mem_of_find?_eq_some h, ?_⟩
  simpa using find?_some h

theorem Sound.drop_unlocked (h : w.Sound) {x} (hx : w.execution call = some x) : (w.drop call).locked x.lease.key = false := by
  obtain ⟨hmem, hcal⟩ := execution_mem hx
  rw [not_locked]
  intro y hy hkey
  obtain ⟨hy, hne⟩ := mem_filter.mp hy
  have heq : y = x := eq_of_key h.exclusive hy hmem hkey
  simp [heq, hcal] at hne

theorem Sound.leave (h : w.Sound) (call) : (w.leave call).Sound := by
  rw [World.leave]
  cases hx : w.execution call with
  | none => exact h
  | some x =>
    obtain ⟨row, hrow, hkey, hsts, -, -, hdr⟩ := h.executing x (execution_mem hx).1
    have hroO : ∀ row' ∈ w.rows, row'.key = x.lease.key → row' = row := fun row' hro' hke' =>
      eq_of_key h.keys hro' hrow (hke'.trans hkey.symm)
    apply (h.drop call).written
    · intro row' hro' hp
      have hke' : row'.key = x.lease.key := by simpa using hp
      refine ⟨?_, hke' ▸ h.drop_unlocked hx⟩
      rw [hroO row' hro' hke', hsts]
      rfl
    · intro row' hro' hp
      have hke' : row'.key = x.lease.key := by simpa using hp
      rw [hroO row' hro' hke']
      exact hdr

theorem whenFree_cases (key next) : w.whenFree key next = w ∨ (w.locked key = false ∧ w.whenFree key next = next) := by
  rw [whenFree]
  cases hlo : w.locked key with
  | true => exact .inl rfl
  | false => exact .inr ⟨rfl, rfl⟩

theorem Sound.step (h : w.Sound) (e) : (step w e).Sound := by
  cases e with
  | tick elapsed => exact ⟨h.keys, h.unique, h.epochs, h.tokens, h.fenced, h.known, h.exclusive, h.calls, h.executing⟩
  | begin input =>
    rw [ProjectMutations.step]
    rcases begin_spec w.now w.rows input with hsa | ⟨hins, hnew, hfr⟩
    · rw [hsa]
      exact h
    · rw [hins]
      exact h.insert input hnew hfr
  | claim input =>
    rw [ProjectMutations.step]
    rcases whenFree_cases (w := w) input.key (w.grant (input.matches w.now) (input.claim w.now)) with hwa | ⟨hfr, hgr⟩
    · rw [hwa]
      exact h
    · rw [hgr]
      refine h.grant (fun row => ⟨_, _, _, rfl⟩) ?_
      intro row hrow hmas
      obtain ⟨hkey, hcl⟩ := claim_matches hmas
      exact ⟨hcl, hkey ▸ hfr⟩
  | claimRecoverable input skip tokens =>
    refine h.grant (fun row => ⟨_, _, _, rfl⟩) ?_
    intro row hrow hmas
    obtain ⟨hsk, hcl⟩ := recover_matches h.keys hrow hmas
    refine ⟨hcl, not_locked.mpr fun x hx hkey => hsk ?_⟩
    exact mem_append_left _ (mem_map.mpr ⟨x, hx, hkey⟩)
  | write action =>
    rw [ProjectMutations.step]
    rcases whenFree_cases (w := w) action.lease.key { w with rows := action.apply w.now w.rows } with hwa | ⟨hfr, hwri⟩
    · rw [hwa]
      exact h
    · obtain ⟨f, hf, hwr⟩ := apply_spec w.now action
      rw [hwri, hf]
      apply h.written
      · intro row _ hhos
        obtain ⟨hkey, hsts, -⟩ := holds_iff.mp hhos
        rw [hkey, hsts]
        exact ⟨rfl, hfr⟩
      · exact fun row _ _ => hwr row
  | reconcile actor input =>
    rw [ProjectMutations.step]
    rcases whenFree_cases (w := w) input.key { w with rows := (reconcileProjectMutation w.now w.rows actor input).2 } with
      hwa | ⟨hfr, hwri⟩
    · rw [hwa]
      exact h
    · rw [hwri]
      rcases reconcile_spec w.now w.rows actor input with hsa | hup
      · rw [hsa]
        exact h
      · rw [hup]
        apply h.written
        · intro row _ hmas
          obtain ⟨hkey, -, hsts, -⟩ := matches_iff.mp hmas
          rw [hkey, hsts]
          exact ⟨rfl, hfr⟩
        · exact fun row _ _ => written_reconciled
  | enter lease =>
    rw [ProjectMutations.step]
    rcases whenFree_cases (w := w) lease.key (w.enter lease) with hwa | ⟨hfr, hen⟩
    · rw [hwa]
      exact h
    · rw [hen]
      exact h.enter hfr
  | inside call action => exact h.inside
  | leave call => exact h.leave call
  | abandon call => exact h.drop call

end World

end Supacloud.ProjectMutations
