import Supacloud.Worker.Admission

/-! 受け入れの数と、札の行と、確定した記録の合い方。 -/

namespace Supacloud.Worker

open Library Db TokenRow Entry World List Option

variable {db db' : Db} {w : World} {group operation fingerprint project : Text} {row : LimitRow} {t : TokenRow}
  {entries log : List Entry}

def TokenRow.heldIn (group : Text) (t : TokenRow) : Bool := t.groupName = group && !t.released

def Entry.admits (group operation : Text) : Entry → Bool
  | .admitted g o _ first => g = group && o = operation && first
  | .released .. => false

structure Db.Inv (db : Db) : Prop where
  keys : (db.tokens.map TokenRow.key).Nodup
  counted : ∀ group row, db.limits group = some row → row.outstanding = db.tokens.countP (TokenRow.heldIn group)
  bounded : ∀ group row, db.limits group = some row → row.outstanding ≤ row.quota.maxOutstanding
  known : ∀ t ∈ db.tokens, ∃ row, db.limits t.groupName = some row

structure Fits (db : Db) (log : List Entry) : Prop extends db.Inv where
  once : ∀ group operation, log.countP (Entry.admits group operation) ≤ 1
  fresh : ∀ group operation, db.token group operation = none → log.countP (Entry.admits group operation) = 0
  recorded : ∀ group operation fingerprint first, Entry.admitted group operation fingerprint first ∈ log →
    ∃ t, db.token group operation = some t ∧ t.fingerprint = fingerprint

/-! ## 一つの呼び出し -/

theorem Db.token_some (h : db.token group operation = some t) : t ∈ db.tokens ∧ t.key = (group, operation) :=
  ⟨mem_of_find?_eq_some h, by simpa using find?_some h⟩

theorem admitOperation_cases {first} (h : db.admitOperation project group operation fingerprint = .ok (first, db')) :
    ∃ row, db.limits group = some row ∧
      ((∃ t, db.token group operation = some t ∧ t.fingerprint = fingerprint ∧ first = false ∧ db' = db) ∨
        (db.token group operation = none ∧ row.outstanding < row.quota.maxOutstanding ∧ first = true ∧
          db' = (db.insertToken ⟨group, operation, fingerprint, false⟩).setOutstanding group row (row.outstanding + 1))) := by
  unfold admitOperation at h
  split at h
  · cases h
  · cases hl : db.limits group with
    | none => simp [hl] at h
    | some row =>
      cases ht : db.token group operation with
      | none | some t => grind

theorem releaseOperation_cases (hi : db.Inv) (h : db.releaseOperation project group operation = .ok db') :
    ∃ row t, db.limits group = some row ∧ db.token group operation = some t ∧ ((t.released = true ∧ db' = db) ∨ (t.released = false ∧
        db' = (db.release fun r => r.key = t.key).setOutstanding group row (row.outstanding - 1))) := by
  unfold releaseOperation at h
  split at h
  · cases h
  · cases hl : db.limits group with
    | none => simp [hl] at h
    | some row =>
      cases ht : db.token group operation with
      | none =>
        have hno : ∀ t ∈ db.tokens, t.key ≠ (group, operation) := by simpa [token] using ht
        have hze : db.tokens.countP (fun t => t.key = (group, operation) && !t.released) = 0 := by
          rw [countP_eq_zero]
          grind
        simp [hl, ht, hze] at h
      | some t =>
        obtain ⟨hmem, hkey⟩ := token_some ht
        have hone : ∀ r ∈ db.tokens, r.key = (group, operation) → r = t := fun r hr hk =>
          eq_of_key hi.keys hr hmem (hk.trans hkey.symm)
        cases hr : t.released with
        | true =>
          have hze : db.tokens.countP (fun t => t.key = (group, operation) && !t.released) = 0 := by
            rw [countP_eq_zero]
            grind
          simp only [hl, ht, hze] at h
          exact ⟨row, t, rfl, rfl, .inl ⟨hr, by simpa using h.symm⟩⟩
        | false =>
          -- 札の鍵は重ならないので、戻す札は t だけである。
          have hhe : update (fun r => r.key = (group, operation) && !r.released) (fun r => { r with released := true }) db.tokens
              = update (fun r => r.key = t.key) (fun r => { r with released := true }) db.tokens := by
            apply map_congr_left
            grind
          have hle : db.tokens.countP (fun t => t.key = (group, operation) && !t.released) ≤ 1 := by
            apply Nat.le_trans _ (nodup_iff_count_le_one.mp hi.keys (group, operation))
            rw [count, countP_map]
            exact countP_mono_left (by grind)
          have hpos : 0 < db.tokens.countP (fun t => t.key = (group, operation) && !t.released) :=
            countP_pos_iff.mpr ⟨t, hmem, by simp [hkey, hr]⟩
          have hco : db.tokens.countP (fun t => t.key = (group, operation) && !t.released) = 1 := by omega
          simp only [hl, hco, if_true, release, hhe] at h
          split at h
          · cases h
          · exact ⟨row, t, rfl, rfl, .inr ⟨hr, by simpa [release] using h.symm⟩⟩

theorem Db.Inv.insert (hi : db.Inv) (hl : db.limits group = some row) (hfr : db.token group operation = none)
    (hro : row.outstanding < row.quota.maxOutstanding) :
    ((db.insertToken ⟨group, operation, fingerprint, false⟩).setOutstanding group row (row.outstanding + 1)).Inv := by
  have hap : ∀ t ∈ db.tokens, t.key ≠ (group, operation) := by simpa [token] using hfr
  constructor
  · simp only [setOutstanding, insertToken, map_append, map_cons, map_nil]
    exact hi.keys.append (by simp) (by simpa [key] using fun t ht => hap t ht)
  · intro g r h
    simp only [setOutstanding, insertToken, countP_append] at h ⊢
    have := hi.counted
    grind [heldIn]
  · intro g r h
    simp only [setOutstanding, insertToken] at h
    grind [→ hi.bounded]
  · intro t ht
    simp only [setOutstanding, insertToken, mem_append, mem_singleton] at ht ⊢
    grind [→ hi.known]

theorem Db.Inv.release (hi : db.Inv) (hl : db.limits group = some row) (hmem : t ∈ db.tokens)
    (hkey : t.key = (group, operation)) (hhe : t.released = false) :
    ((db.release fun r => r.key = t.key).setOutstanding group row (row.outstanding - 1)).Inv := by
  have hco (g) := countP_update_key (f := fun r => { r with released := true }) hi.keys hmem (TokenRow.heldIn g)
  constructor
  · simp only [Db.setOutstanding, Db.release]
    rw [map_update (by intro a _; rfl)]
    exact hi.keys
  · intro g r h
    simp only [Db.setOutstanding, Db.release] at h ⊢
    specialize hco g
    have := hi.counted
    grind [TokenRow.heldIn, TokenRow.key]
  · intro g r h
    simp only [Db.setOutstanding, Db.release] at h
    grind [→ hi.bounded]
  · intro r hr
    simp only [Db.setOutstanding, Db.release, mem_update] at hr ⊢
    grind [→ hi.known]

theorem token_insert (hfr : db.token group operation = none) (g o) :
    ((db.insertToken ⟨group, operation, fingerprint, false⟩).setOutstanding group row (row.outstanding + 1)).token g o =
      if g = group ∧ o = operation then some ⟨group, operation, fingerprint, false⟩ else db.token g o := by
  simp only [token, setOutstanding, insertToken, find?_append, key] at hfr ⊢
  by_cases hk : g = group ∧ o = operation
  · obtain ⟨rfl, rfl⟩ := hk
    rw [hfr]
    simp
  · have hne : ¬ (group = g ∧ operation = o) := fun h => hk ⟨h.1.symm, h.2.symm⟩
    simp [hk, hne]

theorem token_release (g o) : ((db.release fun r => r.key = t.key).setOutstanding group row (row.outstanding - 1)).token g o =
      (db.token g o).map fun r => if r.key = t.key then { r with released := true } else r := by
  simp only [token, setOutstanding, release]
  rw [find?_update (by intro a _; rfl)]
  simp

/-! ## 記録 -/

theorem Fits.call {entry} (h : Fits db log) {c} (hc : db.call c = .ok (entry, db')) : Fits db' (log ++ [entry]) := by
  cases c with
  | admitOperation project group operation fingerprint =>
    cases ha : db.admitOperation project group operation fingerprint with
    | error e => simp [Db.call, ha, bind, Except.bind] at hc
    | ok result =>
      obtain ⟨first, db''⟩ := result
      obtain ⟨rfl, rfl⟩ : admitted group operation fingerprint first = entry ∧ db'' = db' := by
        simpa [Db.call, ha, bind, Except.bind, pure, Except.pure] using hc
      obtain ⟨row, hl, ⟨t, ht, hf, rfl, rfl⟩ | ⟨hfr, hro, rfl, rfl⟩⟩ := admitOperation_cases ha
      · refine ⟨h.toInv, ?_, ?_, ?_⟩
        · simpa [admits] using h.once
        · simpa [admits] using h.fresh
        · grind [h.recorded]
      · refine ⟨h.toInv.insert hl hfr hro, ?_, ?_, ?_⟩
        · intro g o
          have := h.fresh g o
          have := h.once g o
          simp only [countP_append, countP_singleton, admits]
          grind
        · intro g o hno
          rw [token_insert hfr] at hno
          have := h.fresh g o
          simp only [countP_append, countP_singleton, admits]
          grind
        · intro g o f first hmem
          rw [token_insert hfr]
          rcases mem_append.mp hmem with hold | hnew
          · obtain ⟨t, ht, hf⟩ := h.recorded g o f first hold
            exact ⟨t, by grind, hf⟩
          · obtain ⟨rfl, rfl, rfl, rfl⟩ : g = group ∧ o = operation ∧ f = fingerprint ∧ first = true := by simpa using hnew
            exact ⟨⟨g, o, f, false⟩, by simp, rfl⟩
  | release project group operation =>
    cases hr : db.releaseOperation project group operation with
    | error e => simp [Db.call, hr, bind, Except.bind] at hc
    | ok db'' =>
      obtain ⟨rfl, rfl⟩ : released group operation = entry ∧ db'' = db' := by
        simpa [Db.call, hr, bind, Except.bind, pure, Except.pure] using hc
      obtain ⟨row, t, hl, ht, ⟨-, rfl⟩ | ⟨hhe, rfl⟩⟩ := releaseOperation_cases h.toInv hr
      · refine ⟨h.toInv, ?_, ?_, ?_⟩
        · simpa [admits] using h.once
        · simpa [admits] using h.fresh
        · grind [h.recorded]
      · obtain ⟨hmem, hkey⟩ := token_some ht
        refine ⟨h.toInv.release hl hmem hkey hhe, ?_, ?_, ?_⟩
        · simpa [admits] using h.once
        · intro g o hno
          rw [token_release, map_eq_none_iff] at hno
          simpa [admits] using h.fresh g o hno
        · intro g o f first hmem
          rw [token_release]
          obtain ⟨r, hr, hf⟩ := h.recorded g o f first (by simpa using hmem)
          refine ⟨if r.key = t.key then { r with released := true } else r, by simp [hr], ?_⟩
          split <;> exact hf

theorem Fits.calls (h : Fits db log) {cs} (hc : db.calls cs = .ok (entries, db')) : Fits db' (log ++ entries) := by
  induction cs generalizing db log entries with
  | nil =>
    obtain ⟨rfl, rfl⟩ : [] = entries ∧ db = db' := by simpa [calls] using hc
    simpa using h
  | cons c cs ih =>
    cases hfi : db.call c with
    | error e => simp [calls, hfi, bind, Except.bind] at hc
    | ok result =>
      obtain ⟨entry, db₁⟩ := result
      cases hre : db₁.calls cs with
      | error e => simp [calls, hfi, hre, bind, Except.bind] at hc
      | ok result =>
        obtain ⟨rest, db₂⟩ := result
        obtain ⟨rfl, rfl⟩ : entry :: rest = entries ∧ db₂ = db' := by
          simpa [calls, hfi, hre, bind, Except.bind, pure, Except.pure] using hc
        simpa using ih (h.call hfi) hre

def World.Sound (w : World) : Prop := Fits w.db w.log

theorem World.Sound.step (h : w.Sound) (e) : (w.step e).Sound := by
  cases e with
  | transaction calls aborted =>
    cases hc : w.db.calls calls with
    | error e => simpa [World.step, hc] using h
    | ok result =>
      cases aborted with
      | true => simpa [World.step, hc] using h
      | false => simpa [World.step, hc, World.Sound] using Fits.calls h hc
  | setAccepting group accepting =>
    refine ⟨⟨h.keys, ?_, ?_, ?_⟩, h.once, h.fresh, h.recorded⟩
    · intro g r hr
      obtain ⟨row, hrow, rfl⟩ := map_eq_some_iff.mp hr
      have := h.counted g row hrow
      simp only [World.step]
      grind
    · intro g r hr
      obtain ⟨row, hrow, rfl⟩ := map_eq_some_iff.mp hr
      have := h.bounded g row hrow
      grind
    · intro t ht
      obtain ⟨row, hrow⟩ := h.known t ht
      exact ⟨_, map_eq_some_iff.mpr ⟨row, hrow, rfl⟩⟩

theorem World.provisioned_sound (projectRef quotas) : (provisioned projectRef quotas).Sound := by
  refine ⟨⟨by simp [provisioned], ?_, ?_, by simp [provisioned]⟩, by simp [provisioned],
    by simp [provisioned], by simp [provisioned]⟩
  · intro g row hrow
    obtain ⟨q, -, rfl⟩ := map_eq_some_iff.mp hrow
    rfl
  · intro g row hrow
    obtain ⟨q, -, rfl⟩ := map_eq_some_iff.mp hrow
    exact Nat.zero_le _

end Supacloud.Worker
