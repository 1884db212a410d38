import Supacloud.Worker.Lemmas.Admission
import Supacloud.Worker.Lemmas.Schedule

/-! 受け入れの勘定と、予定の埋め戻し。 -/

namespace Supacloud.Worker

open Library Window

variable {db : Db} {group operation fingerprint : Text}

structure World.Accounted (w : World) : Prop where
  outstanding : ∀ group row, w.db.limits group = some row →
    row.outstanding = w.db.tokens.countP (TokenRow.heldIn group) ∧ row.outstanding ≤ row.quota.maxOutstanding
  once : ∀ group operation, w.log.countP (Entry.admits group operation) ≤ 1
  /-- 前に受け入れた操作は、同じ指紋なら `false` を返し、違う指紋なら失敗する。 -/
  repeated : ∀ group operation fingerprint first, Entry.admitted group operation fingerprint first ∈ w.log →
    ∀ again, w.db.admitOperation w.db.projectRef group operation again =
      if again = fingerprint then .ok (false, w.db) else .error .conflict
  idempotent : ∀ project group operation db, w.db.releaseOperation project group operation = .ok db →
    db.releaseOperation project group operation = .ok db

theorem Db.Inv.releaseOperation_again (hi : db.Inv) {project db'}
    (h : db.releaseOperation project group operation = .ok db') : db'.releaseOperation project group operation = .ok db' := by
  have hpr : db.projectRef = project := by
    unfold Db.releaseOperation at h
    grind
  obtain ⟨row, t, hl, ht, hcas⟩ := releaseOperation_cases hi h
  obtain ⟨hmem, hkey⟩ := Db.token_some ht
  have hone : ∀ r ∈ db.tokens, r.key = (group, operation) → r = t := fun r hr hk => eq_of_key hi.keys hr hmem (hk.trans hkey.symm)
  -- どちらの場合も、この鍵の札は戻してある。
  obtain ⟨hp, row', hl', t', ht', hre⟩ : db'.projectRef = project ∧ ∃ row', db'.limits group = some row' ∧
      ∃ t', db'.token group operation = some t' ∧ ∀ r ∈ db'.tokens, r.key = (group, operation) → r.released = true := by
    rcases hcas with ⟨hr, rfl⟩ | ⟨hr, rfl⟩
    · exact ⟨hpr, row, hl, t, ht, fun r hmem hk => by rw [hone r hmem hk, hr]⟩
    · refine ⟨hpr, { row with outstanding := row.outstanding - 1 }, by simp [Db.setOutstanding],
        { t with released := true }, by simp [token_release, ht], ?_⟩
      intro r hme' hk
      simp only [Db.setOutstanding, Db.release, mem_update] at hme'
      grind [TokenRow.key]
  have hze : db'.tokens.countP (fun t => t.key = (group, operation) && !t.released) = 0 := by
    rw [List.countP_eq_zero]
    grind
  simp [Db.releaseOperation, hp, hl', hze, ht']

/-- 枠の数は、戻していない札の数に等しく、枠を超えず、どの操作も初めて受け入れられるのは高々一度である。 -/
theorem admission_accounted (projectRef : Text) (quotas : Text → Option (Quota × Bool)) (es : List Event) :
    (run World.step (World.provisioned projectRef quotas) es).Accounted := by
  have h : (run World.step (World.provisioned projectRef quotas) es).Sound :=
    run_invariant (fun _ e hw => hw.step e) (World.provisioned_sound projectRef quotas)
  constructor
  · exact fun group row hl => ⟨h.counted group row hl, h.bounded group row hl⟩
  · exact h.once
  · intro group operation fingerprint first hlog again
    obtain ⟨t, ht, rfl⟩ := h.recorded group operation fingerprint first hlog
    obtain ⟨hmem, hkey⟩ := Db.token_some ht
    obtain ⟨row, hl⟩ := h.known t hmem
    obtain ⟨rfl, rfl⟩ : t.groupName = group ∧ t.operationId = operation := by simpa [TokenRow.key] using hkey
    simp only [Db.admitOperation, hl, ht]
    grind
  · exact fun project group operation db hr => h.toInv.releaseOperation_again hr

/-! ## 予定 -/

variable {window : BackfillWindow} {r : Window}

structure Backfills (window : BackfillWindow) (r : Window) : Prop where
  exact : ∃ ts, Lists r.Occurs ts ∧
    backfillOccurrences window = if r.limit < ts.length then .error .backfillLimit else .ok (ts.map newDate)
  split : ∀ mid, r.first ≤ mid → mid < r.last → ∀ dates, backfillOccurrences window = .ok dates →
    ∃ left right, backfillOccurrences (window.between r.first mid) = .ok left ∧
      backfillOccurrences (window.between (mid + 1) r.last) = .ok right ∧ dates = left ++ right
  key : ∀ id id' d d' key, scheduledJobKey id d = .ok key → scheduledJobKey id' d' = .ok key → id = id' ∧ d.time = d'.time

/-- 埋め戻しは、窓を分けても同じ時刻の列になり、鍵は予定と時刻を決める。 -/
theorem backfill_exact (h : window.Valid r) : Backfills window r := by
  obtain ⟨ts, hlis, hok⟩ := backfill_eq h
  refine ⟨⟨ts, hlis, hok⟩, ?_, fun _ _ _ _ _ => scheduledJobKey_injective⟩
  intro mid hlow hhi dates hdas
  obtain ⟨left, hle, hleO⟩ := backfill_eq (h.between le_rfl hlow hhi.le)
  obtain ⟨right, hri, hriO⟩ := backfill_eq (h.between (by omega) (show mid + 1 ≤ r.last by omega) le_rfl)
  obtain rfl : ts = left ++ right := by
    apply hlis.unique (hle.append hri _ _)
    · rintro a b ⟨-, ha, -⟩ ⟨hb, -, -⟩
      simp only [narrow] at ha hb
      omega
    · intro t
      simp only [Occurs, narrow]
      constructor
      · rintro ⟨h₀, h₁, h₂⟩
        by_cases ht : t ≤ mid
        · exact .inl ⟨h₀, ht, h₂⟩
        · exact .inr ⟨by omega, h₁, h₂⟩
      · rintro (⟨h₀, h₁, h₂⟩ | ⟨h₀, h₁, h₂⟩)
        · exact ⟨h₀, by omega, h₂⟩
        · exact ⟨by omega, h₁, h₂⟩
  -- 全体が上限に収まれば、どちらの部分も収まる。
  rw [hok] at hdas
  split at hdas
  · cases hdas
  · rename_i hli
    cases hdas
    simp only [List.length_append, Nat.cast_add] at hli
    refine ⟨left.map newDate, right.map newDate, ?_, ?_, List.map_append⟩
    · rw [hleO, if_neg (by simp only [narrow]; omega)]
    · rw [hriO, if_neg (by simp only [narrow]; omega)]

def minutely : BackfillWindow where
  scheduleId := "nightly".toList
  intervalSeconds := .finite 60
  fromDate := newDate 50000
  toDate := newDate 210000
  anchor := some (newDate 270000)
  limit := some (.finite 3)

theorem minutely_key {t : ℤ} (h₀ : 0 ≤ t) (h₁ : t < 86400000) : ∃ key, scheduledJobKey minutely.scheduleId (newDate t) = .ok key := by
  have hday : t / 86400000 = 0 := by omega
  have hms : t % 86400000 = t := by omega
  have hiso : isoString t = pad 4 1970 ++ isoRest 1 1 t.toNat := by
    simp only [isoString, hday, hms]
    rfl
  have hdigit (n : ℕ) : (digit n).isAlphanum = true := by simp [Char.isAlphanum, digit_isDigit]
  have hlen : (isoString t).length = 24 := by simp [hiso]
  have hall : (isoString t).all (fun c => c.isAlphanum || "_.:@/-".toList.contains c) = true := by
    simp [hiso, isoRest, pad, hdigit]
  have hkey (front : Text) (hshort : front.length ≤ 100) (hfront : front.all (fun c => c.isAlphanum || "_.:@/-".toList.contains c) = true) :
      validateJobKey (front ++ isoString t) = .ok (front ++ isoString t) := by
    rw [validateJobKey, if_pos]
    rw [Bool.and_eq_true, Bool.and_eq_true, decide_eq_true_eq, decide_eq_true_eq, List.length_append, hlen, List.all_append, hfront, hall]
    exact ⟨⟨by omega, by omega⟩, rfl⟩
  have hshort := hkey "nightly:".toList (by decide) (by decide)
  have hlong := hkey "schedule:nightly:".toList (by decide) (by decide)
  have hdate : (newDate t).time = some t := if_pos (by simp only [maxTime]; omega)
  refine ⟨"schedule:nightly:".toList ++ isoString t, ?_⟩
  have hid : validateJobKey minutely.scheduleId = .ok "nightly".toList := by rfl
  have hqueue : validateQueueName scheduleQueue = .ok scheduleQueue := by rfl
  have hstable : stableJobKey scheduleQueue ("nightly:".toList ++ isoString t) = .ok ("schedule:nightly:".toList ++ isoString t) := by
    simp only [stableJobKey, hqueue, hshort]
    exact hlong
  simp only [scheduledJobKey, hid, timestamp, hdate]
  exact congrArg (Except.mapError _) hstable

theorem backfill_exact_minutely : backfillOccurrences minutely = .ok ([90000, 150000, 210000].map newDate) ∧
      ∃ left right, backfillOccurrences (minutely.between 50000 100000) = .ok left ∧
        backfillOccurrences (minutely.between 100001 210000) = .ok right ∧ [90000, 150000, 210000].map newDate = left ++ right := by
  have h : Backfills minutely ⟨50000, 210000, 270000, 60000, 3, by decide, by decide⟩ :=
    backfill_exact ⟨rfl, fun t h₀ h₁ => minutely_key (by simp only at h₀; omega) (by simp only at h₁; omega)⟩
  obtain ⟨ts, hlists, hok⟩ := h.exact
  obtain rfl : ts = [90000, 150000, 210000] := by
    refine hlists.unique ⟨by decide, fun t => ?_⟩
    simp only [Window.Occurs, Int.ModEq, List.mem_cons, List.not_mem_nil, or_false]
    omega
  exact ⟨hok, h.split 100000 (by decide) (by decide) _ hok⟩

end Supacloud.Worker
