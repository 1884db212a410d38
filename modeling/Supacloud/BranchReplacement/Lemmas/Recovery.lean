import Supacloud.BranchReplacement.Replacement

/-!
# 置き換えの局面
-/

namespace Supacloud.BranchReplacement

open Library Function World Triple Journal

variable {A : Response → Prop} {P : World → Prop} {w : World} {E : Failure → World → Prop} {α : Type}

namespace World

def Idle (w : World) : Prop := w.databases .parent = some ⟨.original, true⟩ ∧ w.databases .backup = none

def Disabled (w : World) : Prop :=
  w.databases .parent = some ⟨.original, false⟩ ∧ w.databases .backup = none ∧ w.journal.isSome

def Moved (w : World) : Prop := w.databases .parent = none ∧ (∃ allowed, w.databases .backup = some ⟨.original, allowed⟩) ∧ w.journal.isSome

def Replaced (w : World) : Prop :=
  w.databases .parent = some ⟨.replacement, true⟩ ∧ (∃ allowed, w.databases .backup = some ⟨.original, allowed⟩) ∧ w.databases .temp = none

structure Inv (w : World) : Prop where
  phase : w.Idle ∨ w.Disabled ∨ w.Moved ∨ w.Replaced
  names : ∀ entry ∈ w.journal, entry.names = replacementDatabaseNames

theorem inv_start (project branch) : (start project branch).Inv where
  phase := .inl ⟨rfl, rfl⟩
  names entry hen := by simp [start] at hen

theorem Inv.kept (h : w.Inv) : w.Kept := by
  rcases h.phase with ⟨hpa, -⟩ | ⟨hpa, -⟩ | ⟨-, ⟨allowed, hba⟩, -⟩ | ⟨-, ⟨allowed, hba⟩, -⟩
  · exact .inl ⟨_, hpa, rfl⟩
  · exact .inl ⟨_, hpa, rfl⟩
  · exact .inr ⟨_, hba, rfl⟩
  · exact .inr ⟨_, hba, rfl⟩

theorem Inv.settled (h : w.Inv) : w.Settled := by
  intro hno
  rcases h.phase with ⟨hpa, hba⟩ | ⟨-, -, hjo⟩ | ⟨-, -, hjo⟩ | ⟨hpa, ⟨allowed, hba⟩, -⟩
  · exact ⟨_, hpa, rfl, .inl ⟨rfl, hba⟩⟩
  · rw [hno] at hjo
    cases hjo
  · rw [hno] at hjo
    cases hjo
  · exact ⟨_, hpa, rfl, .inr ⟨rfl, _, hba, rfl⟩⟩

def Coarse (P : World → Prop) : Prop := ∀ w w', w'.databases = w.databases → w'.journal.isSome = w.journal.isSome → P w → P w'

def Apart (P : World → Prop) : Prop := ∀ w, P w → P { w with databases := Function.update w.databases .temp none }

theorem coarse_idle : Coarse Idle := by
  intro w w' hdb _ h
  rwa [Idle, hdb]

theorem coarse_disabled : Coarse Disabled := by
  intro w w' hdb hjo h
  rwa [Disabled, hdb, hjo]

theorem coarse_moved : Coarse Moved := by
  intro w w' hdb hjo h
  rwa [Moved, hdb, hjo]

theorem coarse_replaced : Coarse Replaced := by
  intro w w' hdb _ h
  rwa [Replaced, hdb]

theorem coarse_recorded : Coarse fun w => w.journal.isSome = true := fun _ _ _ hjo h => hjo.trans h

theorem Coarse.and {P Q} (hP : Coarse P) (hQ : Coarse Q) : Coarse fun w => P w ∧ Q w :=
  fun w w' hdb hjo h => ⟨hP w w' hdb hjo h.1, hQ w w' hdb hjo h.2⟩

theorem Coarse.or {P Q} (hP : Coarse P) (hQ : Coarse Q) : Coarse fun w => P w ∨ Q w :=
  fun w w' hdb hjo h => h.imp (hP w w' hdb hjo) (hQ w w' hdb hjo)

theorem apart_idle : Apart Idle := fun _ h => h

theorem apart_disabled : Apart Disabled := fun _ h => h

theorem apart_moved : Apart Moved := fun _ h => h

theorem apart_replaced : Apart Replaced := fun _ h => ⟨h.1, h.2.1, rfl⟩

theorem Apart.and {P Q} (hP : Apart P) (hQ : Apart Q) : Apart fun w => P w ∧ Q w := fun w h => ⟨hP w h.1, hQ w h.2⟩

theorem Apart.or {P Q} (hP : Apart P) (hQ : Apart Q) : Apart fun w => P w ∨ Q w := fun w h => h.imp (hP w) (hQ w)

theorem Inv.apart (h : w.Inv) : ({ w with databases := update w.databases .temp none } : World).Inv where
  phase := (apart_idle.or (apart_disabled.or (apart_moved.or apart_replaced))) w h.phase
  names := h.names

end World

variable (parentDb : DatabaseName) (entry : BranchReplacementJournalEntry) (label : Statement)

/-! ## 触れない文 -/

theorem query_spec (read : World → α) : Triple Inv A P (query label read) (fun a w => P w ∧ a = read w) (fun _ => P) := by
  refine await (fun w ω a w' hi hp _ hrun => ?_) fun w _ _ hp => hp
  cases hrun
  exact ⟨hi, ⟨hp, rfl⟩, fun _ _ => hp⟩

theorem external_spec : Triple Inv A P (external label) (fun _ => P) (fun _ => P) :=
  (query_spec label fun _ => ()).post fun _ _ _ hq => hq.1

theorem dropTemp_spec (hP : Apart P) : Triple Inv A P (dropDatabaseIfExists .temp) (fun _ => P) (fun _ => P) := by
  refine (external_spec _).bind fun _ => await (fun w ω a w' hi hp _ hrun => ?_) fun w _ _ hp => hp
  cases hrun
  exact ⟨hi.apart, hP w hp, fun _ _ => hP w hp⟩

theorem dropTempWithWarning_spec (hP : Apart P) :
    Triple Inv A P (dropDatabaseWithWarning .temp) (fun _ => P) E := (dropTemp_spec hP).attempt

theorem setPhase_spec (hP : Coarse P) (phase recoveryDatabase) (replacementCommitted) :
    Triple Inv A P (setPhase phase recoveryDatabase replacementCommitted) (fun _ => P) (fun _ => P) := by
  refine await (fun w ω a w' hi hp _ hrun => ?_) fun w _ _ hp => hp
  cases hrun
  have hke : P { w with
      journal := w.journal.map fun entry =>
        { entry with phase, replacementCommitted := replacementCommitted.getD entry.replacementCommitted, recoveryDatabase } } :=
    hP w _ rfl (by simp) hp
  refine ⟨⟨?_, ?_⟩, hke, fun _ _ => hke⟩
  · exact (coarse_idle.or (coarse_disabled.or (coarse_moved.or coarse_replaced))) w _ rfl (by simp) hi.phase
  · intro entry hen
    obtain ⟨old, hold, rfl⟩ := Option.map_eq_some_iff.mp hen
    exact hi.names old hold

theorem mark_spec (hP : Coarse P) (recoveryDatabase replacementCommitted) :
    Triple Inv A P (markReplacementRecoveryRequiredBestEffort recoveryDatabase replacementCommitted) (fun _ => P) E :=
  (setPhase_spec hP _ _ _).attempt

theorem remove_spec : Triple Inv A (fun w => w.Idle ∨ w.Replaced) remove (fun _ w => w.Idle ∨ w.Replaced)
    (fun _ w => w.Idle ∨ w.Replaced) := by
  refine await (fun w ω a w' hi hp _ hrun => ?_) fun w _ _ hp => hp
  cases hrun
  have hp' : ({ w with journal := none } : World).Idle ∨ ({ w with journal := none } : World).Replaced := hp
  refine ⟨⟨hp.elim .inl fun h => .inr (.inr (.inr h)), fun entry hen => ?_⟩, hp', fun _ _ => hp'⟩
  exact absurd hen (Option.not_mem_none entry)

theorem clear_spec :
    Triple Inv A (fun w => w.Idle ∨ w.Replaced) clearReplacementJournalBestEffort (fun _ w => w.Idle ∨ w.Replaced) E :=
  remove_spec.attempt

theorem restartAndVerify_spec : Triple Inv A P (restartParentRuntimeAndVerify parentDb) (fun _ => P) (fun _ => P) := by
  refine (external_spec _).bind fun _ => bind (Q := fun _ => P) ?_ fun runtimeStatus => ?_
  · refine await (fun w ω a w' hi hp _ hrun => ?_) fun w _ _ hp => hp
    cases hrun
    exact ⟨hi, hp, fun _ _ => hp⟩
  · split
    · exact throw _ fun w _ hp => hp
    · exact pure _ fun w _ hp => hp

theorem restartBestEffort_spec : Triple Inv A P (restartParentRuntimeBestEffort parentDb) (fun _ => P) E :=
  ((external_spec _).bind fun _ => external_spec _).attempt

/-!
## 途切れた置き換えの後始末の仕様
-/

namespace World

def Unswitched (w : World) : Prop := w.Idle ∨ w.Disabled

end World

theorem reenable_spec : Triple Inv A Unswitched (setDatabaseConnectionsAllowed .parent true) (fun _ => Idle)
    (fun _ => Unswitched) := by
  refine await (fun w ω a w' hi hp _ hrun => ?_) fun w _ _ hp => hp
  have hpa : ∃ allowed, w.databases .parent = some ⟨.original, allowed⟩ ∧ w.databases .backup = none := by
    rcases hp with hp | hp
    · exact ⟨true, hp⟩
    · exact ⟨false, hp.1, hp.2.1⟩
  obtain ⟨allowed, hpa, hba⟩ := hpa
  simp only [World.setDatabaseConnectionsAllowed, hpa, Except.ok.injEq, Prod.mk.injEq, true_and] at hrun
  cases hrun
  have hidl : ({ w with databases := update w.databases .parent (some ⟨.original, true⟩) } : World).Idle :=
    ⟨by simp, by simpa using hba⟩
  exact ⟨⟨.inl hidl, hi.names⟩, hidl, fun _ _ => .inl hidl⟩

theorem restoreName_spec : Triple Inv A Moved (renameDatabase .backup .parent)
    (fun _ w => w.Unswitched ∧ w.journal.isSome = true) (fun _ w => w.Moved ∨ (w.Unswitched ∧ w.journal.isSome = true)) := by
  refine await (fun w ω a w' hi hp _ hrun => ?_) fun w _ _ hp => .inl hp
  obtain ⟨hpa, ⟨allowed, hba⟩, hjo⟩ := hp
  simp only [World.renameDatabase, hba, hpa, Except.ok.injEq, Prod.mk.injEq, true_and] at hrun
  cases hrun
  let moved := update (update w.databases .backup none) .parent (some ⟨.original, allowed⟩)
  have hrs : ({ w with databases := moved } : World).Unswitched := by
    cases allowed with
    | true => exact .inl ⟨by simp [moved], by simp [moved]⟩
    | false => exact .inr ⟨by simp [moved], by simp [moved], hjo⟩
  have hre : ({ w with databases := moved } : World).Unswitched ∧ ({ w with databases := moved } : World).journal.isSome = true :=
    ⟨hrs, hjo⟩
  exact ⟨⟨hrs.imp id .inl, hi.names⟩, hre, fun _ _ => .inr hre⟩

theorem finish_spec (hP : ∀ w, P w → w.Idle ∨ w.Replaced) : Triple Inv A P (do
      restartParentRuntimeAndVerify .parent
      remove
      pure true) (fun _ _ => True) (fun _ _ => True) := by
  refine bind (Q := fun _ => P) ((restartAndVerify_spec _).raise fun _ _ _ _ => trivial) fun _ => ?_
  refine bind (Q := fun _ _ => True) (remove_spec.conseq (fun w _ => hP w) (fun _ _ _ _ => trivial) fun _ _ _ _ => trivial) fun _ => ?_
  exact pure true fun _ _ _ => trivial

theorem reopen_spec (tempExists) : Triple Inv A Unswitched (do
      setDatabaseConnectionsAllowed .parent true
      onlyIf tempExists (dropDatabaseIfExists .temp)
      restartParentRuntimeAndVerify .parent
      remove
      pure true) (fun _ _ => True) (fun _ _ => True) := by
  refine bind (Q := fun _ => Idle) (reenable_spec.raise fun _ _ _ _ => trivial) fun _ => ?_
  refine bind (Q := fun _ => Idle) ?_ fun _ => finish_spec fun _ => .inl
  cases tempExists with
  | true => exact (dropTemp_spec apart_idle).raise fun _ _ _ _ => trivial
  | false => exact pure _ fun _ _ h => h

def World.Observed (parentExists backupExists tempExists : Bool) (w : World) : Prop :=
  (w.databases .parent).isSome = parentExists ∧ (w.databases .backup).isSome = backupExists ∧ (w.databases .temp).isSome = tempExists

theorem observed_replaced (hi : w.Inv) (h : w.Observed true true false) : w.Replaced := by
  obtain ⟨hpa, hba, hte⟩ := h
  rcases hi.phase with hp | hp | hp | hp
  · rw [hp.2] at hba
    cases hba
  · rw [hp.2.1] at hba
    cases hba
  · rw [hp.1] at hpa
    cases hpa
  · exact hp

theorem observed_unswitched {tempExists} (hi : w.Inv) (h : w.Observed true false tempExists) : w.Unswitched := by
  obtain ⟨hpa, hba, -⟩ := h
  rcases hi.phase with hp | hp | hp | ⟨-, ⟨allowed, hp⟩, -⟩
  · exact .inl hp
  · exact .inr hp
  · rw [hp.1] at hpa
    cases hpa
  · rw [hp] at hba
    cases hba

theorem observed_moved {tempExists} (hi : w.Inv) (h : w.Observed false true tempExists) : w.Moved := by
  obtain ⟨hpa, hba, -⟩ := h
  rcases hi.phase with hp | hp | hp | hp
  · rw [hp.2] at hba
    cases hba
  · rw [hp.2.1] at hba
    cases hba
  · exact hp
  · rw [hp.1] at hpa
    cases hpa

theorem moved_spec (tempExists) : Triple Inv A Moved (do
      renameDatabase .backup .parent
      setDatabaseConnectionsAllowed .parent true
      onlyIf tempExists (dropDatabaseIfExists .temp)
      restartParentRuntimeAndVerify .parent
      remove
      pure true) (fun _ _ => True) (fun _ _ => True) := by
  refine bind (Q := fun _ => Unswitched) ?_ fun _ => reopen_spec tempExists
  exact restoreName_spec.conseq (fun _ _ h => h) (fun _ _ _ h => h.1) fun _ _ _ _ => trivial

theorem recoverObserved_spec (parentExists backupExists tempExists) :
    Triple Inv A (Observed parentExists backupExists tempExists)
      (recoverObserved replacementDatabaseNames parentExists backupExists tempExists) (fun _ _ => True) (fun _ _ => True) := by
  cases parentExists with
  | true =>
    cases backupExists with
    | true =>
      cases tempExists with
      | true => exact pure false fun _ _ _ => trivial
      | false => exact (finish_spec fun _ => .inr).pre fun _ hi h => observed_replaced hi h
    | false =>
      exact (reopen_spec tempExists).pre fun _ hi h => observed_unswitched hi h
  | false =>
    cases backupExists with
    | true =>
      exact (moved_spec tempExists).pre fun _ hi h => observed_moved hi h
    | false => exact pure false fun _ _ _ => trivial

theorem coarse_true : Coarse fun _ => True := fun _ _ _ _ _ => trivial

theorem recoverEntry_inv (hnas : entry.names = replacementDatabaseNames) :
    Triple Inv A (fun _ => True) (recoverReplacementJournalEntry entry) (fun _ _ => True) (fun _ _ => True) := by
  rw [recoverReplacementJournalEntry, hnas]
  have hwe : ∀ {α : Type} {P : World → Prop} {Q} {m : Program α},
      Triple Inv A P m Q (fun _ => P) → Triple Inv A P m Q (fun _ _ => True) :=
    fun h => h.raise fun _ _ _ _ => trivial
  refine bind (hwe (query_spec _ _)) fun parentExists => ?_
  refine bind (hwe (query_spec _ _)) fun backupExists => ?_
  refine bind (hwe (query_spec _ _)) fun tempExists => ?_
  refine bind (Q := fun _ _ => True) ?_ fun recovered => ?_
  · refine attempt ((recoverObserved_spec parentExists backupExists tempExists).conseq ?_ (fun _ _ _ _ => trivial) fun _ _ _ _ => trivial)
    rintro w - ⟨⟨⟨-, hpa⟩, hba⟩, hte⟩
    exact ⟨hpa.symm, hba.symm, hte.symm⟩
  · cases recovered with
    | true => exact pure true fun _ _ _ => trivial
    | false => exact (mark_spec coarse_true _ _).bind fun _ => pure false fun _ _ _ => trivial

theorem journalGet_spec : Triple Inv A (fun _ => True) get
    (fun entry _ => ∀ e ∈ entry, e.names = replacementDatabaseNames) (fun _ _ => True) := by
  refine await (fun w ω a w' hi _ _ hrun => ?_) fun _ _ _ _ => trivial
  cases hrun
  exact ⟨hi, hi.names, fun _ _ => trivial⟩

theorem recoverEntry_spec : Triple Inv A (fun _ => True) recoverEntry (fun _ _ => True) E := by
  refine attempt ((external_spec _).bind fun _ => journalGet_spec.bind fun entry => ?_)
  cases entry with
  | none => exact pure true fun _ _ _ => trivial
  | some entry =>
    refine ⟨fun w hi hen => ?_⟩
    exact (recoverEntry_inv entry (hen entry rfl)).safe w hi trivial

theorem recoverEach_spec (entries summary) :
    Triple Inv A (fun _ => True) (recoverEach entries summary) (fun _ _ => True) (fun _ _ => True) := by
  induction entries generalizing summary with
  | nil => exact pure _ fun _ _ _ => trivial
  | cons entry entries ih => exact recoverEntry_spec.bind fun didRecover => ih _

theorem recoverInterrupted_spec : Triple Inv A (fun _ => True) recoverInterruptedReplacements (fun _ _ => True) (fun _ _ => True) :=
  ((query_spec _ _).post fun _ _ _ h => h.1).bind fun entries => recoverEach_spec entries _

/-!
## 置き換えの仕様
-/

namespace World

def Recorded (w : World) : Prop := w.journal.isSome = true

def Prepared (w : World) : Prop := w.databases .temp = some ⟨.replacement, true⟩

theorem apart_recorded : Apart Recorded := fun _ h => h

theorem coarse_prepared : Coarse Prepared := by
  intro w w' hdb _ h
  rwa [Prepared, hdb]

end World

/-! ## 用意 -/

theorem temp_statement {act : World → Except Failure (α × World)}
    (hact : ∀ w a w', act w = .ok (a, w') → ∃ database, w' = { w with databases := update w.databases .temp (some database) })
    {Q : World → Prop} (hQ : ∀ w a w', P w → act w = .ok (a, w') → Q w') (hbe : ∀ w, w.Inv → P w → w.Idle ∧ w.Recorded) :
    Triple Inv A P (statement label act) (fun _ w => w.Idle ∧ w.Recorded ∧ Q w) (fun _ w => w.Idle ∧ w.Recorded) := by
  refine await (fun w ω a w' hi hp _ hrun => ?_) fun w _ hi hp => hbe w hi hp
  obtain ⟨hidl, hre⟩ := hbe w hi hp
  have hq := hQ w a w' hp hrun
  obtain ⟨database, rfl⟩ := hact w a w' hrun
  have hid' : ({ w with databases := update w.databases .temp (some database) } : World).Idle := hidl
  exact ⟨⟨.inl hid', hi.names⟩, ⟨hid', hre, hq⟩, fun _ _ => ⟨hid', hre⟩⟩

theorem ready_spec (hP : ∀ w, w.Inv → P w → w.Idle ∧ w.Recorded) :
    Triple Inv A P (external label) (fun _ => P) (fun _ w => w.Idle ∧ w.Recorded) :=
  (external_spec label).raise fun _ => hP

theorem create_spec : Triple Inv A (fun w => w.Idle ∧ w.Recorded) (createEmptyTenantDatabase .temp)
    (fun _ w => w.Idle ∧ w.Recorded ∧ ∃ data, w.databases .temp = some ⟨data, true⟩) (fun _ w => w.Idle ∧ w.Recorded) := by
  refine bind ((query_spec _ _).post fun _ _ _ h => h.1) fun existing => ?_
  cases existing with
  | true => exact throw _ fun _ _ h => h
  | false =>
    have hcr : ∀ (w : World) (a : Unit) (w'), w.createDatabase .temp = .ok (a, w') →
        w' = { w with databases := update w.databases .temp (some ⟨.incomplete, true⟩) } := by
      intro w a w' hrun
      rw [createDatabase] at hrun
      split at hrun
      · cases hrun
      · cases hrun
        rfl
    refine (ready_spec _ fun _ _ h => h).bind fun _ => ?_
    refine bind (temp_statement _ (Q := fun w => ∃ data, w.databases .temp = some ⟨data, true⟩) ?_ ?_ fun _ _ h => h) fun _ =>
      ready_spec _ fun _ _ h => ⟨h.1, h.2.1⟩
    · exact fun w a w' hrun => ⟨_, hcr w a w' hrun⟩
    · intro w a w' _ hrun
      rw [hcr w a w' hrun]
      exact ⟨.incomplete, by simp⟩

theorem clone_spec : Triple Inv A (fun w => w.Idle ∧ w.Recorded ∧ ∃ data, w.databases .temp = some ⟨data, true⟩)
    (cloneDatabase .branch .temp) (fun _ w => w.Idle ∧ w.Recorded ∧ w.Prepared) (fun _ w => w.Idle ∧ w.Recorded) := by
  have hcl : ∀ (w : World) (a : Unit) (w'), w.cloneDatabase .branch .temp = .ok (a, w') → ∃ database, w.databases .temp = some database ∧
      w' = { w with databases := update w.databases .temp (some { database with data := .replacement }) } := by
    intro w a w' hrun
    rw [World.cloneDatabase] at hrun
    split at hrun
    · rename_i database _ hso
      cases hrun
      exact ⟨database, hso, rfl⟩
    · cases hrun
  refine temp_statement _ ?_ ?_ fun _ _ h => ⟨h.1, h.2.1⟩
  · intro w a w' hrun
    obtain ⟨database, -, heq⟩ := hcl w a w' hrun
    exact ⟨_, heq⟩
  · rintro w a w' ⟨-, -, data, hte⟩ hrun
    obtain ⟨database, hso, rfl⟩ := hcl w a w' hrun
    cases hte.symm.trans hso
    simp [Prepared]

theorem prepare_spec : Triple Inv A (fun w => w.Idle ∧ w.Recorded) (prepareReplacementDatabase replacementDatabaseNames)
    (fun _ w => w.Idle ∧ w.Recorded ∧ w.Prepared) (fun _ w => w.Idle ∧ w.Recorded) := by
  refine tryCatch (E := fun _ w => w.Idle ∧ w.Recorded) ?_ fun error => ?_
  · refine create_spec.bind fun _ => clone_spec.bind fun _ => ?_
    exact (ready_spec _ fun _ _ h => ⟨h.1, h.2.1⟩).bind fun _ => ready_spec _ fun _ _ h => ⟨h.1, h.2.1⟩
  · exact (dropTempWithWarning_spec (apart_idle.and apart_recorded)).bind fun _ => throw _ fun _ _ h => h

/-! ## 切り替え -/

def SwitchState.Left : SwitchState → World → Prop
  | ⟨_, true, _⟩, w => w.Replaced
  | ⟨true, false, true⟩, w => w.Moved ∨ w.Replaced
  | ⟨false, false, true⟩, w => w.Disabled ∨ w.Moved
  | ⟨false, false, false⟩, w => w.Idle
  | ⟨true, false, false⟩, _ => False

theorem raising_spec {state} {p : Program α} {Q}
    (h : Triple Inv A P p Q (fun _ => state.Left)) : Triple Inv A P (raising state p) Q (fun x => x.1.Left) :=
  h.handle fun error => throw (state, error) fun _ _ hl => hl

theorem disable_spec (hA : ∀ ω, A ω → ω.Acknowledged) :
    Triple Inv A (fun w => w.Idle ∧ w.Recorded ∧ w.Prepared) (setDatabaseConnectionsAllowed .parent false)
      (fun _ w => w.Disabled ∧ w.Prepared) (fun _ => Idle) := by
  refine await (fun w ω a w' hi hp hω hrun => ?_) fun w _ _ hp => hp.1
  obtain ⟨⟨hpa, hba⟩, hre, hpr⟩ := hp
  simp only [World.setDatabaseConnectionsAllowed, hpa, Except.ok.injEq, Prod.mk.injEq, true_and] at hrun
  cases hrun
  have hdi : ({ w with databases := update w.databases .parent (some ⟨.original, false⟩) } : World).Disabled :=
    ⟨by simp, by simpa using hba, hre⟩
  exact ⟨⟨.inr (.inl hdi), hi.names⟩, ⟨hdi, by simpa [Prepared] using hpr⟩,
    fun e hlo => absurd hlo (hA ω hω e)⟩

theorem renameParent_spec :
    Triple Inv A (fun w => w.Disabled ∧ w.Prepared) (renameDatabase .parent .backup) (fun _ w => w.Moved ∧ w.Prepared)
      (fun _ w => w.Disabled ∨ w.Moved) := by
  refine await (fun w ω a w' hi hp _ hrun => ?_) fun w _ _ hp => .inl hp.1
  obtain ⟨⟨hpa, hba, hre⟩, hpr⟩ := hp
  simp only [World.renameDatabase, hpa, hba, Except.ok.injEq, Prod.mk.injEq, true_and] at hrun
  cases hrun
  have hmo : ({ w with
      databases := update (update w.databases .parent none) .backup (some ⟨.original, false⟩) } : World).Moved :=
    ⟨by simp, ⟨false, by simp⟩, hre⟩
  exact ⟨⟨.inr (.inr (.inl hmo)), hi.names⟩, ⟨hmo, by simpa [Prepared] using hpr⟩, fun _ _ => .inr hmo⟩

theorem renameTemp_spec : Triple Inv A (fun w => w.Moved ∧ w.Prepared) (renameDatabase .temp .parent) (fun _ => Replaced)
      (fun _ w => w.Moved ∨ w.Replaced) := by
  refine await (fun w ω a w' hi hp _ hrun => ?_) fun w _ _ hp => .inl hp.1
  obtain ⟨⟨hpa, ⟨allowed, hba⟩, hre⟩, hpr⟩ := hp
  rw [Prepared] at hpr
  simp only [World.renameDatabase, hpr, hpa, Except.ok.injEq, Prod.mk.injEq, true_and] at hrun
  cases hrun
  have hrp : ({ w with
      databases := update (update w.databases .temp none) .parent (some ⟨.replacement, true⟩) } : World).Replaced :=
    ⟨by simp, ⟨allowed, by simpa using hba⟩, by simp⟩
  exact ⟨⟨.inr (.inr (.inr hrp)), hi.names⟩, hrp, fun _ _ => .inr hrp⟩

theorem switchStatements_spec (hA : ∀ ω, A ω → ω.Acknowledged) :
    Triple Inv A (fun w => w.Idle ∧ w.Recorded ∧ w.Prepared) (switchStatements replacementDatabaseNames)
      (fun _ => Replaced) (fun x => x.1.Left) := by
  have hdi : ∀ {p : Program Unit}, Triple Inv A (fun w => w.Disabled ∧ w.Prepared) p (fun _ w => w.Disabled ∧ w.Prepared)
      (fun _ w => w.Disabled ∧ w.Prepared) →
      Triple Inv A (fun w => w.Disabled ∧ w.Prepared) (raising ⟨false, false, true⟩ p) (fun _ w => w.Disabled ∧ w.Prepared)
        (fun x => x.1.Left) :=
    fun h => raising_spec (h.raise fun _ _ _ h => .inl h.1)
  refine (raising_spec ((external_spec _).raise fun _ _ _ h => h.1)).bind fun _ => ?_
  refine (raising_spec (disable_spec hA)).bind fun _ => ?_
  refine (hdi (setPhase_spec (coarse_disabled.and coarse_prepared) _ _ _)).bind fun _ => ?_
  refine (hdi (external_spec _)).bind fun _ => ?_
  refine (hdi (external_spec _)).bind fun _ => ?_
  refine (hdi (external_spec _)).bind fun _ => ?_
  refine (raising_spec renameParent_spec).bind fun _ => ?_
  refine bind (raising_spec ((setPhase_spec (coarse_moved.and coarse_prepared) _ _ _).conseq
    (fun _ _ h => h) (fun _ _ _ h => h) fun _ _ _ h => .inl h.1)) fun _ => ?_
  refine (raising_spec renameTemp_spec).bind fun _ => ?_
  exact raising_spec (setPhase_spec coarse_replaced _ _ _)

/-! ## 巻き戻し -/

theorem restoreParent_spec : Triple Inv A (fun w => w.Moved ∨ w.Replaced) (restoreParentDatabaseName replacementDatabaseNames)
      (fun restored w => restored = true → w.Unswitched) E := by
  refine attempt (or ?_ ?_)
  · refine restoreName_spec.conseq (fun _ _ h => h) (fun _ _ _ h => h.1) (fun _ _ _ _ => nofun) |>.bind fun _ => ?_
    exact pure true fun _ _ h _ => h
  · refine Triple.bind (Q := fun _ _ => False) ?_ fun _ => Triple.pure true fun _ _ h => h.elim
    refine await (fun w ω a w' hi hp _ hrun => ?_) fun _ _ _ _ => nofun
    obtain ⟨hpa, ⟨allowed, hba⟩, -⟩ := hp
    simp [World.renameDatabase, replacementDatabaseNames, hpa, hba] at hrun

theorem reenableParent_spec : Triple Inv A (fun w => w.Unswitched ∨ w.Moved) (reenableParentConnections .parent)
      (fun succeeded w => succeeded = true → w.Idle) E := by
  refine attempt (or ?_ ?_)
  · refine reenable_spec.raise (fun _ _ _ _ => nofun) |>.bind fun _ => ?_
    exact pure true fun _ _ h _ => h
  · refine bind (Q := fun _ _ => False) ?_ fun _ => pure true fun _ _ h => h.elim
    refine await (fun w ω a w' hi hp _ hrun => ?_) fun _ _ _ _ => nofun
    simp [World.setDatabaseConnectionsAllowed, hp.1] at hrun

theorem recoverSwitch_spec (state) (hst : state.tempRenamed = false) :
    Triple Inv A state.Left (recoverReplacementSwitch replacementDatabaseNames state)
      (fun recovery w => recovery.succeeded = true → w.Idle) E := by
  obtain ⟨parentRenamed, tempRenamed, connectionsDisabled⟩ := state
  cases hst
  have hfi : ∀ (succeeded) (recoveryDatabase), Triple Inv A (fun w => succeeded = true → w.Idle) (do
        onlyIf true (dropDatabaseWithWarning .temp)
        restartParentRuntimeBestEffort .parent
        pure { succeeded, recoveryDatabase } : Program ReplacementRecoveryResult) (fun recovery w => recovery.succeeded = true → w.Idle) E := by
    intro succeeded recoveryDatabase
    have hap : Apart fun w => succeeded = true → w.Idle := fun w h hs => apart_idle w (h hs)
    refine (dropTempWithWarning_spec hap).bind fun _ => ?_
    exact (restartBestEffort_spec _).bind fun _ => pure _ fun _ _ h => h
  cases parentRenamed with
  | false =>
    cases connectionsDisabled with
    | false => exact (pure true fun _ _ h => h).bind fun _ => (pure true fun _ _ h _ => h).bind fun _ => hfi _ _
    | true =>
      refine bind (Q := fun restored w => restored = true ∧ (w.Disabled ∨ w.Moved)) ?_ fun restored => ?_
      · refine pure true fun w _ h => ?_
        exact ⟨rfl, h⟩
      refine bind (Q := fun succeeded w => succeeded = true → w.Idle) ?_ fun succeeded => hfi _ _
      cases restored with
      | true => exact reenableParent_spec.pre fun _ _ h => h.2.imp_left .inr
      | false => exact pure false fun _ _ h => nomatch h.1
  | true =>
    cases connectionsDisabled with
    | false => exact ⟨fun _ _ h => h.elim⟩
    | true =>
      refine restoreParent_spec.bind fun restored => ?_
      refine bind (Q := fun succeeded w => succeeded = true → w.Idle) ?_ fun succeeded => hfi _ _
      cases restored with
      | true => exact reenableParent_spec.pre fun _ _ h => .inl (h rfl)
      | false => exact pure false fun _ _ _ => nofun

theorem switch_spec (hA : ∀ ω, A ω → ω.Acknowledged) :
    Triple Inv A (fun w => w.Idle ∧ w.Recorded ∧ w.Prepared) (switchParentDatabase replacementDatabaseNames)
      (fun _ => Replaced) (fun _ _ => True) := by
  refine (switchStatements_spec hA).handle fun x => ?_
  obtain ⟨state, error⟩ := x
  dsimp only
  split
  · have htr : ∀ (m : Program Unit), Triple Inv A (fun _ => True) m (fun _ _ => True) (fun _ _ => True) →
        Triple Inv A (fun w => state.Left w) m (fun _ _ => True) (fun _ _ => True) :=
      fun m h => h.pre fun _ _ _ => trivial
    refine bind (htr _ ((restartAndVerify_spec _).attempt)) fun _ => (mark_spec coarse_true _ _).bind fun _ => ?_
    exact throw _ fun _ _ _ => trivial
  · rename_i hte
    refine (recoverSwitch_spec state (Bool.eq_false_iff.mpr hte)).bind fun recovery => ?_
    refine bind (Q := fun _ _ => True) ?_ fun _ => throw _ fun _ _ _ => trivial
    cases hsu : recovery.succeeded with
    | true => exact clear_spec.conseq (fun _ _ h => .inl (h rfl)) (fun _ _ _ _ => trivial) fun _ _ _ h => h
    | false => exact (mark_spec coarse_true _ _).conseq (fun _ _ _ => trivial) (fun _ _ _ _ => trivial) fun _ _ _ h => h

/-! ## 全体 -/

theorem begin_spec (hnas : entry.names = replacementDatabaseNames) :
    Triple Inv A Idle (begin entry) (fun _ w => w.Idle ∧ w.Recorded) (fun _ _ => True) := by
  refine await (fun w ω a w' hi hp _ hrun => ?_) fun _ _ _ _ => trivial
  cases hrun
  refine ⟨⟨.inl hp, fun e he => ?_⟩, ⟨hp, rfl⟩, fun _ _ => trivial⟩
  cases he
  exact hnas

theorem recoverExisting_spec : Triple Inv A (fun w => w.Idle ∧ w.journal = none) recoverExistingReplacement (fun _ => Idle)
    (fun _ _ => True) := by
  refine bind ((query_spec _ _).raise fun _ _ _ _ => trivial) fun entry => ?_
  cases entry with
  | none => exact pure _ fun _ _ h => h.1.1
  | some entry => exact ⟨fun w _ h => by simpa [h.1.2] using h.2⟩

theorem replaceUnderLock_spec (hA : ∀ ω, A ω → ω.Acknowledged) (parentRef branchRef) :
    Triple Inv A (fun w => w.Idle ∧ w.journal = none) (replaceParentDatabaseUnderLock parentRef branchRef) (fun _ _ => True)
      (fun _ _ => True) := by
  refine recoverExisting_spec.bind fun _ => ?_
  refine bind ((query_spec _ _).conseq (fun _ _ h => h) (fun _ _ _ h => h.1) fun _ _ _ _ => trivial) fun project => ?_
  cases project with
  | none => exact throw _ fun _ _ _ => trivial
  | some password =>
    refine (begin_spec _ rfl).bind fun _ => bind (Q := fun _ w => w.Idle ∧ w.Recorded ∧ w.Prepared) ?_ fun _ => ?_
    · refine tryCatch (E := fun _ => Idle) ?_ fun error => ?_
      · refine bind (prepare_spec.raise fun _ _ _ h => h.1) fun _ => ?_
        exact (setPhase_spec (coarse_idle.and (coarse_recorded.and coarse_prepared)) _ _ _).conseq
          (fun _ _ h => h) (fun _ _ _ h => h) fun _ _ _ h => h.1
      · refine bind (Q := fun _ _ => True) ?_ fun _ => throw _ fun _ _ _ => trivial
        exact clear_spec.conseq (fun _ _ h => .inl h) (fun _ _ _ _ => trivial) fun _ _ _ h => h
    · refine (switch_spec hA).bind fun _ => bind (Q := fun _ => Replaced) ?_ fun _ => ?_
      · refine (restartAndVerify_spec _).tryCatch fun error => ?_
        exact (mark_spec coarse_replaced _ _).bind fun _ => throw _ fun _ _ _ => trivial
      · refine bind (Q := fun _ _ => True) ?_ fun _ => pure _ fun _ _ _ => trivial
        exact clear_spec.conseq (fun _ _ h => .inr h) (fun _ _ _ _ => trivial) fun _ _ _ h => h

theorem replace_spec (hA : ∀ ω, A ω → ω.Acknowledged) (parentRef branchRef) :
    Triple Inv A (fun w => w.Idle ∧ w.journal = none) (replaceParentDatabaseFromBranch parentRef branchRef) (fun _ _ => True)
      (fun _ _ => True) := by
  refine tryCatch (E := fun _ _ => True) ?_ fun error => ?_
  · refine bind ((external_spec _).raise fun _ _ _ _ => trivial) fun _ => ?_
    exact replaceUnderLock_spec hA parentRef branchRef
  · cases error with
    | error _ | migrationLock _ | branchReplacement _ _ _ _ _ _ _ => exact throw _ fun _ _ _ => trivial

end Supacloud.BranchReplacement
