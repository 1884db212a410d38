import Supacloud.S3Handler.Objects

/-! # 置き物の一歩と不変条件 -/

namespace Supacloud.S3Handler

open Library Pc World Function List

variable {env : Runtime} {w w' : World} {e : Event} {place : Place} {version : Version} {call : Call} {pc : Pc} {row : ObjectRow} {id : ℕ}

/-! ## 依頼の持つ版 -/

def Pc.own : Pc → Option Version
  | .finding _ version _ => some version
  | .storing _ version _ _ => some version
  | .upserting _ version _ _ => some version
  | _ => none

def Pc.staged : Pc → Option Version
  | .upserting _ version _ _ => some version
  | _ => none

def Pc.detached : Pc → Option ObjectRow
  | .discarding row _ => some row
  | _ => none

def Pc.Bare (pc : Pc) : Prop := pc.own = none ∧ pc.remembers = none

theorem Pc.own_of_staged (h : pc.staged = some version) : pc.own = some version := by
  cases pc <;> simp_all [own, staged]

theorem Pc.remembers_of_detached (h : pc.detached = some row) : pc.remembers = some row := by
  cases pc <;> simp_all [remembers, detached]

theorem Pc.bare_of_done (h : pc.isDone = true) : pc.Bare := by
  cases pc <;> simp_all [isDone, Bare, own, remembers]

theorem objectKey_inj {v v'} (h : objectKey v = objectKey v') : v = v' := by
  have hli : (".supacloud-lite/objects/" ++ v).toList = (".supacloud-lite/objects/" ++ v').toList := congrArg String.toList h
  rw [String.toList_append, String.toList_append] at hli
  exact String.toList_injective (append_cancel_left hli)

theorem isPrefixed_append (uuid : String) : Version.isPrefixed (versionPrefix ++ uuid) = true := by
  rw [Version.isPrefixed, String.toList_append, isPrefixOf_iff_prefix]
  exact prefix_append _ _

theorem driverKey_of_prefixed (hrow : row.version = some version) (hprefixed : Version.isPrefixed version = true) :
    driverKey row = objectKey version := by
  unfold driverKey
  rw [hrow]
  exact if_pos hprefixed

/-! ## 一歩の形 -/

inductive Move (w : World) : World → Prop
  | stay : Move w w
  | request (call : Call) (h : call.pc.Bare) : Move w { w with calls := w.calls ++ [call] }
  | advance (id : ℕ) (call : Call) (pc : Pc) (hcall : w.calls[id]? = some call) (h : call.pc.Bare) (h' : pc.Bare) :
      Move w (w.goto id call pc)
  | issue (id : ℕ) (call : Call) (pc : Pc) (version : Version) (hcall : w.calls[id]? = some call) (h : call.pc.Bare)
      (hfresh : version ∉ w.issued.map Prod.fst) (hprefixed : Version.isPrefixed version = true) (hown : pc.own = some version)
      (hremembers : pc.remembers = none) (hstaged : pc.staged = none) :
      Move w { w.goto id call pc with issued := (version, call.place) :: w.issued }
  | find (id : ℕ) (call : Call) (pc : Pc) (hcall : w.calls[id]? = some call) (h : call.pc.remembers = none) (hown : pc.own = call.pc.own)
      (hremembers : pc.remembers = w.objects call.place) (hstaged : pc.staged = none) (hdetached : pc.detached = none) :
      Move w (w.goto id call pc)
  | put (id : ℕ) (call : Call) (pc : Pc) (version : Version) (body : Bytes) (hcall : w.calls[id]? = some call)
      (h : call.pc.own = some version) (hown : pc.own = some version) (hremembers : pc.remembers = call.pc.remembers)
      (hstaged : pc.staged = some version) (hdetached : pc.detached = none) :
      Move w { w.goto id call pc with blobs := Function.update w.blobs (objectKey version) (some body) }
  | discard (id : ℕ) (call : Call) (row : ObjectRow) (pc : Pc) (hcall : w.calls[id]? = some call) (h : call.pc.own = none)
      (hdetached : call.pc.detached = some row) (h' : pc.Bare) :
      Move w { w.goto id call pc with blobs := Function.update w.blobs (driverKey row) none }

structure Replaces (call : Call) (pc : Pc) (new : Option ObjectRow) : Prop where
  row : ∀ row, new = some row → ∃ version, row.version = some version ∧ call.pc.staged = some version
  kept : ∀ version, call.pc.own = some version → ∃ row, new = some row ∧ row.version = some version
  own : pc.own = none
  remembers : pc.remembers = call.pc.remembers
  detached : pc.detached = call.pc.remembers

theorem bare_start (request : Request) : (request.start env).Bare := by
  cases request <;> exact ⟨rfl, rfl⟩

theorem load_move {put : Put} {uuid : String} {now : ℕ} (hcall : w.calls[id]? = some call) (hpc : call.pc = .loading put) :
    Move w (w.load env id call put (versionPrefix ++ uuid) now) := by
  have hba : call.pc.Bare := by rw [hpc]; exact ⟨rfl, rfl⟩
  unfold load
  cases w.loadBucket call.place.bucket with
  | none => exact .advance id call _ hcall hba ⟨rfl, rfl⟩
  | some bucket =>
    dsimp only
    split
    · exact .advance id call _ hcall hba ⟨rfl, rfl⟩
    · split
      · next hfresh =>
        exact .issue id call _ _ hcall hba (by simpa [fresh] using hfresh) (isPrefixed_append uuid) rfl rfl rfl
      · exact .stay

theorem proceed_move {uuid now} (hcall : w.calls[id]? = some call) (h : call.pc.replaces = false) :
    Move w (w.proceed env id call uuid now) := by
  unfold proceed
  cases hpc : call.pc with
  | findingSource source headers replace | readingSource row headers replace =>
    dsimp only
    split <;> exact .advance id call _ hcall (by rw [hpc]; exact ⟨rfl, rfl⟩) ⟨rfl, rfl⟩
  | loading put => exact load_move hcall hpc
  | finding put version metadata => exact .find id call _ hcall (by rw [hpc]; rfl) (by rw [hpc]; rfl) rfl rfl rfl
  | storing put version metadata existing => exact .put id call _ version put.body hcall (by rw [hpc]; rfl) rfl (by rw [hpc]; rfl) rfl rfl
  | upserting put version metadata existing | removing row => simp [hpc, replaces] at h
  | deleting =>
    dsimp only
    cases hrow : w.findObject call.place with
    | none => exact .advance id call _ hcall (by rw [hpc]; exact ⟨rfl, rfl⟩) ⟨rfl, rfl⟩
    | some row => exact .find id call _ hcall (by rw [hpc]; rfl) (by rw [hpc]; rfl) hrow.symm rfl rfl
  | discarding row etag => exact .discard id call row _ hcall (by rw [hpc]; rfl) (by rw [hpc]; rfl) ⟨rfl, rfl⟩
  | done outcome => exact .stay

theorem proceed_replaces (env) (w : World) (id uuid now) (h : call.pc.replaces = true) :
    ∃ pc new, Replaces call pc new ∧ w.proceed env id call uuid now = { w.goto id call pc with objects := update w.objects call.place new } := by
  unfold proceed
  cases hpc : call.pc with
  | upserting put version metadata existing =>
    refine ⟨_, _, ?_, rfl⟩
    cases existing <;> constructor <;> simp [hpc, own, staged, remembers, detached]
  | removing row =>
    refine ⟨_, none, ?_, rfl⟩
    constructor <;> simp [hpc, own, remembers, detached]
  | _ => simp [hpc, replaces] at h

theorem step_cases (env w e) : (Move w (step env w e) ∧ ∀ place, w.Remembered place e) ∨
      ∃ id call pc new, w.calls[id]? = some call ∧ Replaces call pc new ∧
        step env w e = { w.goto id call pc with objects := update w.objects call.place new } ∧
        ∀ place, w.Remembered place e ↔ (call.place = place → ∀ row ∈ w.objects place, ∃ other ∈ w.calls, other.place = place ∧
          other.pc.remembers.any (fun found => found.version = row.version) = true) := by
  cases e with
  | request place request => exact .inl ⟨.request _ (bare_start request), fun _ => trivial⟩
  | proceed id uuid now =>
    simp only [step, Remembered]
    cases hcall : w.calls[id]? with
    | none => exact .inl ⟨.stay, by simp⟩
    | some call =>
      cases hpc : call.pc.replaces with
      | false => exact .inl ⟨proceed_move hcall hpc, by simp [hpc]⟩
      | true =>
        obtain ⟨pc, new, hres, heq⟩ := proceed_replaces env w id uuid now hpc
        exact .inr ⟨id, call, pc, new, hcall, hres, heq, by simp [hpc]⟩

/-! ## 不変条件 -/

structure World.Unseen (w : World) (version : Version) : Prop where
  row : ∀ (place : Place) (row : ObjectRow), w.objects place = some row → row.version ≠ some version
  remembered : ∀ (id : ℕ) (call : Call) (row : ObjectRow), w.calls[id]? = some call → call.pc.remembers = some row → row.version ≠ some version

structure World.Sound (w : World) : Prop where
  issued : (w.issued.map Prod.fst).Nodup
  isPrefixed : ∀ (version : Version) (place : Place), (version, place) ∈ w.issued → Version.isPrefixed version = true
  row : ∀ (place : Place) (row : ObjectRow), w.objects place = some row →
    ∃ version, row.version = some version ∧ (version, place) ∈ w.issued ∧ (w.blobs (objectKey version)).isSome
  remembered : ∀ (id : ℕ) (call : Call) (row : ObjectRow), w.calls[id]? = some call → call.pc.remembers = some row →
    ∃ version, row.version = some version ∧ (version, call.place) ∈ w.issued
  own : ∀ (id : ℕ) (call : Call) (version : Version), w.calls[id]? = some call → call.pc.own = some version →
    (version, call.place) ∈ w.issued ∧ w.Unseen version
  unique : ∀ (id id' : ℕ) (call call' : Call) (version : Version), w.calls[id]? = some call → w.calls[id']? = some call' →
    call.pc.own = some version → call'.pc.own = some version → id = id'
  staged : ∀ (id : ℕ) (call : Call) (version : Version), w.calls[id]? = some call → call.pc.staged = some version →
    (w.blobs (objectKey version)).isSome
  detached : ∀ (id : ℕ) (call : Call) (row row' : ObjectRow), w.calls[id]? = some call → call.pc.detached = some row →
    w.objects call.place = some row' → row'.version ≠ row.version

theorem World.Sound.place_eq (h : w.Sound) {place'} (hv : (version, place) ∈ w.issued) (hv' : (version, place') ∈ w.issued) : place = place' :=
  eq_of_mem_keys h.issued hv hv'

attribute [local grind =] Function.update_apply
attribute [local grind →] Pc.own_of_staged Pc.remembers_of_detached objectKey_inj
attribute [local grind] World.Unseen

section

variable (h : w.Sound) (hcall : w.calls[id]? = some call)

include h hcall

theorem World.Sound.discards (hdetached : call.pc.detached = some row) :
    ∃ version, driverKey row = objectKey version ∧ (version, call.place) ∈ w.issued ∧ row.version = some version ∧
      ∀ place row', w.objects place = some row' → row'.version ≠ some version := by
  obtain ⟨version, hve, hiss⟩ := h.remembered id call row hcall (remembers_of_detached hdetached)
  refine ⟨version, driverKey_of_prefixed hve (h.isPrefixed version call.place hiss), hiss, hve, fun place row' hro' heq => ?_⟩
  obtain ⟨version', hve', his', _⟩ := h.row place row' hro'
  cases heq.symm.trans hve'
  cases h.place_eq hiss his'
  exact h.detached id call row row' hcall hdetached hro' (heq.trans hve.symm)

theorem World.Sound.replace {new} (hr : Replaces call pc new) :
    Sound { w.goto id call pc with objects := update w.objects call.place new } := by
  obtain ⟨hiss, hprefixed, hrow, hre, how, huni, hst, hde⟩ := h
  obtain ⟨hnew, hke, hown, hremembers, hdetached⟩ := hr
  simp only [goto]
  constructor <;> grind

theorem World.Sound.discard (hdetached : call.pc.detached = some row) (hba : pc.Bare) :
    Sound { w.goto id call pc with blobs := update w.blobs (driverKey row) none } := by
  obtain ⟨version, hkey, his, hve, hot⟩ := h.discards hcall hdetached
  obtain ⟨hiss, hprefixed, hrow, hre, how, huni, hst, hde⟩ := h
  obtain ⟨how', hrs'⟩ := hba
  simp only [goto, hkey]
  constructor <;> grind

end

theorem World.Sound.move (h : w.Sound) (hm : Move w w') : w'.Sound := by
  cases hm with
  | stay => exact h
  | discard id call row pc hcall _ hdetached hba => exact h.discard hcall hdetached hba
  | request call hba =>
    obtain ⟨hiss, hprefixed, hrow, hre, how, huni, hst, hde⟩ := h
    obtain ⟨hown, hremembers⟩ := hba
    constructor <;> grind
  | advance id call pc hcall hba hba' =>
    obtain ⟨hiss, hprefixed, hrow, hre, how, huni, hst, hde⟩ := h
    obtain ⟨hown, hremembers⟩ := hba
    obtain ⟨how', hrs'⟩ := hba'
    simp only [goto]
    constructor <;> grind
  | issue id call pc version hcall hba hfresh hpr' hown hremembers hstaged =>
    obtain ⟨hiss, hprefixed, hrow, hre, how, huni, hst, hde⟩ := h
    obtain ⟨how', hrs'⟩ := hba
    simp only [goto]
    constructor <;> grind
  | find id call pc hcall hno hown hremembers hstaged hdetached
  | put id call pc version body hcall hv hown hremembers hstaged hdetached =>
    obtain ⟨hiss, hprefixed, hrow, hre, how, huni, hst, hde⟩ := h
    simp only [goto]
    constructor <;> grind

theorem World.Sound.step (h : w.Sound) : (step env w e).Sound := by
  rcases step_cases env w e with ⟨hm, _⟩ | ⟨id, call, pc, new, hcall, hres, heq, _⟩
  · exact h.move hm
  · rw [heq]
    exact h.replace hcall hres

/-! ## 持ち主を失った版 -/

structure World.Orphaned (w : World) (place : Place) (version : Version) : Prop where
  issued : (version, place) ∈ w.issued
  blob : (w.blobs (objectKey version)).isSome
  unseen : w.Unseen version
  unowned : ∀ (id : ℕ) (call : Call), w.calls[id]? = some call → call.pc.own ≠ some version

attribute [local grind] World.Orphaned

theorem goto_kept (pc) (hcall : w.calls[id]? = some call) : (w.calls.set id { call with pc })[id]? = some { call with pc } ∧
      ∀ (j) (c), w.calls[j]? = some c → j ≠ id → (w.calls.set id { call with pc })[j]? = some c := by
  grind

theorem World.Sound.orphaned_move (h : w.Sound) (hm : Move w w') : w'.Orphaned place version ↔ w.Orphaned place version := by
  obtain ⟨hiss, hprefixed, hrow, hre, how, huni, hst, hde⟩ := id h
  cases hm with
  | stay => exact Iff.rfl
  | request call hba =>
    have hke : ∀ (j : ℕ) (c), w.calls[j]? = some c → (w.calls ++ [call])[j]? = some c := by grind
    obtain ⟨hown, hremembers⟩ := hba
    constructor <;> grind
  | advance id call pc hcall hba hba' =>
    obtain ⟨hown, hremembers⟩ := hba
    obtain ⟨how', hrs'⟩ := hba'
    have hke := goto_kept pc hcall
    simp only [goto]
    constructor <;> grind
  | issue id call pc version hcall hba hfresh hpr' hown hremembers hstaged =>
    obtain ⟨how', hrs'⟩ := hba
    have hke := goto_kept pc hcall
    simp only [goto]
    constructor <;> grind
  | find id call pc hcall hno hown hremembers hstaged hdetached
  | put id call pc version body hcall hv hown hremembers hstaged hdetached =>
    have hke := goto_kept pc hcall
    simp only [goto]
    constructor <;> grind
  | discard id call row pc hcall hown hdetached hba =>
    obtain ⟨how', hrs'⟩ := hba
    obtain ⟨version, hkey, his, hve, hot⟩ := h.discards hcall hdetached
    have hke := goto_kept pc hcall
    have hremembers := remembers_of_detached hdetached
    simp only [goto, hkey]
    constructor
    · rintro ⟨his', hbl, ⟨hro', hre'⟩, how''⟩
      refine ⟨his', ?_, ⟨hro', ?_⟩, ?_⟩ <;> grind
    · rintro ⟨his', hbl, ⟨hro', hre'⟩, how''⟩
      refine ⟨his', ?_, ⟨hro', ?_⟩, ?_⟩ <;> grind

theorem World.Sound.orphaned_replace (h : w.Sound) {new} (hcall : w.calls[id]? = some call) (hr : Replaces call pc new) :
    Orphaned { w.goto id call pc with objects := update w.objects call.place new } place version ↔
      w.Orphaned place version ∨ (call.place = place ∧ ∃ row, w.objects place = some row ∧ row.version = some version ∧
        ∀ other ∈ w.calls, ∀ found, other.pc.remembers = some found → found.version ≠ some version) := by
  have hso := h
  obtain ⟨hiss, hprefixed, hrow, hre, how, huni, hst, hde⟩ := h
  obtain ⟨hnew, hkes, hown, hremembers, hdetached⟩ := hr
  have hke := goto_kept pc hcall
  simp only [goto]
  constructor
  · rintro ⟨his', hbl, ⟨hro', hre'⟩, how'⟩
    have hunr : ∀ other ∈ w.calls, ∀ found, other.pc.remembers = some found → found.version ≠ some version := by
      intro other hmem found hfo
      obtain ⟨j, hj⟩ := mem_iff_getElem?.mp hmem
      grind
    by_cases hcu : ∃ row, w.objects call.place = some row ∧ row.version = some version
    · grind [hso.place_eq]
    · refine .inl ⟨his', hbl, ⟨fun place' row hpl hve => ?_, fun j c found hj => ?_⟩, fun j c hj hoc => ?_⟩
      · by_cases hne : place' = call.place
        · exact hcu ⟨row, hne ▸ hpl, hve⟩
        · exact hro' place' row ((update_of_ne hne ..).trans hpl) hve
      · exact hunr c (mem_of_getElem? hj) found
      · by_cases hne : j = id
        · subst hne
          cases hcall.symm.trans hj
          obtain ⟨row, hne', hve⟩ := hkes version hoc
          exact hro' call.place row ((update_self ..).trans hne') hve
        · exact how' j c (hke.2 j c hj hne) hoc
  · rintro (⟨his', hbl, ⟨hro', hre'⟩, how'⟩ | ⟨rfl, row, hpl, hve, hunr⟩)
    · refine ⟨his', hbl, ⟨?_, ?_⟩, ?_⟩ <;> grind
    · obtain ⟨version', hve', his', hbl⟩ := hrow call.place row hpl
      cases hve.symm.trans hve'
      have hpls : ∀ place row, w.objects place = some row → row.version = some version → place = call.place := by grind [hso.place_eq]
      have hfr : ∀ (j) (c : Call) (found), w.calls[j]? = some c → c.pc.remembers = some found → found.version ≠ some version :=
        fun j c found hj => hunr c (mem_of_getElem? hj) found
      have huno : ∀ (j) (c : Call), w.calls[j]? = some c → c.pc.own ≠ some version :=
        fun j c hj hown => (how j c version hj hown).2.row _ row hpl hve
      clear hunr hso how
      refine ⟨his', hbl, ⟨?_, ?_⟩, ?_⟩ <;> grind

theorem World.Sound.orphaned_step (h : w.Sound) :
    (∃ version, (S3Handler.step env w e).Orphaned place version) ↔ (∃ version, w.Orphaned place version) ∨ ¬ w.Remembered place e := by
  rcases step_cases env w e with ⟨hm, hall⟩ | ⟨id, call, pc, new, hcall, hres, heq, hiff⟩
  · simp [h.orphaned_move hm, hall place]
  · simp only [heq, h.orphaned_replace hcall hres, exists_or, hiff place]
    refine or_congr_right ⟨?_, fun hnot => ?_⟩
    · rintro ⟨version, hpl, row, hrow, hve, hunr⟩ hall
      obtain ⟨other, hot, _, hfo⟩ := hall hpl row hrow
      cases hremembers : other.pc.remembers with
      | none => simp [hremembers] at hfo
      | some found => grind
    · push Not at hnot
      obtain ⟨hpl, row, hrow, hno⟩ := hnot
      obtain ⟨version, hve, hiss, _⟩ := h.row place row hrow
      refine ⟨version, hpl, row, hrow, hve, fun other hot found hremembers hsa => ?_⟩
      obtain ⟨j, hj⟩ := mem_iff_getElem?.mp hot
      obtain ⟨version', hve', his'⟩ := h.remembered j other found hj hremembers
      cases hsa.symm.trans hve'
      refine hno other hot (h.place_eq his' hiss) ?_
      simp [hremembers, hsa, hve]

theorem World.Sound.agrees_iff (h : w.Sound) (hqu : w.Quiet place) : w.Agrees place ↔ ¬ ∃ version, w.Orphaned place version := by
  constructor
  · rintro ⟨hags, _⟩ ⟨version, hiss, hbl, huns, _⟩
    obtain ⟨row, hrow, hve⟩ := (hags version hiss).mp hbl
    exact huns.row place row hrow hve
  · intro hno
    refine ⟨fun version hiss => ⟨fun hbl => ?_, ?_⟩, fun row hrow => ?_⟩
    · by_contra hcu
      have hba : ∀ (id) (call : Call), w.calls[id]? = some call → call.place = place → call.pc.Bare := fun id call hcall hpl =>
        bare_of_done (hqu call (mem_of_getElem? hcall) hpl)
      refine hno ⟨version, hiss, hbl, ⟨fun place' row hrow hve => ?_, fun id call row hcall hremembers hve => ?_⟩, fun id call hcall hown => ?_⟩
      · grind [h.row, h.place_eq, row]
      · obtain ⟨version', hve', his'⟩ := h.remembered id call row hcall hremembers
        cases hve.symm.trans hve'
        have := (hba id call hcall (h.place_eq his' hiss)).2
        rw [hremembers] at this
        cases this
      · have := (hba id call hcall (h.place_eq (h.own id call version hcall hown).1 hiss)).1
        rw [hown] at this
        cases this
    · grind [h.row]
    · grind [h.row, row]

theorem World.Start.sound (h : w.Start) : w.Sound := by
  have hcas : ∀ (id : ℕ) (call), w.calls[id]? ≠ some call := by simp [h.calls]
  refine ⟨h.issued, fun version place hmem => h.prefixed _ hmem, fun place row hrow => ?_, ?_, ?_, ?_, ?_, ?_⟩
  · obtain ⟨version, hve, hiss⟩ := (h.agrees place).2 row hrow
    exact ⟨version, hve, hiss, ((h.agrees place).1 version hiss).mpr ⟨row, hrow, hve⟩⟩
  all_goals grind

end Supacloud.S3Handler
