import Supacloud.JitGateway.Gateway

/-! # 束縛と待ち受け -/

namespace Supacloud.JitGateway

open Library GatewayManager JitGateway List Option

variable {Net : Type} {parseNet : String → Except String Net} {manager : GatewayManager} {c c' : CredentialId}
  {id id' : ListenerId} {b : ActiveBinding} {l l' : Listener} {bindId : BindId} {call : PendingBind} {port : UInt16}

namespace GatewayManager

/-! ## 表を引く -/

def Listener.notified (l : Listener) (told : Bool) : Listener := { l with cancelled := l.cancelled || told }

theorem lookup_cancel {listeners : AList fun _ : ListenerId => Listener} : (cancel listeners id).lookup id' =
    (listeners.lookup id').map fun l => Listener.notified l (id' = id) := by
  rw [cancel, lookup_adjust]
  split
  · rename_i hid
    subst hid
    simp [Listener.notified]
  · rename_i hid
    simp [Listener.notified, hid]

theorem bound_of_lookup (h : manager.bindings.lookup c = some b) : manager.bound c = some b.cancelTx := by
  rw [bound, h, map_some]

theorem release_some (h : manager.bindings.lookup c = some b) : manager.release c =
    { manager with bindings := manager.bindings.erase c, listeners := cancel manager.listeners b.cancelTx } := by
  rw [release, h]

theorem release_none (h : manager.bindings.lookup c = none) : manager.release c = manager := by
  rw [release, h]

theorem bindings_release : (manager.release c).bindings.lookup c' = if c' = c then none else manager.bindings.lookup c' := by
  cases hb : manager.bindings.lookup c with
  | none =>
    rw [release_none hb]
    by_cases hc : c' = c
    · subst hc
      rw [if_pos rfl, hb]
    · rw [if_neg hc]
  | some b =>
    rw [release_some hb]
    by_cases hc : c' = c
    · subst hc
      rw [if_pos rfl, AList.lookup_erase]
    · rw [if_neg hc, AList.lookup_erase_ne hc]

theorem bound_release : (manager.release c).bound c' = if c' = c then none else manager.bound c' := by
  rw [bound, bindings_release]
  split
  · rfl
  · rfl

theorem listeners_release : (manager.release c).listeners.lookup id =
    (manager.listeners.lookup id).map fun l => Listener.notified l (manager.bound c = some id) := by
  cases hb : manager.bindings.lookup c with
  | none =>
    rw [release_none hb]
    simp [bound, hb, Listener.notified]
  | some b =>
    rw [release_some hb, bound_of_lookup hb]
    simp [lookup_cancel, eq_comm]

theorem rest_release : (manager.release c).pending = manager.pending ∧ (manager.release c).nextId = manager.nextId ∧
    (manager.release c).nowMs = manager.nowMs ∧ (manager.release c).dismissed = manager.dismissed := by
  unfold release
  split <;> exact ⟨rfl, rfl, rfl, rfl⟩

theorem listeners_release_other (h : manager.listeners.lookup id = some l) (hbo : manager.bound c ≠ some id) :
    (manager.release c).listeners.lookup id = some l := by
  rw [listeners_release, h]
  simp [Listener.notified, hbo]

/-! ## 保たれること -/

structure Due (manager : GatewayManager) (l : Listener) : Prop where
  remaining : l.expiresAtMs ≤ manager.nowMs + l.remainingMs
  deadline : ∀ deadline ∈ l.deadline, l.expiresAtMs ≤ deadline

structure Wired (manager : GatewayManager) : Prop where
  bound : ∀ c b, manager.bindings.lookup c = some b → b.cancelTx ∉ manager.dismissed ∧
    ∃ l, manager.listeners.lookup b.cancelTx = some l ∧ l.credentialId = c ∧ l.running ∧ l.cancelled = false ∧ l.expiresAtMs = b.expiresAtMs
  live : ∀ id l, manager.listeners.lookup id = some l → l.running → l.cancelled = false → manager.bound l.credentialId = some id
  due : ∀ id l, manager.listeners.lookup id = some l → manager.Due l
  waits : ∀ id call, manager.pending.lookup id = some call → call.nowMs ≤ manager.nowMs
  fresh : ∀ id l, manager.listeners.lookup id = some l → id < manager.nextId
  dismissed : ∀ id ∈ manager.dismissed, id < manager.nextId

theorem wired_start {nowMs} : (start nowMs).Wired where
  bound _ _ h := by simp [start] at h
  live _ _ h := by simp [start] at h
  due _ _ h := by simp [start] at h
  waits _ _ h := by simp [start] at h
  fresh _ _ h := by simp [start] at h
  dismissed _ h := by simp [start] at h

section

variable (h : manager.Wired)

include h

theorem Wired.credential (hbo : manager.bound c = some id) (hl : manager.listeners.lookup id = some l) : l.credentialId = c := by
  obtain ⟨b, hb, rfl⟩ := map_eq_some_iff.mp hbo
  obtain ⟨-, l', hl', hcr, -⟩ := h.bound c b hb
  rw [hl, some.injEq] at hl'
  exact hl' ▸ hcr

theorem Wired.bound_inj (hbo : manager.bound c = some id) (hbo' : manager.bound c' = some id) : c = c' := by
  obtain ⟨b, hb, rfl⟩ := map_eq_some_iff.mp hbo
  obtain ⟨-, l, hl, hcr, -⟩ := h.bound c b hb
  rw [← hcr, h.credential hbo' hl]

theorem Wired.single : manager.Single := by
  intro id id' l l' hl hl' hcr hrun hru' hca hcn'
  have hbo := h.live id l hl hrun hca
  rw [hcr, h.live id' l' hl' hru' hcn', some.injEq] at hbo
  exact hbo.symm

theorem Wired.release : (manager.release c).Wired := by
  obtain ⟨hpe, hne, hnow, hdi⟩ := @rest_release manager c
  constructor
  · intro c' b hb
    rw [bindings_release] at hb
    split at hb
    · cases hb
    · rename_i hc
      obtain ⟨hnot, l, hl, hrs⟩ := h.bound c' b hb
      refine ⟨hdi ▸ hnot, l, listeners_release_other hl fun hbo => hc ?_, hrs⟩
      exact h.bound_inj (bound_of_lookup hb) hbo
  · intro id l' hl' hrun hca
    rw [listeners_release] at hl'
    obtain ⟨l, hl, rfl⟩ := map_eq_some_iff.mp hl'
    simp only [Listener.notified, Bool.or_eq_false_iff, decide_eq_false_iff_not] at hrun hca ⊢
    have hli := h.live id l hl hrun hca.1
    rw [bound_release, if_neg]
    · exact hli
    · intro hc
      exact hca.2 (hc ▸ hli)
  · intro id l' hl'
    rw [listeners_release] at hl'
    obtain ⟨l, hl, rfl⟩ := map_eq_some_iff.mp hl'
    have hdue := h.due id l hl
    exact ⟨by rw [hnow]; exact hdue.remaining, hdue.deadline⟩
  · rw [hpe, hnow]
    exact h.waits
  · intro id l' hl'
    rw [listeners_release] at hl'
    obtain ⟨l, hl, -⟩ := map_eq_some_iff.mp hl'
    rw [hne]
    exact h.fresh id l hl
  · rw [hdi, hne]
    exact h.dismissed

theorem Wired.stop (hfr : ∀ c, manager.bound c ≠ some id) : (manager.stop id).Wired := by
  have hlo : ∀ id', (manager.stop id).listeners.lookup id' =
      if id' = id then (manager.listeners.lookup id).map fun l => { l with running := false } else manager.listeners.lookup id' :=
    fun id' => lookup_adjust
  constructor
  · intro c b hb
    obtain ⟨hnot, l, hl, hrs⟩ := h.bound c b hb
    refine ⟨hnot, l, ?_, hrs⟩
    rw [hlo, if_neg, hl]
    rintro rfl
    exact hfr c (bound_of_lookup hb)
  · intro id' l hl hrun hca
    rw [hlo] at hl
    split at hl
    · obtain ⟨l', -, rfl⟩ := map_eq_some_iff.mp hl
      cases hrun
    · exact h.live id' l hl hrun hca
  · intro id' l hl
    rw [hlo] at hl
    split at hl
    · obtain ⟨l', hl', rfl⟩ := map_eq_some_iff.mp hl
      have hdue := h.due id l' hl'
      exact ⟨hdue.remaining, hdue.deadline⟩
    · have hdue := h.due id' l hl
      exact ⟨hdue.remaining, hdue.deadline⟩
  · exact h.waits
  · intro id' l hl
    rw [hlo] at hl
    split at hl
    · rename_i hid
      obtain ⟨l', hl', -⟩ := map_eq_some_iff.mp hl
      exact hid ▸ h.fresh id l' hl'
    · exact h.fresh id' l hl
  · exact h.dismissed

theorem Wired.dismiss {ids : Option ListenerId} (hids : ∀ id ∈ ids, id < manager.nextId ∧ ∀ c, manager.bound c ≠ some id) :
    (manager.dismiss ids).Wired where
  bound c b hb := by
    obtain ⟨hnot, hrs⟩ := h.bound c b hb
    refine ⟨fun hmem => ?_, hrs⟩
    rcases mem_append.mp hmem with hmem | hmem
    · exact (hids _ (mem_toList.mp hmem)).2 c (bound_of_lookup hb)
    · exact hnot hmem
  live := h.live
  due id l hl := ⟨(h.due id l hl).remaining, (h.due id l hl).deadline⟩
  waits := h.waits
  fresh := h.fresh
  dismissed id hmem := by
    rcases mem_append.mp hmem with hmem | hmem
    · exact (hids _ (mem_toList.mp hmem)).1
    · exact h.dismissed id hmem

theorem Wired.bound_fresh (hbo : manager.bound c = some id) : id < manager.nextId := by
  obtain ⟨b, hb, rfl⟩ := map_eq_some_iff.mp hbo
  obtain ⟨-, l, hl, -⟩ := h.bound c b hb
  exact h.fresh _ l hl

theorem Wired.released_free (hbo : manager.bound c = some id) : ∀ c', (manager.release c).bound c' ≠ some id := by
  intro c' hbo'
  rw [bound_release] at hbo'
  split at hbo'
  · cases hbo'
  · rename_i hc
    exact hc (h.bound_inj hbo' hbo)

theorem Wired.released : ((manager.release c).dismiss (manager.bound c)).Wired := by
  refine h.release.dismiss fun id hid => ⟨?_, h.released_free hid⟩
  rw [rest_release.2.1]
  exact h.bound_fresh hid

/-! ## 一歩ずつ -/

theorem Wired.tick {ms} : { manager with nowMs := manager.nowMs + ms }.Wired where
  bound := h.bound
  live := h.live
  due id l hl := ⟨Nat.le_trans (h.due id l hl).remaining (Nat.add_le_add_right (Nat.le_add_right _ _) _), (h.due id l hl).deadline⟩
  waits id call hcl := Nat.le_trans (h.waits id call hcl) (Nat.le_add_right _ _)
  fresh := h.fresh
  dismissed := h.dismissed

theorem Wired.bindStart {req} : (manager.bindStart parseNet req).Wired := by
  unfold GatewayManager.bindStart
  have hre := h.released (c := req.credentialId)
  have hnow : ((manager.release req.credentialId).dismiss (manager.bound req.credentialId)).nowMs = manager.nowMs := rest_release.2.2.1
  generalize (manager.release req.credentialId).dismiss (manager.bound req.credentialId) = released at hre hnow
  simp only
  split
  · exact hre
  · refine ⟨hre.bound, hre.live, fun id l hl => ⟨(hre.due id l hl).remaining, (hre.due id l hl).deadline⟩, ?_,
      fun id l hl => Nat.lt_succ_of_lt (hre.fresh id l hl), fun id hid => Nat.lt_succ_of_lt (hre.dismissed id hid)⟩
    intro id call hcl
    simp only at hcl
    by_cases hid : id = released.nextId
    · subst hid
      rw [AList.lookup_insert, some.injEq] at hcl
      subst hcl
      exact Nat.le_of_eq hnow.symm
    · rw [AList.lookup_insert_ne hid] at hcl
      exact hre.waits id call hcl

end

theorem bound_install : (manager.install bindId call port).bound c =
    if c = call.request.credentialId then some manager.nextId else manager.bound c := by
  unfold bound install
  split
  · rename_i hc
    subst hc
    rw [AList.lookup_insert]
    rfl
  · rename_i hc
    rw [AList.lookup_insert_ne hc]

theorem listeners_install (hid : id ≠ manager.nextId) : (manager.install bindId call port).listeners.lookup id =
      (manager.listeners.lookup id).map fun l => Listener.notified l (manager.bound call.request.credentialId = some id) := by
  unfold install
  simp only [AList.lookup_insert_ne hid]
  cases hbo : manager.bound call.request.credentialId with
  | none => simp [Listener.notified]
  | some id' =>
    simp [elim_some, lookup_cancel, eq_comm]

theorem listeners_install_new : (manager.install bindId call port).listeners.lookup manager.nextId = some {
      credentialId := call.request.credentialId
      expiresAtMs := call.request.expiresAtMs
      remainingMs := call.request.expiresAtMs - call.nowMs
      deadline := none
      cancelled := false
      running := true } := by
  unfold install
  exact AList.lookup_insert _

theorem Wired.install (h : manager.Wired) (hcl : call.nowMs ≤ manager.nowMs) : (manager.install bindId call port).Wired := by
  have hnew : ∀ c, manager.bound c ≠ some manager.nextId := fun c hbo => absurd (h.bound_fresh hbo) (Nat.lt_irrefl _)
  constructor
  · intro c b hb
    have hbo := bound_of_lookup hb
    rw [bound_install] at hbo
    by_cases hc : c = call.request.credentialId
    · subst hc
      simp only [GatewayManager.install, AList.lookup_insert, some.injEq] at hb
      subst hb
      refine ⟨fun hmem => ?_, _, listeners_install_new, rfl, rfl, rfl, rfl⟩
      rcases mem_append.mp hmem with hmem | hmem
      · exact hnew _ (mem_toList.mp hmem)
      · exact absurd (h.dismissed _ hmem) (Nat.lt_irrefl _)
    · rw [if_neg hc] at hbo
      have hb' : manager.bindings.lookup c = some b := by
        simpa [GatewayManager.install, AList.lookup_insert_ne hc] using hb
      obtain ⟨hnot, l, hl, hcr, hrun, hca, hexp⟩ := h.bound c b hb'
      have hot : manager.bound call.request.credentialId ≠ some b.cancelTx := fun hsa => hc (h.bound_inj hbo hsa)
      refine ⟨fun hmem => ?_, l, ?_, hcr, hrun, hca, hexp⟩
      · rcases mem_append.mp hmem with hmem | hmem
        · exact hot (mem_toList.mp hmem)
        · exact hnot hmem
      · rw [listeners_install fun heq => hnew c (heq ▸ hbo), hl]
        simp [Listener.notified, hot]
  · intro id l' hl' hrun hca
    by_cases hid : id = manager.nextId
    · subst hid
      rw [listeners_install_new, some.injEq] at hl'
      subst hl'
      rw [bound_install, if_pos rfl]
    · rw [listeners_install hid] at hl'
      obtain ⟨l, hl, rfl⟩ := map_eq_some_iff.mp hl'
      simp only [Listener.notified, Bool.or_eq_false_iff, decide_eq_false_iff_not] at hrun hca ⊢
      have hli := h.live id l hl hrun hca.1
      rw [bound_install, if_neg]
      · exact hli
      · intro hc
        exact hca.2 (hc ▸ hli)
  · intro id l' hl'
    by_cases hid : id = manager.nextId
    · subst hid
      rw [listeners_install_new, some.injEq] at hl'
      subst hl'
      refine ⟨?_, fun deadline hde => by cases hde⟩
      change call.request.expiresAtMs ≤ manager.nowMs + (call.request.expiresAtMs - call.nowMs)
      omega
    · rw [listeners_install hid] at hl'
      obtain ⟨l, hl, rfl⟩ := map_eq_some_iff.mp hl'
      exact ⟨(h.due id l hl).remaining, (h.due id l hl).deadline⟩
  · intro id call' hca'
    simp only [GatewayManager.install] at hca'
    by_cases hid : id = bindId
    · subst hid
      rw [AList.lookup_erase] at hca'
      cases hca'
    · rw [AList.lookup_erase_ne hid] at hca'
      exact h.waits id call' hca'
  · intro id l' hl'
    by_cases hid : id = manager.nextId
    · rw [hid]
      exact Nat.lt_succ_self _
    · rw [listeners_install hid] at hl'
      obtain ⟨l, hl, -⟩ := map_eq_some_iff.mp hl'
      exact Nat.lt_succ_of_lt (h.fresh id l hl)
  · intro id hmem
    rcases mem_append.mp hmem with hmem | hmem
    · exact Nat.lt_succ_of_lt (h.bound_fresh (mem_toList.mp hmem))
    · exact Nat.lt_succ_of_lt (h.dismissed id hmem)

theorem Wired.bindDone (h : manager.Wired) {outcome} : (manager.bindDone bindId outcome).Wired := by
  unfold GatewayManager.bindDone
  cases hcl : manager.pending.lookup bindId with
  | none => exact h
  | some call =>
    cases outcome with
    | none =>
      refine ⟨h.bound, h.live, fun id l hl => ⟨(h.due id l hl).remaining, (h.due id l hl).deadline⟩, fun id call' hca' => ?_,
        h.fresh, h.dismissed⟩
      by_cases hid : id = bindId
      · subst hid
        rw [AList.lookup_erase] at hca'
        cases hca'
      · rw [AList.lookup_erase_ne hid] at hca'
        exact h.waits id call' hca'
    | some port => exact h.install (h.waits bindId call hcl)

theorem listeners_start : (manager.listenerStart id).listeners.lookup id' =
    if id' = id then (manager.listeners.lookup id).map fun l =>
      if l.running ∧ l.deadline = none then { l with deadline := some (manager.nowMs + l.remainingMs) } else l
    else manager.listeners.lookup id' := lookup_adjust

theorem lookup_start (hl : (manager.listenerStart id).listeners.lookup id' = some l') : ∃ l, manager.listeners.lookup id' = some l ∧
    (l' = l ∨ l' = { l with deadline := some (manager.nowMs + l.remainingMs) }) := by
  rw [listeners_start] at hl
  split at hl
  · rename_i hid
    obtain ⟨l, hbe, rfl⟩ := map_eq_some_iff.mp hl
    refine ⟨l, hid ▸ hbe, ?_⟩
    split
    · exact Or.inr rfl
    · exact Or.inl rfl
  · exact ⟨l', hl, Or.inl rfl⟩

section

variable (h : manager.Wired)

include h

theorem Wired.listenerStart : (manager.listenerStart id).Wired where
  bound c b hb := by
    obtain ⟨hnot, l, hl, hcr, hrun, hca, hexp⟩ := h.bound c b hb
    refine ⟨hnot, ?_⟩
    rw [listeners_start]
    split
    · grind
    · exact ⟨l, hl, hcr, hrun, hca, hexp⟩
  live id' l' hl' hrun hca := by
    obtain ⟨l, hl, rfl | rfl⟩ := lookup_start hl'
    · exact h.live id' _ hl hrun hca
    · exact h.live id' l hl hrun hca
  due id' l' hl' := by
    obtain ⟨l, hl, rfl | rfl⟩ := lookup_start hl'
    · exact ⟨(h.due id' _ hl).remaining, (h.due id' _ hl).deadline⟩
    · refine ⟨(h.due id' l hl).remaining, fun deadline hde => ?_⟩
      rw [mem_some_iff] at hde
      exact hde ▸ (h.due id' l hl).remaining
  waits := h.waits
  fresh id' l' hl' := by
    obtain ⟨l, hl, -⟩ := lookup_start hl'
    exact h.fresh id' l hl
  dismissed := h.dismissed

theorem Wired.cancelled_free (hl : manager.listeners.lookup id = some l) (hca : l.cancelled = true) : ∀ c, manager.bound c ≠ some id := by
  intro c hbo
  obtain ⟨b, hb, rfl⟩ := map_eq_some_iff.mp hbo
  obtain ⟨-, l', hl', -, -, hke, -⟩ := h.bound c b hb
  rw [hl, some.injEq] at hl'
  rw [← hl', hca] at hke
  cases hke

theorem Wired.listenerCancel : (manager.listenerCancel id).Wired := by
  unfold GatewayManager.listenerCancel
  cases hl : manager.listeners.lookup id with
  | none => exact h
  | some l =>
    simp only
    split
    · rename_i hrd
      exact h.stop (h.cancelled_free hl hrd.2.2)
    · exact h

theorem Wired.expired_free (hl : manager.listeners.lookup id = some l) : ∀ c, (manager.release l.credentialId).bound c ≠ some id := by
  intro c hbo
  rw [bound_release] at hbo
  split at hbo
  · cases hbo
  · rename_i hc
    exact hc (h.credential hbo hl).symm

theorem Wired.listenerExpire : (manager.listenerExpire id).Wired := by
  unfold GatewayManager.listenerExpire
  cases hl : manager.listeners.lookup id with
  | none => exact h
  | some l =>
    simp only
    split
    · exact h.release.stop (h.expired_free hl)
    · exact h

theorem Wired.step {e} : (step parseNet manager e).Wired := by
  cases e with
  | tick ms => exact h.tick
  | release c => exact h.released
  | bindStart req => exact h.bindStart
  | bindDone id outcome => exact h.bindDone
  | listenerStart id => exact h.listenerStart
  | listenerCancel id => exact h.listenerCancel
  | listenerExpire id => exact h.listenerExpire
  | listenerAccept id => exact h

end

/-! ## 束縛の一生 -/

theorem Kept.released (hke : manager.Kept) : ((manager.release c).dismiss (manager.bound c)).Kept := by
  intro id l' hl'
  have hlo : (manager.release c).listeners.lookup id = some l' := hl'
  rw [listeners_release] at hlo
  obtain ⟨l, hl, rfl⟩ := map_eq_some_iff.mp hlo
  rcases hke id l hl with hdi | hex | ⟨hbo, hrun⟩
  · have hkp : (manager.release c).dismissed = manager.dismissed := rest_release.2.2.2
    exact Or.inl (mem_append_right _ (hkp.symm ▸ hdi))
  · refine Or.inr (Or.inl ?_)
    have hnow : ((manager.release c).dismiss (manager.bound c)).nowMs = manager.nowMs := rest_release.2.2.1
    rw [hnow]
    exact hex
  · by_cases hc : l.credentialId = c
    · subst hc
      exact Or.inl (mem_append_left _ (mem_toList.mpr hbo))
    · refine Or.inr (Or.inr ⟨?_, hrun⟩)
      change (manager.release c).bound l.credentialId = some id
      rw [bound_release, if_neg hc, hbo]

theorem Kept.bindStart (hke : manager.Kept) {req} : (manager.bindStart parseNet req).Kept := by
  unfold GatewayManager.bindStart
  have hre := hke.released (c := req.credentialId)
  generalize (manager.release req.credentialId).dismiss (manager.bound req.credentialId) = released at hre
  simp only
  split
  · exact hre
  · exact hre

theorem Kept.install (hke : manager.Kept) : (manager.install bindId call port).Kept := by
  intro id l' hl'
  rw [bound_install]
  by_cases hid : id = manager.nextId
  · grind [listeners_install_new]
  · rw [listeners_install hid] at hl'
    obtain ⟨l, hl, rfl⟩ := map_eq_some_iff.mp hl'
    rcases hke id l hl with hdi | hex | ⟨hbo, hrun⟩
    · exact Or.inl (mem_append_right _ hdi)
    · exact Or.inr (Or.inl hex)
    · by_cases hc : l.credentialId = call.request.credentialId
      · exact Or.inl (mem_append_left _ (mem_toList.mpr (hc ▸ hbo)))
      · refine Or.inr (Or.inr ⟨?_, hrun⟩)
        rw [← hbo]
        exact if_neg hc

theorem Kept.listenerStart (hke : manager.Kept) : (manager.listenerStart id).Kept := by
  intro id' l' hl'
  obtain ⟨l, hl, rfl | rfl⟩ := lookup_start hl'
  · exact hke id' _ hl
  · exact hke id' l hl

section

variable (h : manager.Wired) (hke : manager.Kept)

include h hke

theorem Kept.listenerCancel : (manager.listenerCancel id).Kept := by
  unfold GatewayManager.listenerCancel
  cases hl : manager.listeners.lookup id with
  | none => exact hke
  | some l =>
    simp only
    split
    · rename_i hrd
      intro id' l' hl'
      have hlo : (adjust manager.listeners id fun l => { l with running := false }).lookup id' = some l' := hl'
      rw [lookup_adjust] at hlo
      split at hlo
      · rename_i hid
        subst hid
        rw [hl, map_some, some.injEq] at hlo
        subst hlo
        rcases hke _ l hl with hdi | hex | ⟨hbo, -⟩
        · exact Or.inl hdi
        · exact Or.inr (Or.inl hex)
        · exact absurd hbo (h.cancelled_free hl hrd.2.2 _)
      · exact hke id' l' hlo
    · exact hke

theorem ownExpiry_iff (hl : manager.listeners.lookup id = some l) (hrd : manager.Expired id l) :
    (∀ b, manager.bindings.lookup l.credentialId = some b → b.cancelTx = id ∨ b.expiresAtMs ≤ manager.nowMs) ↔
      ((manager.release l.credentialId).stop id).Kept := by
  have hnow : (manager.release l.credentialId).nowMs = manager.nowMs := rest_release.2.2.1
  have hdi : (manager.release l.credentialId).dismissed = manager.dismissed := rest_release.2.2.2
  constructor
  · intro hown id' l' hl'
    have hlo : (adjust (manager.release l.credentialId).listeners id fun l => { l with running := false }).lookup id' = some l' := hl'
    rw [lookup_adjust] at hlo
    split at hlo
    · rename_i hid
      subst hid
      rw [listeners_release, hl] at hlo
      cases hlo
      refine Or.inr (Or.inl ?_)
      obtain ⟨deadline, hde, hle⟩ := (any_eq_true _ _).mp hrd.2.2
      change l.expiresAtMs ≤ (manager.release l.credentialId).nowMs
      rw [hnow]
      exact Nat.le_trans ((h.due _ l hl).deadline deadline hde) (of_decide_eq_true hle)
    · rename_i hid
      rw [listeners_release] at hlo
      obtain ⟨l'', hl'', rfl⟩ := map_eq_some_iff.mp hlo
      rcases hke id' l'' hl'' with hgo | hex | ⟨hbo, hrun⟩
      · exact Or.inl (hdi ▸ hgo)
      · exact Or.inr (Or.inl (hnow ▸ hex))
      · by_cases hc : l''.credentialId = l.credentialId
        · obtain ⟨b, hb, rfl⟩ := map_eq_some_iff.mp (hc ▸ hbo)
          rcases hown b hb with hse | hex
          · exact absurd hse hid
          · refine Or.inr (Or.inl ?_)
            obtain ⟨-, l₃, hl₃, -, -, -, hexp⟩ := h.bound _ b hb
            rw [hl'', some.injEq] at hl₃
            change l''.expiresAtMs ≤ (manager.release l.credentialId).nowMs
            rw [hnow, hl₃, hexp]
            exact hex
        · refine Or.inr (Or.inr ⟨?_, hrun⟩)
          change (manager.release l.credentialId).bound l''.credentialId = some id'
          rw [bound_release, if_neg hc, hbo]
  · intro haf b hb
    by_cases hse : b.cancelTx = id
    · exact Or.inl hse
    · refine Or.inr ?_
      obtain ⟨hnot, l', hl', hcr, hrun, -, hexp⟩ := h.bound _ b hb
      have hlo : ((manager.release l.credentialId).stop id).listeners.lookup b.cancelTx =
          some (Listener.notified l' (manager.bound l.credentialId = some b.cancelTx)) := by
        change (adjust (manager.release l.credentialId).listeners id fun l => { l with running := false }).lookup b.cancelTx = _
        rw [lookup_adjust, if_neg hse, listeners_release, hl', map_some]
      rcases haf _ _ hlo with hgo | hex | ⟨hbo, -⟩
      · change b.cancelTx ∈ (manager.release l.credentialId).dismissed at hgo
        exact absurd (hdi ▸ hgo) hnot
      · change l'.expiresAtMs ≤ (manager.release l.credentialId).nowMs at hex
        rw [hnow, hexp] at hex
        exact hex
      · change (manager.release l.credentialId).bound l'.credentialId = some b.cancelTx at hbo
        rw [bound_release, if_pos hcr] at hbo
        cases hbo

theorem ownExpiry_step {e} : manager.OwnExpiry e ↔ (step parseNet manager e).Kept := by
  cases e with
  | tick ms =>
    refine iff_of_true trivial fun id l hl => ?_
    rcases hke id l hl with hdi | hex | hbo
    · exact Or.inl hdi
    · exact Or.inr (Or.inl (Nat.le_trans hex (Nat.le_add_right _ _)))
    · exact Or.inr (Or.inr hbo)
  | release c => exact iff_of_true trivial hke.released
  | bindStart req => exact iff_of_true trivial hke.bindStart
  | bindDone id outcome =>
    refine iff_of_true trivial ?_
    simp only [step, bindDone]
    cases manager.pending.lookup id with
    | none => exact hke
    | some call =>
      cases outcome with
      | none => exact hke
      | some port => exact hke.install
  | listenerStart id => exact iff_of_true trivial hke.listenerStart
  | listenerCancel id => exact iff_of_true trivial (hke.listenerCancel h)
  | listenerExpire id =>
    simp only [step, listenerExpire]
    cases hl : manager.listeners.lookup id with
    | none =>
      refine iff_of_true (fun l hrd => ?_) hke
      rw [hrd.1] at hl
      cases hl
    | some l =>
      simp only
      split
      · rename_i hrd
        have hex : manager.Expired id l := ⟨hl, hrd⟩
        rw [← ownExpiry_iff h hke hl hex]
        constructor
        · exact fun hown => hown l hex
        · intro hown l' hre'
          rw [Expired, hl] at hre'
          cases hre'.1
          exact hown
      · rename_i hrd
        refine iff_of_true (fun l' hre' => ?_) hke
        rw [Expired, hl] at hre'
        cases hre'.1
        exact absurd hre'.2 hrd
  | listenerAccept id => exact iff_of_true trivial hke

end

end GatewayManager

end Supacloud.JitGateway
