import Supacloud.RuntimeAllocation.Lemmas.Requests

/-!
# 表の不変条件
-/

namespace Supacloud.RuntimeAllocation

open Library RuntimeAllocation World List

open Contracts (JsString)

open Vectors (js)

variable {platform : Platform} {configuration : PortConfiguration} {w w' : World} {input : ApplicationRuntimeAllocationInput}
  {env : AllocationEnvironment} {row before : AllocationRow} {key : AllocationKey} {ports : List (JsString × Nat)}
  {now : Timestamp}

/-! ## 行 -/

def AllocationRow.request (row : AllocationRow) : ApplicationRuntimeAllocationInput :=
  { runtime := row.runtime.toApplicationRuntimeRequest, configurationId := row.configurationId }

def AllocationRow.record (row : AllocationRow) : ApplicationRuntimeAllocation :=
  { runtime := row.runtime, configurationId := row.configurationId, createdAt := row.createdAt, retiredAt := row.retiredAt }

def portRow (key : AllocationKey) (entry : JsString × Nat) : PortRow :=
  { port := entry.2, projectRef := key.1, activationId := key.2, target := entry.1 }

structure AllocationRow.Requested (platform : Platform) (row : AllocationRow) : Prop where
  normal : Normal platform row.request
  key : row.key = row.request.key
  fingerprint : row.requestFingerprint = platform.stableSha256 row.request
  plan : ∃ units, applicationRuntimePlan platform row.runtime = .ok units

theorem AllocationRow.Requested.allocation {ownedPorts} (h : row.Requested platform)
    (hac : row.retiredAt = none → ownedPorts.Perm row.runtime.ports) (hre : row.retiredAt ≠ none → ownedPorts = []) :
    allocation platform row ownedPorts = .ok row.record := by
  obtain ⟨units, hpl⟩ := h.plan
  simp only [RuntimeAllocation.allocation, bind_eq_ok, require_eq_ok, pure_eq_ok]
  exact ⟨units, hpl, row.request, h.normal.fixed, (),
    ⟨congrArg Prod.fst h.key, congrArg Prod.snd h.key, h.fingerprint.symm, hac, hre⟩, rfl⟩

def SameOwner (a b : AllocationRow) : Prop :=
  ∀ x ∈ a.runtime.release.groups, ∀ y ∈ b.runtime.release.groups, x.queue = y.queue →
    a.runtime.release.applicationId = b.runtime.release.applicationId ∧ a.runtime.environmentId = b.runtime.environmentId ∧
      x.taskKey = y.taskKey ∧ x.definitionVersion = y.definitionVersion ∧ x.name = y.name

theorem SameOwner.symm {a b} (h : SameOwner a b) : SameOwner b a := by
  intro x hx y hy hqu
  obtain ⟨hap, hen, hta, hve, hna⟩ := h y hy x hx hqu.symm
  exact ⟨hap.symm, hen.symm, hta.symm, hve.symm, hna.symm⟩

namespace World

structure Sound (platform : Platform) (configuration : PortConfiguration) (w : World) : Prop where
  keys : (w.allocations.map AllocationRow.key).Nodup
  distinct : (w.ports.map PortRow.port).Nodup
  owner : ∀ port ∈ w.ports, ∃ row ∈ w.allocations, row.key = port.key ∧ row.retiredAt = none
  ranged : ∀ port ∈ w.ports, configuration.range.start ≤ port.port ∧ port.port ≤ configuration.range.stop
  requested : ∀ row ∈ w.allocations, row.Requested platform
  recorded : ∀ row ∈ w.allocations, row.retiredAt = none → (w.ownedPorts row.key).Perm row.runtime.ports
  owners : ∀ a ∈ w.allocations, ∀ b ∈ w.allocations, a.retiredAt = none → b.retiredAt = none → a.projectRef = b.projectRef → SameOwner a b

theorem sound_empty : empty.Sound platform configuration := by
  constructor
  case keys => exact nodup_nil
  case distinct => exact nodup_nil
  case owner => exact fun _ h => nomatch h
  case ranged => exact fun _ h => nomatch h
  case requested => exact fun _ h => nomatch h
  case recorded => exact fun _ h => nomatch h
  case owners => exact fun _ h => nomatch h

section

variable (h : w.Sound platform configuration) (hrow : row ∈ w.allocations)

include h hrow

theorem Sound.find : (w.allocations.find? fun other => other.key = row.key) = some row := find?_key h.keys hrow

theorem Sound.retired_owns_none (hre : row.retiredAt ≠ none) : w.ownedPorts row.key = [] := by
  rw [ownedPorts, map_eq_nil_iff, filter_eq_nil_iff]
  intro port hpo hkey
  obtain ⟨other, hot, hoke, hac⟩ := h.owner port hpo
  have hsa : other = row := eq_of_key h.keys hot hrow (hoke.trans (by simpa using hkey))
  exact hre (hsa ▸ hac)

theorem Sound.allocation : allocation platform row (w.ownedPorts row.key) = .ok row.record :=
  (h.requested row hrow).allocation (h.recorded row hrow) (h.retired_owns_none hrow)

end

/-! ## 割り当て -/

def inserted (w : World) (row : AllocationRow) : World :=
  { w with allocations := w.allocations ++ [row], ports := w.ports ++ row.runtime.ports.map (portRow row.key) }

theorem insertPorts_eq (hkey : ∃ row ∈ w.allocations, row.key = key) (hpos : (w.ports.map PortRow.port ++ ports.map Prod.snd).Nodup)
    (htas : ∀ port ∈ w.ports, port.key = key → port.target ∉ ports.map Prod.fst) (hnas : (ports.map Prod.fst).Nodup)
    (hra : ∀ port ∈ ports.map Prod.snd, 1024 ≤ port ∧ port ≤ 65535) :
    insertPorts w key ports = .ok { w with ports := w.ports ++ ports.map (portRow key) } := by
  induction ports generalizing w with
  | nil => simp [insertPorts]
  | cons entry ports ih =>
    obtain ⟨target, port⟩ := entry
    obtain ⟨hna, hnas⟩ := nodup_cons.mp hnas
    obtain ⟨hpo, hra⟩ := forall_mem_cons.mp hra
    have hins : w.insertPort (portRow key (target, port)) = .ok { w with ports := w.ports ++ [portRow key (target, port)] } := by
      simp only [insertPort, bind_eq_ok, require_eq_ok, pure_eq_ok]
      refine ⟨(), ⟨fun other hot heq => ?_, fun other hot hsa => ?_, hpo, hkey⟩, trivial⟩
      · exact (nodup_append.mp hpos).2.2 other.port (mem_map_of_mem hot) port (by simp) heq
      · exact htas other hot hsa.1 (by simp [hsa.2, portRow])
    have hrst := ih (w := { w with ports := w.ports ++ [portRow key (target, port)] }) hkey
      (by simpa [portRow] using hpos) (fun other hot hke' => ?_) hnas hra
    · rw [insertPorts]
      refine (congrArg (· >>= fun inserted => insertPorts inserted key ports) hins).trans (hrst.trans ?_)
      simp
    · rcases mem_append.mp hot with hot | hot
      · intro hmem
        exact htas other hot hke' (mem_cons_of_mem _ hmem)
      · rw [mem_singleton.mp hot]
        exact hna

end World

structure Chosen (w : World) (env : AllocationEnvironment) (configuration : PortConfiguration) (input : ApplicationRuntimeAllocationInput)
    (ports : List (JsString × Nat)) : Prop where
  names : (ports.map Prod.fst).Perm (input.runtime.release.httpTargets.map ReleaseTarget.name)
  distinct : (ports.map Prod.snd).Nodup
  ranged : ∀ port ∈ ports.map Prod.snd, configuration.range.start ≤ port ∧ port ≤ configuration.range.stop
  bounded : ∀ port ∈ ports.map Prod.snd, 1024 ≤ port ∧ port ≤ 65535
  usable : ∀ port ∈ ports.map Prod.snd, w.usablePort env port = true

theorem chosen_of_assign {range fingerprint} (had : Admitted platform configuration w input range)
    (h : assignPorts platform w range input fingerprint env = .ok ports) : Chosen w env configuration input ports := by
  obtain ⟨hnas, hdi, hall⟩ := assignPorts_ok h
  have hra : ∀ port ∈ ports.map Prod.snd, range.start ≤ port ∧ port ≤ range.stop :=
    fun port hpo => (mem_portList had.ordered).mp (hall port hpo).1
  refine ⟨hnas, hdi, had.configured ▸ hra, fun port hpo => ?_, fun port hpo => (hall port hpo).2⟩
  exact ⟨had.low.trans (hra port hpo).1, (hra port hpo).2.trans had.high⟩

theorem Chosen.fresh (h : Chosen w env configuration input ports) {port} (hpo : port ∈ ports.map Prod.snd) :
    port ∉ w.ports.map PortRow.port ∧ port ∉ env.reservedPorts := by
  have hfre := h.usable port hpo
  simp only [usablePort, free, unavailablePorts, Bool.and_eq_true, Bool.not_eq_true', contains_eq_mem,
    decide_eq_false_iff_not, mem_append, not_or] at hfre
  exact hfre.1

theorem Normal.newRow (hn : Normal platform input) (h : Chosen w env configuration input ports) :
    (newRow platform input ports now).Requested platform := by
  obtain ⟨units, hpl⟩ := hn.plan
  refine ⟨hn, rfl, rfl, units, ?_⟩
  exact plan_ports hpl h.names h.distinct h.bounded

namespace World

theorem Sound.no_ports (h : w.Sound platform configuration) (hnew : ∀ row ∈ w.allocations, row.key ≠ key) :
    ∀ port ∈ w.ports, port.key ≠ key := by
  intro port hpo hkey
  obtain ⟨row, hrow, hrk, -⟩ := h.owner port hpo
  exact hnew row hrow (hrk.trans hkey)

theorem ownedPorts_inserted (hno : ∀ port ∈ w.ports, port.key ≠ row.key) : (w.inserted row).ownedPorts row.key = row.runtime.ports := by
  have hot : (w.ports.filter fun port => port.key = row.key) = [] :=
    filter_eq_nil_iff.mpr fun port hpo => by simpa using hno port hpo
  have hmi : ((row.runtime.ports.map (portRow row.key)).filter fun port => port.key = row.key) =
      row.runtime.ports.map (portRow row.key) := by
    refine filter_eq_self.mpr fun port hpo => ?_
    obtain ⟨entry, -, rfl⟩ := mem_map.mp hpo
    exact decide_eq_true rfl
  have hall : (w.inserted row).ports = w.ports ++ row.runtime.ports.map (portRow row.key) := rfl
  rw [ownedPorts, hall, filter_append, hot, hmi, nil_append, map_map]
  exact map_id _

theorem ownedPorts_inserted_ne (hkey : key ≠ row.key) : (w.inserted row).ownedPorts key = w.ownedPorts key := by
  have hmi : ((row.runtime.ports.map (portRow row.key)).filter fun port => port.key = key) = [] := by
    refine filter_eq_nil_iff.mpr fun port hpo hpo' => ?_
    obtain ⟨entry, -, rfl⟩ := mem_map.mp hpo
    exact hkey (of_decide_eq_true hpo').symm
  have hall : (w.inserted row).ports = w.ports ++ row.runtime.ports.map (portRow row.key) := rfl
  rw [ownedPorts, hall, filter_append, hmi, append_nil, ownedPorts]

theorem Sound.allocateNew_eq {range} (h : w.Sound platform configuration) (hn : Normal platform input)
    (hnew : ∀ row ∈ w.allocations, row.key ≠ input.key) (hgr : admission platform configuration w input env = .ok range) :
    allocateNew platform configuration w input env now =
      (assignPorts platform w range input (platform.stableSha256 input) env).map fun ports =>
        (w.inserted (newRow platform input ports now), (newRow platform input ports now).record) := by
  have had := admission_ok hgr
  rw [allocateNew, hgr]
  cases hass : assignPorts platform w range input (platform.stableSha256 input) env with
  | error e => simp [hass, bind, Except.bind, Except.map]
  | ok ports =>
    have hch := chosen_of_assign had hass
    have hnas : (input.runtime.release.httpTargets.map ReleaseTarget.name).Nodup := (parse_ok hn.release).2.1.sublist (filter_sublist.map _)
    have hrow : (newRow platform input ports now).key = input.key := rfl
    have hnoP := h.no_ports hnew
    have hins : w.insertAllocation (newRow platform input ports now) =
        .ok { w with allocations := w.allocations ++ [newRow platform input ports now] } := by
      simp only [insertAllocation, bind_eq_ok, require_eq_ok, pure_eq_ok]
      exact ⟨(), hnew, trivial⟩
    have hpos : insertPorts { w with allocations := w.allocations ++ [newRow platform input ports now] } input.key ports =
        .ok (w.inserted (newRow platform input ports now)) := by
      refine insertPorts_eq ⟨_, mem_append_right _ (mem_singleton_self _), hrow⟩ ?_ (fun port hpo hkey => ?_)
        (hch.names.nodup_iff.mpr hnas) hch.bounded
      · grind [h.distinct, hch.distinct, hch.fresh]
      · exact absurd hkey (hnoP port hpo)
    have hfi : ((w.inserted (newRow platform input ports now)).allocations.find? fun row => row.key = input.key) =
        some (newRow platform input ports now) := by
      have hno : (w.allocations.find? fun row => row.key = input.key) = none :=
        find?_eq_none.mpr fun row hrow => by simpa using hnew row hrow
      simp [inserted, find?_append, hno, hrow]
    have how : (w.inserted (newRow platform input ports now)).ownedPorts input.key = ports := ownedPorts_inserted hnoP
    have hrs : RuntimeAllocation.allocation platform (newRow platform input ports now) ports =
        .ok (newRow platform input ports now).record :=
      (hn.newRow hch).allocation (fun _ => List.Perm.refl _) fun hre => absurd rfl hre
    have hrd : (w.inserted (newRow platform input ports now)).readRow platform input.key =
        .ok (some (newRow platform input ports now)) := hn.readRow.trans (congrArg Except.ok hfi)
    simp only [bind, Except.bind, hass, Except.map, hins, hrow, hpos, hrd, fetch, how, hrs, pure, Except.pure]

theorem sameOwner_of_admitted (hrow : row.Requested platform) (hn : Normal platform input) (hpro : row.projectRef = input.runtime.release.projectRef)
    (hor : queueOwnerConflict input row.runtime = false) : SameOwner row (newRow platform input ports now) := by
  intro x hx y hy hqu
  have hsa : row.runtime.release.projectRef = input.runtime.release.projectRef := (congrArg Prod.fst hrow.key).symm.trans hpro
  rw [queueOwnerConflict, hsa, decide_eq_true rfl, Bool.true_and, any_eq_false] at hor
  have hfi : (input.runtime.release.groups.find? fun group => group.queue = x.queue) = some y := by
    rw [hqu]
    exact find?_key (parse_ok hn.release).2.2 hy
  have hma := hor x hx
  rw [hfi] at hma
  simp only [ne_eq, Bool.or_eq_true, decide_eq_true_eq, not_or, Decidable.not_not] at hma
  obtain ⟨⟨⟨⟨hap, hen⟩, hta⟩, hve⟩, hna⟩ := hma
  exact ⟨hap, hen, hta, hve, hna⟩

theorem sameOwner_self (h : row.Requested platform) : SameOwner row row := by
  intro x hx y hy hqu
  have heq : x = y := eq_of_key (parse_ok h.normal.release).2.2 hx hy hqu
  subst heq
  exact ⟨rfl, rfl, rfl, rfl, rfl⟩

theorem Sound.inserted {range} (h : w.Sound platform configuration) (hn : Normal platform input) (hnew : ∀ row ∈ w.allocations, row.key ≠ input.key)
    (had : Admitted platform configuration w input range) (hch : Chosen w env configuration input ports) :
    (w.inserted (newRow platform input ports now)).Sound platform configuration := by
  have hkey : (newRow platform input ports now).key = input.key := rfl
  have hrq : (newRow platform input ports now).Requested platform := hn.newRow hch
  have how : (w.inserted (newRow platform input ports now)).ownedPorts (newRow platform input ports now).key = ports :=
    ownedPorts_inserted (h.no_ports hnew)
  have hmem : ∀ {other}, other ∈ (w.inserted (newRow platform input ports now)).allocations ↔
      other ∈ w.allocations ∨ other = newRow platform input ports now := by
    intro other
    rw [World.inserted, mem_append, mem_singleton]
  have hpo : ∀ {port}, port ∈ (w.inserted (newRow platform input ports now)).ports →
      port ∈ w.ports ∨ ∃ entry ∈ ports, port = portRow input.key entry := by
    intro port hpo
    rcases mem_append.mp hpo with hpo | hpo
    · exact .inl hpo
    · obtain ⟨entry, hent, rfl⟩ := mem_map.mp hpo
      exact .inr ⟨entry, hent, rfl⟩
  constructor
  case keys =>
    rw [World.inserted, map_append]
    refine nodup_append.mpr ⟨h.keys, nodup_singleton _, fun key hold key' hne' heq => ?_⟩
    obtain ⟨row, hrow, rfl⟩ := mem_map.mp hold
    exact hnew row hrow (heq.trans (mem_singleton.mp hne'))
  case distinct =>
    have hmap : (w.inserted (newRow platform input ports now)).ports.map PortRow.port = w.ports.map PortRow.port ++ ports.map Prod.snd := by
      rw [World.inserted, map_append, map_map]
      rfl
    rw [hmap]
    refine nodup_append.mpr ⟨h.distinct, hch.distinct, fun port hold port' hne' heq => ?_⟩
    exact (hch.fresh hne').1 (heq ▸ hold)
  case owner =>
    intro port hin
    rcases hpo hin with hold | ⟨entry, -, rfl⟩
    · grind [h.owner]
    · exact ⟨_, hmem.mpr (.inr rfl), hkey, rfl⟩
  case ranged =>
    intro port hin
    rcases hpo hin with hold | ⟨entry, hent, rfl⟩
    · exact h.ranged port hold
    · exact hch.ranged entry.2 (mem_map_of_mem hent)
  case requested =>
    intro row hrow
    rcases hmem.mp hrow with hold | rfl
    · exact h.requested row hold
    · exact hrq
  case recorded =>
    intro row hrow hac
    rcases hmem.mp hrow with hold | rfl
    · rw [ownedPorts_inserted_ne (hkey ▸ hnew row hold)]
      exact h.recorded row hold hac
    · rw [how]
      exact List.Perm.refl _
  case owners =>
    have hfr : ∀ row ∈ w.allocations, row.retiredAt = none → row.projectRef = input.runtime.release.projectRef →
        SameOwner row (newRow platform input ports now) := by
      intro row hrow hac hpro
      refine sameOwner_of_admitted (h.requested row hrow) hn hpro (had.owners row ?_)
      exact mem_filter.mpr ⟨hrow, by simp [hac]⟩
    intro a ha b hb hac hac' hpro
    rcases hmem.mp ha with ha | rfl
    · rcases hmem.mp hb with hb | rfl
      · exact h.owners a ha b hb hac hac' hpro
      · exact hfr a ha hac hpro
    · rcases hmem.mp hb with hb | rfl
      · exact (hfr b hb hac' hpro.symm).symm
      · exact sameOwner_self hrq

/-! ## 引退 -/

theorem ownedPorts_markRetired {fingerprint key'} :
    (w.markRetired key now fingerprint).ownedPorts key' = if key' = key then [] else w.ownedPorts key' := by
  rw [ownedPorts, markRetired, filter_filter]
  split
  · rename_i hkey
    rw [map_eq_nil_iff, filter_eq_nil_iff]
    intro port _
    simp [hkey]
  · grind [ownedPorts]

theorem Sound.markRetired (h : w.Sound platform configuration) (key now fingerprint) :
    (w.markRetired key now fingerprint).Sound platform configuration := by
  have hmem : ∀ {row}, row ∈ (w.markRetired key now fingerprint).allocations → row.retiredAt = none →
      row ∈ w.allocations ∧ row.key ≠ key := by
    intro row hrow hac
    obtain ⟨old, hold, rfl⟩ := mem_update.mp hrow
    by_cases hkey : old.key = key
    · rw [if_pos (decide_eq_true hkey)] at hac
      cases hac
    · rw [if_neg (by simpa using hkey)]
      exact ⟨hold, hkey⟩
  constructor
  case keys =>
    have hsa : (w.markRetired key now fingerprint).allocations.map AllocationRow.key = w.allocations.map AllocationRow.key :=
      map_update fun _ _ => rfl
    rw [hsa]
    exact h.keys
  case distinct => exact h.distinct.sublist (filter_sublist.map _)
  case owner =>
    intro port hpo
    obtain ⟨hpo, hot⟩ := mem_filter.mp hpo
    obtain ⟨row, hrow, hkey, hac⟩ := h.owner port hpo
    refine ⟨row, mem_update.mpr ⟨row, hrow, if_neg ?_⟩, hkey, hac⟩
    rw [hkey]
    simpa using hot
  case ranged => exact fun port hpo => h.ranged port (mem_filter.mp hpo).1
  case requested =>
    intro row hrow
    obtain ⟨old, hold, rfl⟩ := mem_update.mp hrow
    have hol' := h.requested old hold
    split
    · exact ⟨hol'.normal, hol'.key, hol'.fingerprint, hol'.plan⟩
    · exact hol'
  case recorded =>
    intro row hrow hac
    obtain ⟨hold, hkey⟩ := hmem hrow hac
    rw [ownedPorts_markRetired, if_neg hkey]
    exact h.recorded row hold hac
  case owners =>
    intro a ha b hb hac hac' hpro
    exact h.owners a (hmem ha hac).1 b (hmem hb hac').1 hac hac' hpro

theorem retire_inv (h : retire platform w before now = .ok w') :
    w' = w ∨ ∃ fingerprint current, (w.allocations.find? fun row => row.key = before.key) = some current ∧ current.retiredAt = none ∧
      w' = w.markRetired before.key now fingerprint := by
  simp only [retire, bind_eq_ok, fetch_eq_ok, readRow, require_eq_ok, pure_eq_ok] at h
  obtain ⟨found, ⟨-, -, rfl⟩, current, hcu, h⟩ := h
  split at h
  · simp only [bind_eq_ok, pure_eq_ok] at h
    obtain ⟨-, -, rfl⟩ := h
    exact .inl rfl
  · rename_i hac
    simp only [bind_eq_ok, require_eq_ok, fetch_eq_ok, pure_eq_ok] at h
    obtain ⟨-, -, -, -, -, -, -, -, -, -, rfl⟩ := h
    exact .inr ⟨_, current, hcu, by simpa using hac, rfl⟩

end World

/-! ## 走行 -/

open Contracts (JsString)

variable {platform : Platform} {configuration : PortConfiguration} {w w' : World} {range : ApplicationPortRange}
  {candidate input : ApplicationRuntimeAllocationInput} {env : AllocationEnvironment} {row : AllocationRow} {key : AllocationKey}
  {ports : List (JsString × Nat)} {now : Timestamp} {events : List Event}

namespace World

/-! ## 取引 -/

theorem Sound.retiring (h : w.Sound platform configuration) (retiring) : ({ w with retiring } : World).Sound platform configuration :=
  ⟨h.keys, h.distinct, h.owner, h.ranged, h.requested, h.recorded, h.owners⟩

theorem Sound.allocate_existing (h : w.Sound platform configuration) (hinp : normalizedInput platform candidate = .ok input)
    (hrow : row ∈ w.allocations) (hkey : row.key = input.key) : allocate platform configuration w candidate env now =
      if row.retiredAt = none then
        if row.requestFingerprint = platform.stableSha256 input then .ok (w, row.record) else .error .allocationConflict
      else .error .allocationRetired := by
  have hrd : w.readRow platform input.key = .ok (some row) := by
    rw [(normal_of_ok hinp).readRow, ← hkey, h.find hrow]
  have hrs := h.allocation hrow
  rw [hkey] at hrs
  rw [allocate, hinp]
  simp only [ApplicationRuntimeAllocationInput.key] at hrd hrs
  simp only [bind, Except.bind, hrd, hrs, require, pure, Except.pure]
  by_cases hac : row.retiredAt = none
  · grind
  · simp [hac]

theorem allocate_new (hinp : normalizedInput platform candidate = .ok input) (hnew : ∀ row ∈ w.allocations, row.key ≠ input.key) :
    allocate platform configuration w candidate env now = allocateNew platform configuration w input env now := by
  have hrd : w.readRow platform input.key = .ok none := by
    rw [(normal_of_ok hinp).readRow]
    exact congrArg Except.ok (find?_eq_none.mpr fun row hrow => by simpa using hnew row hrow)
  rw [allocate, hinp]
  simp only [ApplicationRuntimeAllocationInput.key] at hrd
  simp [bind, Except.bind, hrd]

theorem Sound.allocate_inv {result} (h : w.Sound platform configuration) (hok : allocate platform configuration w candidate env now = .ok (w', result)) :
    w' = w ∨ ∃ input range ports, Normal platform input ∧ (∀ row ∈ w.allocations, row.key ≠ input.key) ∧
      Admitted platform configuration w input range ∧ Chosen w env configuration input ports ∧
      w' = w.inserted (newRow platform input ports now) ∧ result = (newRow platform input ports now).record := by
  have hinp : ∃ input, normalizedInput platform candidate = .ok input := by
    rw [allocate, bind_eq_ok] at hok
    obtain ⟨input, hinp, -⟩ := hok
    exact ⟨input, hinp⟩
  obtain ⟨input, hinp⟩ := hinp
  have hn := normal_of_ok hinp
  by_cases hnew : ∀ row ∈ w.allocations, row.key ≠ input.key
  · rw [allocate_new hinp hnew] at hok
    obtain ⟨range, hgr, -⟩ := bind_eq_ok.mp hok
    rw [h.allocateNew_eq hn hnew hgr] at hok
    cases hass : assignPorts platform w range input (platform.stableSha256 input) env with
    | error e =>
      rw [hass] at hok
      cases hok
    | ok ports =>
      rw [hass] at hok
      cases hok
      have had := admission_ok hgr
      exact .inr ⟨input, range, ports, hn, hnew, had, chosen_of_assign had hass, rfl, rfl⟩
  · simp only [not_forall, not_not] at hnew
    obtain ⟨row, hrow, hkey⟩ := hnew
    rw [h.allocate_existing hinp hrow hkey] at hok
    split at hok
    · split at hok
      · cases hok
        exact .inl rfl
      · cases hok
    · cases hok

theorem beginRetire_inv {call} (h : beginRetire platform w call key = .ok w') : ∃ retiring, w' = { w with retiring } := by
  simp only [beginRetire, bind_eq_ok, pure_eq_ok] at h
  obtain ⟨-, -, row, -, -, -, rfl⟩ := h
  split
  · exact ⟨w.retiring, rfl⟩
  · exact ⟨_, rfl⟩

/-! ## 一歩 -/

inductive Change (platform : Platform) (configuration : PortConfiguration) (w : World) (e : Event) : World → Prop where
  | same (retiring : List (Nat × AllocationRow)) : Change platform configuration w e { w with retiring }
  | allocated {candidate : ApplicationRuntimeAllocationInput} {env now}
      {input range ports}
      (event : e = .allocate candidate env now true) (normal : Normal platform input) (fresh : ∀ row ∈ w.allocations, row.key ≠ input.key)
      (admitted : Admitted platform configuration w input range) (chosen : Chosen w env configuration input ports)
      (returned : allocate platform configuration w candidate env now =
        .ok (w.inserted (newRow platform input ports now), (newRow platform input ports now).record)) :
      Change platform configuration w e (w.inserted (newRow platform input ports now))
  | retired (retiring : List (Nat × AllocationRow)) {key current now fingerprint}
      (found : (w.allocations.find? fun row => row.key = key) = some current) (active : current.retiredAt = none) :
      Change platform configuration w e (({ w with retiring } : World).markRetired key now fingerprint)

theorem Sound.change (h : w.Sound platform configuration) (e) : Change platform configuration w e (step platform configuration w e) := by
  cases e with
  | allocate candidate env now commit =>
    rw [step]
    cases hok : allocate platform configuration w candidate env now with
    | error e => exact .same w.retiring
    | ok pair =>
      obtain ⟨w', result⟩ := pair
      cases commit with
      | false => exact .same w.retiring
      | true =>
        rcases h.allocate_inv hok with rfl | ⟨input, range, ports, hn, hnew, had, hch, rfl, rfl⟩
        · exact .same w'.retiring
        · exact .allocated rfl hn hnew had hch hok
  | beginRetire call key =>
    rw [step]
    cases hok : beginRetire platform w call key with
    | error e => exact .same w.retiring
    | ok w' =>
      obtain ⟨retiring, rfl⟩ := beginRetire_inv hok
      exact .same retiring
  | retire call now commit =>
    rw [step]
    cases hpe : w.retiring.find? fun pending => pending.1 = call with
    | none => exact .same w.retiring
    | some pending =>
      obtain ⟨_, before⟩ := pending
      dsimp only
      cases hok : retire platform { w with retiring := w.retiring.filter fun pending => pending.1 ≠ call } before now with
      | error e => exact .same _
      | ok w' =>
        cases commit with
        | false => exact .same _
        | true =>
          rcases retire_inv hok with rfl | ⟨fingerprint, current, hfo, hac, rfl⟩
          · exact .same _
          · exact .retired _ hfo hac
  | abandonRetire call => exact .same _

theorem Sound.step (h : w.Sound platform configuration) (e) : (RuntimeAllocation.step platform configuration w e).Sound platform configuration := by
  have hcha := h.change e
  generalize RuntimeAllocation.step platform configuration w e = w' at hcha ⊢
  cases hcha with
  | same retiring => exact h.retiring retiring
  | allocated event normal fresh admitted chosen returned => exact h.inserted normal fresh admitted chosen
  | retired retiring found active => exact (h.retiring retiring).markRetired _ _ _

theorem sound_run (platform configuration events) :
    (run (step platform configuration) .empty events).Sound platform configuration :=
  run_invariant (fun _ e h => h.step e) sound_empty

section

variable (h : w.Sound platform configuration) (hrow : row ∈ w.allocations) (hre : row.retiredAt ≠ none)

include h hrow hre

theorem Sound.keeps_retired (e : Event) : row ∈ (RuntimeAllocation.step platform configuration w e).allocations := by
  have hcha := h.change e
  generalize RuntimeAllocation.step platform configuration w e = w' at hcha ⊢
  cases hcha with
  | same retiring => exact hrow
  | allocated event normal fresh admitted chosen returned => exact mem_append_left _ hrow
  | @retired retiring key current now fingerprint found active =>
    refine mem_update.mpr ⟨row, hrow, if_neg fun hkey => ?_⟩
    have hfo := h.find hrow
    rw [of_decide_eq_true hkey, found] at hfo
    exact hre (Option.some.inj hfo ▸ active)

theorem Sound.keeps_retired_run (events) : row ∈ (run (RuntimeAllocation.step platform configuration) w events).allocations := by
  induction events generalizing w with
  | nil => exact hrow
  | cons e events ih => exact ih (h.step e) (h.keeps_retired hrow hre e)

end

end World

/-! ## 行の来た取引 -/

def AllocationRow.unretired (row : AllocationRow) : AllocationRow := { row with retiredAt := none, retirementFingerprint := none }

def Taken (platform : Platform) (configuration : PortConfiguration) (events : List Event) (row : AllocationRow) : Prop :=
  ∃ before candidate env now after w', events = before ++ .allocate candidate env now true :: after ∧
    allocate platform configuration (run (step platform configuration) .empty before) candidate env now = .ok (w', row.unretired.record) ∧
    ∀ port ∈ row.runtime.ports.map Prod.snd, port ∉ env.reservedPorts ∧
      port ∉ (run (step platform configuration) .empty before).ports.map PortRow.port ∧ env.isAvailable port = some true

theorem Taken.concat {row row'} (h : Taken platform configuration events row) (hsa : row'.unretired = row.unretired) (e) :
    Taken platform configuration (events ++ [e]) row' := by
  obtain ⟨before, candidate, env, now, after, w', rfl, hrt, hpos⟩ := h
  have hru : row'.runtime = row.runtime := (congrArg AllocationRow.runtime hsa :)
  refine ⟨before, candidate, env, now, after ++ [e], w', by simp, ?_, ?_⟩
  · rw [hsa]
    exact hrt
  · rw [hru]
    exact hpos

theorem taken_run (platform configuration events) :
    ∀ row ∈ (run (step platform configuration) .empty events).allocations, Taken platform configuration events row := by
  induction events using reverseRecOn with
  | nil => exact fun _ h => nomatch h
  | append_singleton events e ih =>
    intro row hrow
    have hcha := (sound_run platform configuration events).change e
    rw [run_append, run_cons, run_nil] at hrow
    generalize step platform configuration (run (step platform configuration) .empty events) e = w' at hcha hrow
    cases hcha with
    | same retiring => exact (ih row hrow).concat rfl e
    | @allocated candidate env now input range ports event normal fresh admitted chosen returned =>
      rcases mem_append.mp hrow with hold | hnew
      · exact (ih row hold).concat rfl e
      · obtain rfl := mem_singleton.mp hnew
        refine ⟨events, candidate, env, now, [], _, by rw [event], returned, fun port hpo => ?_⟩
        obtain ⟨hcl, hres⟩ := chosen.fresh hpo
        have hpr := chosen.usable port hpo
        rw [usablePort, Bool.and_eq_true] at hpr
        exact ⟨hres, hcl, of_decide_eq_true hpr.2⟩
    | @retired retiring key current now fingerprint found active =>
      obtain ⟨old, hold, rfl⟩ := mem_update.mp hrow
      refine (ih old hold).concat ?_ e
      split <;> rfl

end Supacloud.RuntimeAllocation
