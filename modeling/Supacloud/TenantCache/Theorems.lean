import Supacloud.TenantCache.Lemmas.Loop

/-!
# キャッシュの登録簿の性質
-/

namespace Supacloud.TenantCache

open Library

/-! ## 貸し出しの安全 -/

/-- 待ち行列のどの走行でも、`acquire` が返した貸し出しが返されるまで、そのバックエンドの `close()` は呼ばれない。 -/
theorem leases_safe (options : TenantCacheRegistryOptions) (now : ℤ) (signals : List Signal) :
    let w := run Loop.step (.start options now) signals
    (∀ (c : CallId) ref (id : EntryId), w.registry.calls[c]? = some (.acquire ref (.leased id)) →
      ∃ entry, w.registry.backends[id]? = some entry ∧
        ∀ x, ∃ entry', (w.step x).registry.backends[id]? = some entry' ∧ entry'.closeCalls = entry.closeCalls) ∧
      ∀ entry ∈ w.registry.backends, entry.closeCalls ≤ 1 := by
  intro w
  have hinv : LoopInv options w := .reached
  refine ⟨fun c ref id hc => ?_, fun entry hmem => closeCalls_le hinv.registry.leases hmem⟩
  obtain ⟨entry, he, -⟩ := hinv.registry.leases.held hinv.registry.entries (List.mem_of_getElem? hc) rfl
  exact ⟨entry, he, fun x => hinv.leased hc he⟩

def settled (c : CallId) (outcome : Outcome) : List Signal := [.settle c outcome, .microtask]

/-- 二度目の設定を読んだ 0 番の項目を、借り手を数える前に、1 番の空き作りが引退させる。 -/
def evictedBeforeCount : List Signal :=
  .host (.acquire "a") :: settled 0 .cleaned ++ settled 0 .cleaned ++ settled 0 (.config "1") ++ settled 0 .cleaned ++
    settled 0 (.backend true) ++ .host (.acquire "b") :: settled 1 .cleaned ++ settled 1 .cleaned ++
    [.settle 0 (.config "1"), .settle 1 (.config "1")] ++ List.replicate 7 .microtask

/-- `close()` を呼ぶ続きが先に並ぶので、`acquire` の返す前に一度呼ばれ、貸し出しの間は呼ばれない。 -/
theorem leases_safe_evicted :
    let w := run Loop.step (.start ⟨1, 1000⟩ 0) evictedBeforeCount
    w.registry.calls[0]? = some (.acquire "a" (.leased 0)) ∧ w.registry.backends.map TenantCacheEntry.closeCalls = [1] ∧
      ∃ entry, w.registry.backends[0]? = some entry ∧
        ∀ x, ∃ entry', (w.step x).registry.backends[0]? = some entry' ∧ entry'.closeCalls = entry.closeCalls :=
  ⟨by rfl, by decide, (leases_safe ⟨1, 1000⟩ 0 evictedBeforeCount).1 0 "a" 0 (by rfl)⟩

/-! ## 枠 -/

def lendInTurn : List Event :=
  [.acquire "a", .resume 0 .cleaned, .resume 0 .cleaned, .resume 0 (.config "1"), .resume 0 .cleaned, .resume 0 (.backend true),
    .resume 0 (.config "1"), .resume 0 .cleaned, .resume 0 .cleaned, .resume 0 .cleaned, .release 0,
    .acquire "b", .resume 1 .cleaned, .resume 1 .cleaned, .resume 1 (.config "1"), .callClose 0, .closeDone 0 true, .resume 1 .cleaned,
    .resume 1 .cleaned, .resume 1 (.backend true), .resume 1 (.config "1"), .resume 1 .cleaned, .resume 1 .cleaned, .resume 1 .cleaned]

/-- 作成を始めて片付け終えていないバックエンドは上限を超えず、`creating` は枠を予約している呼び出しの数である。 -/
theorem capacity_kept (options : TenantCacheRegistryOptions) (now : ℤ) (es : List Event) :
    (run step (.start options now) es).liveBackends ≤ options.maxTenants ∧
    (run step (.start options now) es).creating = (run step (.start options now) es).reservationHolders ∧
    ((∀ call ∈ (run step (.start options now) es).calls, call.inProgress = false) →
      (run step (.start options now) es).entries.length + (run step (.start options now) es).retired.length +
        (run step (.start options now) es).creating = (run step (.start options now) es).liveBackends) := by
  have hinv : RegistryInv options (run step (.start options now) es) := .reached
  refine ⟨?_, ?_, liveBackends_quiet hinv.counts⟩
  · have hle := liveBackends_le hinv.counts
    rwa [hinv.options] at hle
  · rw [reservationHolders_eq]
    exact hinv.counts.creating

theorem capacity_kept_in_turn : (run step (.start ⟨1, 1000⟩ 0) lendInTurn).entries.length +
    (run step (.start ⟨1, 1000⟩ 0) lendInTurn).retired.length + (run step (.start ⟨1, 1000⟩ 0) lendInTurn).creating =
      (run step (.start ⟨1, 1000⟩ 0) lendInTurn).liveBackends ∧ (run step (.start ⟨1, 1000⟩ 0) lendInTurn).liveBackends = 1 :=
  ⟨(capacity_kept ⟨1, 1000⟩ 0 lendInTurn).2.2 (by decide), by decide⟩

/-- どの走行でも、一つのテナントの錠の中にいるのは、放していない呼び出しのうち最初のものだけで、錠の表から項目が消えるのは、誰も待たないときで
ある。 -/
theorem tenant_lock_ordered (options : TenantCacheRegistryOptions) (now : ℤ) (es : List Event) :
    let s := run step (.start options now) es
    (∀ c c' ref, s.Inside c ref → s.Unreleased c' ref → c ≤ c') ∧ ∀ ref, s.tenantLocks.lookup ref = none ↔ ∀ c, ¬ s.Unreleased c ref := by
  intro s
  have hinv : RegistryInv options s := .reached
  have hlo := hinv.locks
  refine ⟨fun _ _ _ => hlo.first, fun ref => ⟨hlo.free ref, fun hno => ?_⟩⟩
  cases hlk : s.tenantLocks.lookup ref with
  | none => rfl
  | some l => exact absurd (hlo.last ref l hlk).1 (hno l)

/-- どの走行でも、数えた貸し出しは、それを持つ呼び出しの数であり、`close()` は高々一度で、引退した項目は表から引けない。 -/
theorem leases_counted (options : TenantCacheRegistryOptions) (now : ℤ) (es : List Event) :
    let s := run step (.start options now) es
    (∀ (id : EntryId) entry, s.backends[id]? = some entry → entry.leases = s.holders id ∧ entry.closeCalls ≤ 1) ∧
      ∀ ref id, (ref, id) ∈ s.entries → id ∉ s.retired := by
  intro s
  have hinv : RegistryInv options s := .reached
  refine ⟨fun id entry he => ⟨hinv.leases.leases id entry he, closeCalls_le hinv.leases (List.mem_of_getElem? he)⟩, fun ref id hmem hre => ?_⟩
  obtain ⟨ref', hvi⟩ := (hinv.entries.retired id).mp hre
  cases (hinv.entries.active ref id hmem).symm.trans hvi

end Supacloud.TenantCache
