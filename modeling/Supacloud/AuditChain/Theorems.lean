import Supacloud.AuditChain.Lemmas.Chain

/-! # 監査の鎖の健全さ -/

namespace Supacloud.AuditChain

open Library List

open Contracts (JsString)

open Vectors (js)

theorem audit_verified (platform : Platform) (hplatform : platform.Lawful) (projectRef : ProjectRef) (events : List Event)
    (h : Along (step platform) (Appends platform projectRef) .empty events) :
    (verifyProjectAuditIntegrity platform (run (step platform) .empty events) projectRef).status = .verified :=
  verify_linked (linked_run hplatform h)

/-! ## 結合文字の鍵 -/

mutual
def spell : Json → JsString
  | .null => js "null"
  | .boolean b => js (if b then "true" else "false")
  | .number n => js (toString n)
  | .string s => 34 :: s ++ [34]
  | .array items => 91 :: spellItems items ++ [93]
  | .object entries => 123 :: spellEntries entries ++ [125]

def spellItems : List Json → JsString
  | [] => []
  | item :: items => spell item ++ 44 :: spellItems items

def spellEntries : List (JsString × Json) → JsString
  | [] => []
  | (key, value) :: entries => 34 :: key ++ 34 :: 58 :: spell value ++ 44 :: spellEntries entries
end

def decompose (key : JsString) : JsString := key.flatMap fun unit => if unit = 233 then [101, 769] else [unit]

def samplePlatform : Platform where
  localeCompare a b := if decompose a < decompose b then -1 else if decompose b < decompose a then 1 else 0
  toLowerCase := id
  redactAuditText := id
  toISOString _ := js "2026-01-01T00:00:00.000Z"
  sha256 value := 35 :: spell value

theorem samplePlatform_le {a b} : samplePlatform.localeCompare a b ≤ 0 ↔ ¬ decompose b < decompose a := by
  rw [samplePlatform]
  dsimp only
  split
  · rename_i hlt
    exact iff_of_true (by decide) (List.lt_asymm hlt)
  · grind

theorem samplePlatform_lawful : samplePlatform.Lawful where
  total a b := by
    rw [samplePlatform_le, samplePlatform_le, ← not_and_or]
    rintro ⟨hba, hab⟩
    exact List.lt_asymm hba hab
  trans a b c hab hbc := by
    rw [samplePlatform_le] at *
    exact List.le_trans hab hbc
  sha256_ne_nil _ := cons_ne_nil _ _

def sampleRef : ProjectRef := ⟨List.replicate 20 97, rfl, fun unit hunit => by rw [List.eq_of_mem_replicate hunit]; decide⟩

def sampleEvent (id : JsString) (metadata : Metadata) : Event where
  input :=
    { projectRef := some sampleRef, actor := js "admin", actorType := js "user", action := js "project.update", method := js "POST"
      path := js "/", status := some 200, requestId := js "request", metadata := some metadata, source := none }
  id
  createdAt := 0
  commit := true

def asciiMetadata : Metadata := ⟨[(js "zone", .number 1), (js "a", .number 2)], by decide, trivial, trivial, trivial⟩

def accentedMetadata : Metadata := ⟨[([101, 769], .number 1), ([233], .number 2)], by decide, trivial, trivial, trivial⟩

theorem faithful_sample (id metadata) (h : Ordered samplePlatform (.object metadata.entries)) :
    (sampleEvent id metadata).input.Faithful samplePlatform where
  actor := kept_of_store rfl
  actorType := kept_of_store rfl
  action := kept_of_store rfl
  method := kept_of_store rfl
  path := kept_of_store rfl
  requestId := kept_of_store rfl
  source _ hso := nomatch hso
  metadata _ hme := Option.some.inj hme ▸ h

theorem ordered_ascii : Ordered samplePlatform (.object asciiMetadata.entries) := by
  refine ⟨?_, .inr (.inr trivial), .inr (.inr trivial), trivial⟩
  unfold Settled
  decide

def linkedEvents : List Event := [sampleEvent (js "first") asciiMetadata, sampleEvent (js "second") asciiMetadata]

theorem audit_verified_ascii :
    (verifyProjectAuditIntegrity samplePlatform (run (step samplePlatform) .empty linkedEvents) sampleRef).status = .verified :=
  audit_verified samplePlatform samplePlatform_lawful sampleRef linkedEvents
    ⟨fun _ _ => faithful_sample _ asciiMetadata ordered_ascii, fun _ _ => faithful_sample _ asciiMetadata ordered_ascii, trivial⟩

set_option maxRecDepth 4000 in
theorem audit_mismatch : samplePlatform.Lawful ∧ isJsonb (.object accentedMetadata.entries) = true ∧
      (run (step samplePlatform) .empty [sampleEvent (js "event") accentedMetadata]).rows.length = 1 ∧
      (verifyProjectAuditIntegrity samplePlatform (run (step samplePlatform) .empty [sampleEvent (js "event") accentedMetadata]) sampleRef).status =
        .mismatch :=
  ⟨samplePlatform_lawful, by decide, by decide, by decide⟩

/-! ## 改竄の検出 -/

/-- 要約が衝突しないなら、検査を通る列は、追記が作った鎖に、順に一致する。 -/
theorem tamper_evident (platform : Platform) (hfree : platform.CollisionFree) (key : JsString) (events : List Event) (rows : List AuditChainRow)
    (h : (verifyAuditChain platform rows ((run (step platform) .empty events).checkpoint key)).status = .verified) :
    List.Forall₂ (Agrees platform) (rows.insertionSort bySequence) (producedRows platform key .empty events) := by
  obtain ⟨hli, hch⟩ := verified_inv h
  have hem : Produced platform key [] (World.empty.checkpoint key) := produced_empty
  have hrun : Produced platform key ([] ++ producedRows platform key .empty events)
      ((run (step platform) .empty events).checkpoint key) := produced_run hem
  obtain ⟨hpr, hhe⟩ := hrun
  rw [nil_append] at hpr hhe
  obtain ⟨hle, hla⟩ := ends_of_checkpoint hhe hch
  exact agrees_of_linking hfree hli hpr hle hla

def codeNat (n : Nat) : JsString := List.replicate n 1 ++ [0]

def codeText : JsString → JsString
  | [] => [0]
  | unit :: units => 1 :: unit :: codeText units

mutual
def code : Json → JsString
  | .null => [0]
  | .boolean b => [1, if b then 1 else 0]
  | .number n => 2 :: codeNat n.num.toNat ++ codeNat (-n.num).toNat ++ codeNat n.den
  | .string s => 3 :: codeText s
  | .array items => 4 :: codeItems items
  | .object entries => 5 :: codeEntries entries

def codeItems : List Json → JsString
  | [] => [0]
  | item :: items => 1 :: code item ++ codeItems items

def codeEntries : List (JsString × Json) → JsString
  | [] => [0]
  | (key, value) :: entries => 1 :: codeText key ++ code value ++ codeEntries entries
end

theorem codeNat_inj {m n r s} (h : codeNat m ++ r = codeNat n ++ s) : m = n ∧ r = s := by
  induction m generalizing n with
  | zero =>
    cases n with
    | zero => simpa using h
    | succ n => simp [codeNat, replicate_succ] at h
  | succ m ih =>
    cases n with
    | zero => simp [codeNat, replicate_succ] at h
    | succ n =>
      have hre := ih (n := n) (by simpa [codeNat, replicate_succ] using h)
      exact ⟨congrArg Nat.succ hre.1, hre.2⟩

theorem codeText_inj : ∀ {a b r s}, codeText a ++ r = codeText b ++ s → a = b ∧ r = s
  | [], [], r, s, h => ⟨rfl, by simpa using h⟩
  | [], u :: b, r, s, h => by simp [codeText] at h
  | u :: a, [], r, s, h => by simp [codeText] at h
  | u :: a, v :: b, r, s, h => by
      simp only [codeText, cons_append, cons.injEq, true_and] at h
      obtain ⟨rfl, hre⟩ := codeText_inj h.2
      exact ⟨congrArg (· :: a) h.1, hre⟩

mutual
theorem code_inj : ∀ {a b r s}, code a ++ r = code b ++ s → a = b ∧ r = s
  | .null, b, r, s, h => by cases b <;> simp_all [code]
  | .boolean x, b, r, s, h => by
      cases b with
      | boolean y =>
        cases x <;> cases y <;> simp_all [code]
      | _ => simp [code] at h
  | .number m, b, r, s, h => by
      cases b with
      | number n =>
        simp only [code, cons_append, append_assoc, cons.injEq, true_and] at h
        obtain ⟨hpos, h⟩ := codeNat_inj h
        obtain ⟨hneg, h⟩ := codeNat_inj h
        obtain ⟨hden, h⟩ := codeNat_inj h
        exact ⟨congrArg _ (Rat.ext (by omega) hden), h⟩
      | _ => simp [code] at h
  | .string x, b, r, s, h => by
      cases b with
      | string y => grind [code, codeText_inj]
      | _ => simp [code] at h
  | .array items, b, r, s, h => by
      cases b with
      | array others =>
        simp only [code, cons_append, cons.injEq, true_and] at h
        exact ⟨congrArg _ (codeItems_inj h).1, (codeItems_inj h).2⟩
      | _ => simp [code] at h
  | .object entries, b, r, s, h => by
      cases b with
      | object others =>
        simp only [code, cons_append, cons.injEq, true_and] at h
        exact ⟨congrArg _ (codeEntries_inj h).1, (codeEntries_inj h).2⟩
      | _ => simp [code] at h

theorem codeItems_inj : ∀ {a b r s}, codeItems a ++ r = codeItems b ++ s → a = b ∧ r = s
  | [], [], r, s, h => ⟨rfl, by simpa using h⟩
  | [], _ :: _, r, s, h => by simp [codeItems] at h
  | _ :: _, [], r, s, h => by simp [codeItems] at h
  | x :: a, y :: b, r, s, h => by
      simp only [codeItems, cons_append, append_assoc, cons.injEq, true_and] at h
      obtain ⟨hit, h⟩ := code_inj h
      obtain ⟨hits, h⟩ := codeItems_inj h
      exact ⟨hit ▸ hits ▸ rfl, h⟩

theorem codeEntries_inj : ∀ {a b r s}, codeEntries a ++ r = codeEntries b ++ s → a = b ∧ r = s
  | [], [], r, s, h => ⟨rfl, by simpa using h⟩
  | [], (_, _) :: _, r, s, h => by simp [codeEntries] at h
  | (_, _) :: _, [], r, s, h => by simp [codeEntries] at h
  | (k, x) :: a, (l, y) :: b, r, s, h => by
      simp only [codeEntries, cons_append, append_assoc, cons.injEq, true_and] at h
      obtain ⟨hkey, h⟩ := codeText_inj h
      obtain ⟨hva, h⟩ := code_inj h
      obtain ⟨hens, h⟩ := codeEntries_inj h
      exact ⟨hkey ▸ hva ▸ hens ▸ rfl, h⟩
end

def sealedPlatform : Platform := { samplePlatform with sha256 := code }

theorem sealedPlatform_free : sealedPlatform.CollisionFree := by
  intro a b h
  exact (code_inj (congrArg (· ++ []) h)).1

def reorderedRows : List AuditChainRow := (run (step sealedPlatform) .empty linkedEvents).rows.reverse

set_option maxRecDepth 20000 in
theorem tamper_evident_sealed : reorderedRows.map AuditChainRow.id = [js "second", js "first"] ∧
      List.Forall₂ (Agrees sealedPlatform) (reorderedRows.insertionSort bySequence)
        (producedRows sealedPlatform sampleRef.value .empty linkedEvents) :=
  ⟨by decide, tamper_evident sealedPlatform sealedPlatform_free sampleRef.value linkedEvents reorderedRows (by decide)⟩

end Supacloud.AuditChain
