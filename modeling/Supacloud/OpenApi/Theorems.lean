import Supacloud.OpenApi.Compare

namespace Supacloud.OpenApi

open Contracts (CommandJson JsString)
open Vectors (js)
open SchemaDirection (compareSchema)

inductive Ends (d e : CommandJson) : CommandJson → CommandJson → Prop
  | step {a b} (h : ∀ base current, resolveSchema d [] a = some base →
      resolveSchema e [] b = some current → ∀ x ∈ sharedProperties base current, ∀ value, x.current = some value →
      Ends d e x.base value) : Ends d e a b

variable {d e a b : CommandJson} {direction : SchemaDirection} {path : JsString} {changes : Changes}
  {seen seen' : Seen} {s s' : Changes × Seen} {properties : List Property}

/-! ## 終わる道では値を返す -/

theorem foldlM_returns {f : Changes × Seen → Property → Option (Changes × Seen)}
    {g : Changes × Seen → Changes × Seen} (h : ∀ x ∈ properties, ∀ s, ∃ s', f s x = some s') :
    ∃ s', (properties.foldlM f s >>= fun s => some (g s)) = some s' := by
  induction properties generalizing s with
  | nil => exact ⟨g s, rfl⟩
  | cons x properties ih =>
    obtain ⟨s₁, h₁⟩ := h x (by simp) s
    rw [List.foldlM_cons, h₁]
    exact ih fun x hx => h x (List.mem_cons_of_mem _ hx)

theorem Ends.returns (h : Ends d e a b) : ∃ s', compareSchema d e direction a b path changes seen = some s' := by
  induction h generalizing path changes seen with
  | step h ih =>
    rw [compareSchema]
    split
    · rename_i base current hba hcu
      split
      · exact ⟨_, rfl⟩
      · refine foldlM_returns fun x hx s => ?_
        cases hva : x.current with
        | none => exact ⟨_, rfl⟩
        | some value => exact ih base current hba hcu x hx value hva
    · exact ⟨_, rfl⟩

/-! ## 値を返せば、道は終わる -/

def Known (d e : CommandJson) (x : JsString × OpenApiObject × OpenApiObject) : Prop :=
  ∀ y ∈ sharedProperties x.2.1 x.2.2, ∀ value, y.current = some value → Ends d e y.base value

/-- 位置 `path` の比較は、祖先の組は短い位置にあり、ほかの組から先の道は終わる、という `seen` から始まり、終われば、加わった
組から先の道も終わる。 -/
def Explores (d e a b : CommandJson) (path : JsString) (seen seen' : Seen) : Prop :=
  (∀ x ∈ seen, x.1.length < path.length ∨ Known d e x) → (∀ x ∈ seen', x ∈ seen ∨ Known d e x) ∧ Ends d e a b

theorem explores_loop {base} {f : CommandJson → CommandJson → JsString → Changes → Seen → Option (Changes × Seen)}
    (hf : ∀ a b path changes seen s, f a b path changes seen = some s → Explores d e a b path seen s.2)
    (hlo : properties.foldlM (fun s x =>
      match x.current with
      | none => some (removeProperty direction (childPath path x.name) base s.1, s.2)
      | some value => f x.base value (childPath path x.name) s.1 s.2) s = some s')
    (hse : ∀ x ∈ s.2, x.1.length ≤ path.length ∨ Known d e x) :
    (∀ x ∈ s'.2, x ∈ s.2 ∨ Known d e x) ∧ ∀ y ∈ properties, ∀ value, y.current = some value → Ends d e y.base value := by
  induction properties generalizing s with
  | nil =>
    cases hlo
    exact ⟨fun x hx => .inl hx, nofun⟩
  | cons y properties ih =>
    rw [List.foldlM_cons] at hlo
    obtain ⟨s₁, h₁, hlo⟩ := Option.bind_eq_some_iff.mp hlo
    obtain ⟨hs₁, hhe⟩ : (∀ x ∈ s₁.2, x ∈ s.2 ∨ Known d e x) ∧ ∀ value, y.current = some value → Ends d e y.base value := by
      cases hva : y.current with
      | none =>
        rw [hva] at h₁
        cases h₁
        exact ⟨fun x hx => .inl hx, nofun⟩
      | some value =>
        rw [hva] at h₁
        have hlt : path.length < (childPath path y.name).length := by simp [childPath, js]
        obtain ⟨hs₁, hen⟩ := hf _ _ _ _ _ _ h₁ fun x hx => (hse x hx).imp_left fun hle => Nat.lt_of_le_of_lt hle hlt
        exact ⟨hs₁, fun _ heq => Option.some.inj heq ▸ hen⟩
    obtain ⟨hs', hta⟩ := ih hlo fun x hx => (hs₁ x hx).elim (hse x) .inr
    exact ⟨fun x hx => (hs' x hx).elim (hs₁ x) .inr, List.forall_mem_cons.mpr ⟨hhe, hta⟩⟩

theorem compareSchema_explores (h : compareSchema d e direction a b path changes seen = some s) : Explores d e a b path seen s.2 := by
  refine SchemaDirection.compareSchema.partial_correctness d e direction (fun a b path _ seen s => Explores d e a b path seen s.2)
    (fun f hf a b path changes seen s h hse => ?_) a b path changes seen s h
  split at h
  · rename_i base current hba hcu
    have hends (hk : Known d e (path, base, current)) : Ends d e a b :=
      .step fun base' current' hb hc => by
        cases hba.symm.trans hb
        cases hcu.symm.trans hc
        exact hk
    split at h
    · rename_i hin
      cases h
      exact ⟨fun x hx => .inl hx, hends ((hse _ hin).resolve_left (Nat.lt_irrefl _))⟩
    · obtain ⟨s₁, hlo, h⟩ := Option.bind_eq_some_iff.mp h
      cases h
      obtain ⟨hs₁, hk⟩ := explores_loop hf hlo
        (List.forall_mem_cons.mpr ⟨.inl (Nat.le_refl _), fun x hx => (hse x hx).imp_left Nat.le_of_lt⟩)
      refine ⟨fun x hx => (hs₁ x hx).elim (fun hx => ?_) .inr, hends hk⟩
      rcases List.mem_cons.mp hx with rfl | hx
      · exact .inr hk
      · exact .inl hx
  · rename_i hno
    cases h
    exact ⟨fun x hx => .inl hx, .step fun base current hb hc => (hno base current hb hc).elim⟩

/-- 比較が終わるのは、参照を解きながら両方にある項目をたどる道が、どれも終わるときで、そのときに限る。 -/
theorem compareSchema_returns (baseDocument currentDocument : CommandJson) (direction : SchemaDirection)
    (a b : CommandJson) (path : JsString) (changes : Changes) :
    (∃ s, compareSchema baseDocument currentDocument direction a b path changes [] = some s) ↔ Ends baseDocument currentDocument a b :=
  ⟨fun ⟨_, h⟩ => (compareSchema_explores h nofun).2, Ends.returns⟩

def nodeRef : CommandJson := .object [(js "$ref", .string (js "#/components/schemas/Node"))]

def nodeSchema : OpenApiObject := [(js "type", .string (js "object")), (js "properties", .object [(js "next", nodeRef)])]

def nodeDocument : CommandJson :=
  .object [(js "openapi", .string (js "3.1.0")), (js "info", .object []),
    (js "paths", .object [(js "/nodes", .object [(js "get", .object [(js "responses", .object [(js "200", .object
      [(js "content", .object [(js "application/json", .object [(js "schema", nodeRef)])])])])])])]),
    (js "components", .object [(js "schemas", .object [(js "Node", .object nodeSchema)])])]

theorem nodeRef_endless {a b} (h : Ends nodeDocument nodeDocument a b) (ha : a = nodeRef) (hb : b = nodeRef) : False := by
  induction h with
  | step h ih =>
    subst ha hb
    have hre : resolveSchema nodeDocument [] nodeRef = some nodeSchema := by decide +kernel
    have hpr : sharedProperties nodeSchema nodeSchema = [⟨js "next", nodeRef, some nodeRef⟩] := by decide +kernel
    exact ih _ _ hre hre _ (hpr ▸ List.mem_singleton_self _) nodeRef rfl rfl rfl

/-- 応答のスキーマが自分を指すと、比較は終わらない。 -/
theorem compareSchema_diverges : ¬ ∃ s, compareSchema nodeDocument nodeDocument .output nodeRef nodeRef
    (js "paths./nodes.get.responses.200.content.application/json.schema") [] [] = some s :=
  fun ⟨_, h⟩ => nodeRef_endless (compareSchema_explores h nofun).2 rfl rfl

end Supacloud.OpenApi
