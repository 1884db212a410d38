import Supacloud.Library.Process

/-!
# 途中で失敗しうる手続き

一段の効果は、果たされることも、果たされずに例外になることも、果たされたのに例外になることもある。
`Triple I A P m Q E` は、P から始めれば、許される応答（A）のどの段のあとでも I が成り立ち、
正常に終われば Q、例外なら E が成り立つことを表す。
-/

namespace Supacloud.Library

open Proc.Safe

variable {Ω σ ε ε' α β : Type} {m x : ExceptT ε (Proc Ω σ) α}

inductive Outcome (ε : Type) where
  | done
  | failed (error : ε)
  | lost (error : ε)

def Outcome.map (f : ε → ε') : Outcome ε → Outcome ε'
  | .done => .done
  | .failed error => .failed (f error)
  | .lost error => .lost (f error)

def Outcome.perform (act : σ → Except ε (α × σ)) (outcome : Outcome ε) (s : σ) : Except ε α × σ :=
  match outcome with
  | .failed error => (.error error, s)
  | .done =>
    match act s with
    | .ok (a, s') => (.ok a, s')
    | .error error => (.error error, s)
  | .lost error =>
    match act s with
    | .ok (_, s') => (.error error, s')
    | .error error => (.error error, s)

def await (choose : Ω → Outcome ε) (act : Ω → σ → Except ε (α × σ)) : ExceptT ε (Proc Ω σ) α :=
  ExceptT.mk (Proc.atomic fun ω s => (choose ω).perform (act ω) s)

/-- 例外の型を変えてよい `try`。 -/
def handle (x : ExceptT ε (Proc Ω σ) α) (f : ε → ExceptT ε' (Proc Ω σ) α) : ExceptT ε' (Proc Ω σ) α :=
  ExceptT.mk (x.run.bind fun
    | .ok a => .ret (.ok a)
    | .error e => (f e).run)

def Proc.exec : Proc Ω σ α → List Ω → σ → σ
  | .ret _, _, s => s
  | .act _ _, [], s => s
  | .act next cont, ω :: ωs, s => (cont ω s).exec ωs (next ω s)

def Proc.result : Proc Ω σ α → List Ω → σ → Option (α × σ)
  | .ret a, _, s => some (a, s)
  | .act _ _, [], _ => none
  | .act next cont, ω :: ωs, s => (cont ω s).result ωs (next ω s)

structure Triple (I : σ → Prop) (A : Ω → Prop) (P : σ → Prop) (m : ExceptT ε (Proc Ω σ) α) (Q : α → σ → Prop) (E : ε → σ → Prop) :
    Prop where
  safe : ∀ s, I s → P s → m.run.Safe I (· = ·) (fun _ _ => True) (fun ω _ => A ω) (Proc.Post Q E) s

namespace Triple

variable {I P : σ → Prop} {A : Ω → Prop} {Q : α → σ → Prop} {Q' : β → σ → Prop} {E : ε → σ → Prop} {E' : ε' → σ → Prop}

theorem pure (a) (h : ∀ s, I s → P s → Q a s) : Triple I A P (pure a) Q E := by
  refine ⟨fun s hi hp s' _ heq => ?_⟩
  cases heq
  exact h s hi hp

theorem throw (e) (h : ∀ s, I s → P s → E e s) : Triple I A P (throw e) Q E := by
  refine ⟨fun s hi hp s' _ heq => ?_⟩
  cases heq
  exact h s hi hp

theorem bind {f} (hx : Triple I A P x Q E) (hf : ∀ a, Triple I A (Q a) (f a) Q' E) : Triple I A P (x >>= f) Q' E := by
  refine ⟨fun s hi hp => ?_⟩
  refine exceptBind (fun _ => rfl) ?_ (hx.safe s hi hp) fun a s' hi' hq => (hf a).safe s' hi' hq
  rintro e s s' - rfl he
  exact he

theorem handle {f} (hx : Triple I A P x Q E) (hf : ∀ e, Triple I A (E e) (f e) Q E') : Triple I A P (handle x f) Q E' := by
  refine ⟨fun s hi hp => ?_⟩
  refine Proc.Safe.bind (fun _ => rfl) (hx.safe s hi hp) fun r s' hi' hr => ?_
  cases r with
  | ok a =>
    rintro s'' - rfl
    exact hr
  | error e => exact (hf e).safe s' hi' hr

theorem tryCatch {f E'} (hx : Triple I A P x Q E) (hf : ∀ e, Triple I A (E e) (f e) Q E') : Triple I A P (tryCatch x f) Q E' := by
  refine ⟨fun s hi hp => ?_⟩
  refine exceptTry (fun _ => rfl) ?_ (hx.safe s hi hp) fun e s' hi' he => (hf e).safe s' hi' he
  rintro a s s' - rfl hq
  exact hq

theorem awaitCases {choose act}
    (hact : ∀ s ω a s', I s → P s → A ω → act ω s = .ok (a, s') → I s' ∧ Q a s' ∧ ∀ e, choose ω = .lost e → E e s')
    (hfa : ∀ s ω e, I s → P s → A ω → choose ω = .failed e → E e s)
    (her : ∀ s ω e, I s → P s → A ω → act ω s = .error e → E e s) : Triple I A P (await choose act) Q E := by
  refine ⟨fun s hi hp => atomic fun s' hi' heq ω hω => ?_⟩
  cases heq
  cases hch : choose ω with
  | failed error => exact ⟨hi, trivial, fun s'' _ heq => heq ▸ hfa s ω error hi hp hω hch⟩
  | done =>
    cases hrun : act ω s with
    | error error =>
      simp only [Outcome.perform, hrun]
      exact ⟨hi, trivial, fun s'' _ heq => heq ▸ her s ω error hi hp hω hrun⟩
    | ok r =>
      obtain ⟨a, s'⟩ := r
      obtain ⟨hi', hq, -⟩ := hact s ω a s' hi hp hω hrun
      simp only [Outcome.perform, hrun]
      exact ⟨hi', trivial, fun s'' _ heq => heq ▸ hq⟩
  | lost error =>
    cases hrun : act ω s with
    | error error' =>
      simp only [Outcome.perform, hrun]
      exact ⟨hi, trivial, fun s'' _ heq => heq ▸ her s ω error' hi hp hω hrun⟩
    | ok r =>
      obtain ⟨a, s'⟩ := r
      obtain ⟨hi', -, he⟩ := hact s ω a s' hi hp hω hrun
      simp only [Outcome.perform, hrun]
      exact ⟨hi', trivial, fun s'' _ heq => heq ▸ he error hch⟩

theorem await {choose act} (hact : ∀ s ω a s', I s → P s → A ω → act ω s = .ok (a, s') → I s' ∧ Q a s' ∧ ∀ e, choose ω = .lost e → E e s')
    (her : ∀ s e, I s → P s → E e s) : Triple I A P (await choose act) Q E :=
  awaitCases hact (fun s _ e hi hp _ _ => her s e hi hp) fun s _ e hi hp _ _ => her s e hi hp

theorem conseq {P' Q' E'} (h : Triple I A P' m Q' E')
    (hP : ∀ s, I s → P s → P' s) (hQ : ∀ a s, I s → Q' a s → Q a s) (hE : ∀ e s, I s → E' e s → E e s) : Triple I A P m Q E := by
  refine ⟨fun s hi hp => ?_⟩
  refine mono (h.safe s hi (hP s hi hp)) fun r s' hi' hr => ?_
  cases r with
  | ok a => exact hQ a s' hi' hr
  | error e => exact hE e s' hi' hr

theorem pre {P'} (h : Triple I A P' m Q E) (hP : ∀ s, I s → P s → P' s) : Triple I A P m Q E :=
  h.conseq hP (fun _ _ _ hq => hq) fun _ _ _ he => he

theorem post {Q'} (h : Triple I A P m Q' E) (hQ : ∀ a s, I s → Q' a s → Q a s) : Triple I A P m Q E :=
  h.conseq (fun _ _ hp => hp) hQ fun _ _ _ he => he

theorem raise {E'} (h : Triple I A P m Q E') (hE : ∀ e s, I s → E' e s → E e s) : Triple I A P m Q E :=
  h.conseq (fun _ _ hp => hp) (fun _ _ _ hq => hq) hE

theorem given {c} (h : c → Triple I A P m Q E) : Triple I A (fun s => c ∧ P s) m Q E :=
  ⟨fun s hi hp => (h hp.1).safe s hi hp.2⟩

theorem attempt {a} (h : Triple I A P m Q (fun _ s => Q a s)) : Triple I A P (MonadExcept.tryCatch m fun _ => Pure.pure a) Q E :=
  h.tryCatch fun _ => Triple.pure a fun _ _ hq => hq

theorem or {P'} (h : Triple I A P m Q E) (h' : Triple I A P' m Q E) : Triple I A (fun s => P s ∨ P' s) m Q E := by
  refine ⟨fun s hi hp => ?_⟩
  rcases hp with hp | hp
  · exact h.safe s hi hp
  · exact h'.safe s hi hp

theorem exec (h : Triple I A P m Q E) {s} (hi : I s) (hp : P s) (ωs) (hA : ∀ ω ∈ ωs, A ω) : I (m.run.exec ωs s) := by
  have hsa := h.safe s hi hp
  generalize hm : m.run = p at hsa
  clear hm h hp
  induction p generalizing ωs s with
  | ret r => exact hi
  | act next cont ih =>
    cases ωs with
    | nil => exact hi
    | cons ω ωs =>
      obtain ⟨hi', -, hco⟩ := hsa s hi rfl ω (hA ω List.mem_cons_self)
      exact ih ω s hi' ωs (fun ω' hω' => hA ω' (List.mem_cons_of_mem _ hω')) hco

theorem result (h : Triple I A P m Q E) {s s'} (hi : I s) (hp : P s) (ωs)
    (hA : ∀ ω ∈ ωs, A ω) {r} (hr : m.run.result ωs s = some (r, s')) : I s' ∧ Proc.Post Q E r s' := by
  have hsa := h.safe s hi hp
  generalize hm : m.run = p at hsa hr
  clear hm h hp
  induction p generalizing ωs s with
  | ret r' =>
    simp only [Proc.result, Option.some.injEq, Prod.mk.injEq] at hr
    obtain ⟨rfl, rfl⟩ := hr
    exact ⟨hi, hsa _ hi rfl⟩
  | act next cont ih =>
    cases ωs with
    | nil => cases hr
    | cons ω ωs =>
      obtain ⟨hi', -, hco⟩ := hsa s hi rfl ω (hA ω List.mem_cons_self)
      exact ih ω s hi' ωs (fun ω' hω' => hA ω' (List.mem_cons_of_mem _ hω')) hco hr

end Triple

end Supacloud.Library
