import Mathlib.Logic.Function.Basic
import Mathlib.Data.Nat.Find

/-!
# 再開できる計算と、並行する計算の依存・保証の論理

`Proc` は、共有の状態 σ の上で、一段ずつ環境の応答 Ω を受けて不可分に進む計算である。`Proc.Safe` は、
ほかの計算が関係 R に従うかぎり、各段が不変条件 I と関係 G を守り、終わりに Q が成り立つことを表す。
-/

namespace Supacloud.Library

open List

/-- 再開できる計算。`act` は、環境の応答と状態から、次の状態と残りの計算を決める一段である。 -/
inductive Proc (Ω σ α : Type) where
  | ret (a : α) : Proc Ω σ α
  | act (next : Ω → σ → σ) (cont : Ω → σ → Proc Ω σ α) : Proc Ω σ α

namespace Proc

variable {Ω σ α β : Type}

def bind : Proc Ω σ α → (α → Proc Ω σ β) → Proc Ω σ β
  | .ret a, f => f a
  | .act next cont, f => .act next (fun ω s => (cont ω s).bind f)

instance : Monad (Proc Ω σ) where
  pure := .ret
  bind := bind

def atomic (f : Ω → σ → α × σ) : Proc Ω σ α :=
  .act (fun ω s => (f ω s).2) (fun ω s => .ret (f ω s).1)

/-! ## 依存・保証の条件 -/

/-- 状態 s から計算を続けるとき、ほかの計算の段（R）がどう入っても、その状態で許される応答（A）での各段は I と G を守り、
終わりでは Q が成り立つ。 -/
def Safe (I : σ → Prop) (R G : σ → σ → Prop) (A : Ω → σ → Prop) (Q : α → σ → Prop) :
    Proc Ω σ α → σ → Prop
  | .ret a, s => ∀ s', I s' → R s s' → Q a s'
  | .act next cont, s => ∀ s', I s' → R s s' → ∀ ω, A ω s' → I (next ω s') ∧ G s' (next ω s') ∧ Safe I R G A Q (cont ω s') (next ω s')

section Safe

variable {I : σ → Prop} {R G : σ → σ → Prop} {A : Ω → σ → Prop} {Q : α → σ → Prop}

theorem Safe.rely (htrs : ∀ a b c, R a b → R b c → R a c) {p s s'} (h : Safe I R G A Q p s) (hr : R s s') : Safe I R G A Q p s' := by
  cases p with
  | ret a | act next cont => exact fun s'' hi h' => h s'' hi (htrs _ _ _ hr h')

theorem Safe.of_rely (hre : ∀ a, R a a) {p s} (h : ∀ s', I s' → R s s' → Safe I R G A Q p s') : Safe I R G A Q p s := by
  cases p with
  | ret a | act next cont => exact fun s' hi hr => h s' hi hr s' hi (hre _)

theorem Safe.ret {a s} (h : ∀ s', I s' → R s s' → Q a s') : Safe I R G A Q (.ret a) s := h

theorem Safe.bind (hre : ∀ a, R a a) {Q'} {f : α → Proc Ω σ β} {p s} (h : Safe I R G A Q p s)
    (hf : ∀ a s', I s' → Q a s' → Safe I R G A Q' (f a) s') : Safe I R G A Q' (p.bind f) s := by
  induction p generalizing s with
  | ret a => exact Safe.of_rely hre fun s' hi hr => hf a s' hi (h s' hi hr)
  | act next cont ih =>
    intro s' hi hr ω hω
    obtain ⟨hI, hG, hS⟩ := h s' hi hr ω hω
    exact ⟨hI, hG, ih ω s' hS⟩

theorem Safe.mono {Q' p s} (h : Safe I R G A Q p s) (hQ : ∀ a s', I s' → Q a s' → Q' a s') : Safe I R G A Q' p s := by
  induction p generalizing s with
  | ret a => exact fun s' hi hr => hQ a s' hi (h s' hi hr)
  | act next cont ih =>
    intro s' hi hr ω hω
    obtain ⟨hI, hG, hS⟩ := h s' hi hr ω hω
    exact ⟨hI, hG, ih ω s' hS⟩

/-- ほかの計算も崩さない性質 J が成り立つあいだは、A より緩い応答だけを許せばよい。 -/
theorem Safe.restrict {J : σ → Prop} {B} (hJ : ∀ s s', G s s' → J s → J s') (hB : ∀ ω s, J s → B ω s → A ω s) {p s}
    (h : Safe I R G A Q p s) : Safe (fun s => I s ∧ J s) R G B Q p s := by
  induction p generalizing s with
  | ret a => exact fun s' hi hr => h s' hi.1 hr
  | act next cont ih =>
    intro s' hi hr ω hω
    obtain ⟨hI, hG, hS⟩ := h s' hi.1 hr ω (hB ω s' hi.2 hω)
    exact ⟨⟨hI, hJ s' _ hG hi.2⟩, hG, ih ω s' hS⟩

theorem Safe.weaken {A' p s} (h : Safe I R G A Q p s) (hA : ∀ ω s, A' ω s → A ω s) : Safe I R G A' Q p s := by
  induction p generalizing s with
  | ret a => exact h
  | act next cont ih =>
    intro s' hi hr ω hω
    obtain ⟨hI, hG, hS⟩ := h s' hi hr ω (hA ω s' hω)
    exact ⟨hI, hG, ih ω s' hS⟩

/-- 一段で終わる計算は、その一段だけを調べればよい。結果の性質は、後に入る段で崩れないものを選ぶ。 -/
theorem Safe.atomic {f s} (h : ∀ s', I s' → R s s' → ∀ ω, A ω s' → I (f ω s').2 ∧ G s' (f ω s').2 ∧
      ∀ s'', I s'' → R (f ω s').2 s'' → Q (f ω s').1 s'') : Safe I R G A Q (Proc.atomic f) s := h

end Safe

/-! ## 例外を投げうる計算 -/

section Except

variable {ε : Type} {R G : σ → σ → Prop} {Q : α → σ → Prop} {E E' : ε → σ → Prop}

def Post (Q : α → σ → Prop) (E : ε → σ → Prop) : Except ε α → σ → Prop
  | .ok a, s => Q a s
  | .error e, s => E e s

theorem Safe.exceptPure {I A a s} (h : ∀ s', I s' → R s s' → Q a s') :
    Safe I R G A (Post Q E) (pure a : ExceptT ε (Proc Ω σ) α).run s := h

theorem Safe.exceptThrow {I A e s} (h : ∀ s', I s' → R s s' → E e s') :
    Safe I R G A (Post Q E) (throw e : ExceptT ε (Proc Ω σ) α).run s := h

theorem Safe.exceptBind {I A Q'} (hre : ∀ a, R a a) (hE : ∀ e s s', I s' → R s s' → E e s → E e s')
    {x} {f : α → ExceptT ε (Proc Ω σ) β} {s} (h : Safe I R G A (Post Q E) x.run s)
    (hf : ∀ a s', I s' → Q a s' → Safe I R G A (Post Q' E) (f a).run s') : Safe I R G A (Post Q' E) (x >>= f).run s := by
  refine Safe.bind hre h fun r s' hi hr => ?_
  cases r with
  | ok a => exact hf a s' hi hr
  | error e => exact fun s'' hi' hr' => hE e s' s'' hi' hr' hr

theorem Safe.exceptTry {I A} (hre : ∀ a, R a a) (hQ : ∀ a s s', I s' → R s s' → Q a s → Q a s') {x} {f : ε → ExceptT ε (Proc Ω σ) α} {s}
    (h : Safe I R G A (Post Q E') x.run s) (hf : ∀ e s', I s' → E' e s' → Safe I R G A (Post Q E) (f e).run s') :
    Safe I R G A (Post Q E) (tryCatch x f).run s := by
  refine Safe.bind hre h fun r s' hi hr => ?_
  cases r with
  | ok a => exact fun s'' hi' hr' => hQ a s' s'' hi' hr' hr
  | error e => exact hf e s' hi hr

theorem Safe.exceptLift {I A p s} (hre : ∀ a, R a a) (hQ : ∀ a s s', I s' → R s s' → Q a s → Q a s') (h : Safe I R G A Q p s) :
    Safe I R G A (Post Q E) (ExceptT.lift p : ExceptT ε (Proc Ω σ) α).run s :=
  Safe.bind hre h fun a s' _ hq s'' hi hr => hQ a s' s'' hi hr hq

end Except

/-! ## 段ごとの状態だけによる条件 -/

section Yields

variable {ε : Type} {I : σ → Prop} {A : Ω → Prop} {Q : α → Prop} {Q' : β → Prop}

/-- どの段も、I を満たす状態と許される応答（A）で行うかぎり、終わりの結果は Q を満たす。I を保つことは求めない。 -/
def Yields (I : σ → Prop) (A : Ω → Prop) (Q : α → Prop) : Proc Ω σ α → Prop
  | .ret a => Q a
  | .act _ cont => ∀ s, I s → ∀ ω, A ω → Yields I A Q (cont ω s)

theorem Yields.bind {f p} (h : Yields I A Q p) (hf : ∀ a, Q a → Yields I A Q' (f a)) : Yields I A Q' (p.bind f) := by
  induction p with
  | ret a => exact hf a h
  | act next cont ih => exact fun s hs ω hω => ih ω s (h s hs ω hω)

theorem Yields.mono {Q'' p} (h : Yields I A Q p) (hQ : ∀ a, Q a → Q'' a) : Yields I A Q'' p := by
  induction p with
  | ret a => exact hQ a h
  | act next cont ih => exact fun s hs ω hω => ih ω s (h s hs ω hω)

theorem Yields.atomic {f} (h : ∀ s, I s → ∀ ω, A ω → Q (f ω s).1) : Yields I A Q (Proc.atomic f) := h

def Result (Q : α → Prop) (E : ε → Prop) : Except ε α → Prop
  | .ok a => Q a
  | .error e => E e

theorem Yields.exceptBind {E x} {f : α → ExceptT ε (Proc Ω σ) β}
    (h : Yields I A (Result Q E) x.run) (hf : ∀ a, Q a → Yields I A (Result Q' E) (f a).run) :
    Yields I A (Result Q' E) (x >>= f).run := by
  refine Yields.bind h fun r hr => ?_
  cases r with
  | ok a => exact hf a hr
  | error e => exact hr

theorem Yields.exceptTry {E E' x} {f : ε → ExceptT ε (Proc Ω σ) α}
    (h : Yields I A (Result Q E') x.run) (hf : ∀ e, E' e → Yields I A (Result Q E) (f e).run) :
    Yields I A (Result Q E) (tryCatch x f).run := by
  refine Yields.bind h fun r hr => ?_
  cases r with
  | ok a => exact hr
  | error e => exact hf e hr

theorem Yields.exceptLift {E p} (h : Yields I A Q p) : Yields I A (Result Q E) (ExceptT.lift p : ExceptT ε (Proc Ω σ) α).run :=
  Yields.bind h fun _ hq => hq

end Yields

end Proc

/-! ## 計算の集まりと予定 -/

structure Config (ι Ω σ α : Type) where
  world : σ
  proc : ι → Proc Ω σ α

namespace Config

variable {ι Ω σ α : Type} [DecidableEq ι]

def step (c : Config ι Ω σ α) (i : ι) (ω : Ω) : Config ι Ω σ α :=
  match c.proc i with
  | .ret _ => c
  | .act next cont =>
    { world := next ω c.world, proc := Function.update c.proc i (cont ω c.world) }

def run (c : Config ι Ω σ α) : List (ι × Ω) → Config ι Ω σ α
  | [] => c
  | (i, ω) :: rest => (c.step i ω).run rest

section

variable (c : Config ι Ω σ α)

include c

@[simp] theorem run_nil : c.run [] = c := rfl

@[simp] theorem run_cons (i ω rest) : c.run ((i, ω) :: rest) = (c.step i ω).run rest := rfl

theorem run_append (l₁ l₂) : c.run (l₁ ++ l₂) = (c.run l₁).run l₂ := by
  induction l₁ generalizing c with
  | nil => rfl
  | cons x xs ih => obtain ⟨i, ω⟩ := x; exact ih _

theorem run_proc_of_not_mem {i} (sched) (h : ∀ x ∈ sched, x.1 ≠ i) : (c.run sched).proc i = c.proc i := by
  induction sched generalizing c with
  | nil => rfl
  | cons x xs ih =>
    obtain ⟨j, ω⟩ := x
    rw [run_cons, ih _ (fun y hy => h y (by simp [hy]))]
    have hij : i ≠ j := Ne.symm (h (j, ω) (by simp))
    unfold step
    split
    · rfl
    · exact Function.update_of_ne hij _ _

/-- 限りなく選ばれる計算は、いつか終わる。計算の木についての帰納法による。 -/
theorem finishes (i f) (h : ∀ n, ∃ m, n ≤ m ∧ (f m).1 = i) : ∃ n a, (c.run ((range n).map f)).proc i = .ret a := by
  generalize hp : c.proc i = p
  induction p generalizing c f with
  | ret a => exact ⟨0, a, by simpa using hp⟩
  | act next cont ih =>
    classical
    -- 最初に i が選ばれるまで、i の計算は変わらない。
    have hex : ∃ m, (f m).1 = i := by
      obtain ⟨m, -, hm⟩ := h 0
      exact ⟨m, hm⟩
    have hm := Nat.find_spec hex
    have hbe : (c.run ((range (Nat.find hex)).map f)).proc i = .act next cont := by
      rw [run_proc_of_not_mem, hp]
      intro x hx
      simp only [mem_map, mem_range] at hx
      obtain ⟨k, hk, rfl⟩ := hx
      exact Nat.find_min hex hk
    generalize hmm : Nat.find hex = m at hm hbe
    obtain ⟨n, a, hn⟩ := ih (f m).2 (c.run ((range m).map f)).world
      ((c.run ((range m).map f)).step i (f m).2) (fun k => f (m + 1 + k))
      (fun n => by
        obtain ⟨k, hk, hki⟩ := h (m + 1 + n)
        exact ⟨k - (m + 1), by omega, by rw [show m + 1 + (k - (m + 1)) = k by omega]; exact hki⟩)
      (by simp [step, hbe])
    refine ⟨m + 1 + n, a, ?_⟩
    rw [range_add, map_append, run_append, range_succ, map_append, run_append, map_map]
    have hfm : f m = (i, (f m).2) := by rw [← hm]
    rw [map_singleton, hfm]
    exact hn

end

section Parallel

variable {I : σ → Prop} {R G : ι → σ → σ → Prop} {A : ι → Ω → σ → Prop} {Q : ι → α → σ → Prop}

def AllSafe (I : σ → Prop) (R G : ι → σ → σ → Prop) (A : ι → Ω → σ → Prop) (Q : ι → α → σ → Prop)
    (c : Config ι Ω σ α) : Prop :=
  I c.world ∧ ∀ i, (c.proc i).Safe I (R i) (G i) (A i) (Q i) c.world

theorem AllSafe.step (hre : ∀ i a, R i a a) (htrs : ∀ i a b c, R i a b → R i b c → R i a c)
    (hG : ∀ i j, i ≠ j → ∀ s s', G i s s' → R j s s') {c}
    (h : AllSafe I R G A Q c) {i ω} (hω : A i ω c.world) : AllSafe I R G A Q (c.step i ω) := by
  obtain ⟨hI, hS⟩ := h
  unfold Config.step
  cases hp : c.proc i with
  | ret a => exact ⟨hI, hS⟩
  | act next cont =>
    have hi := hS i
    rw [hp] at hi
    obtain ⟨hI', hG', hS'⟩ := hi c.world hI (hre i _) ω hω
    refine ⟨hI', fun j => ?_⟩
    by_cases hj : j = i
    · subst hj
      simpa using hS'
    · simp only [Function.update_of_ne hj]
      exact (hS j).rely (htrs j) (hG i j (Ne.symm hj) _ _ hG')

/-- 一段は、進んだ計算の保証 G に従う。終わった計算を選んだ段は状態を変えない。 -/
theorem AllSafe.step_guar (hre : ∀ i a, R i a a) {c} (h : AllSafe I R G A Q c)
    {i ω} (hω : A i ω c.world) : c.step i ω = c ∨ G i c.world (c.step i ω).world := by
  obtain ⟨hI, hS⟩ := h
  unfold Config.step
  cases hp : c.proc i with
  | ret a => exact Or.inl rfl
  | act next cont =>
    have hi := hS i
    rw [hp] at hi
    exact Or.inr (hi c.world hI (hre i _) ω hω).2.1

section

variable (hre : ∀ i a, R i a a) (htrs : ∀ i a b c, R i a b → R i b c → R i a c) (hG : ∀ i j, i ≠ j → ∀ s s', G i s s' → R j s s')

include hre htrs hG

/-- 並行合成。ほかの計算の保証がそれぞれの依存に含まれるなら、どの予定でも条件が保たれる。 -/
theorem AllSafe.run {c} (h : AllSafe I R G A Q c) (sched) (hA : ∀ x ∈ sched, ∀ s, A x.1 x.2 s) : AllSafe I R G A Q (c.run sched) := by
  induction sched generalizing c with
  | nil => exact h
  | cons x xs ih =>
    obtain ⟨i, ω⟩ := x
    exact ih (h.step hre htrs hG (hA (i, ω) (by simp) _)) (fun y hy => hA y (by simp [hy]))

/-- 一段ごとの保証から導ける反射的で推移的な関係は、走行の始めと終わりの間にも成り立つ。 -/
theorem AllSafe.run_rel {T : σ → σ → Prop} (hT : ∀ s, T s s)
    (hT' : ∀ a b c, T a b → T b c → T a c) (hGT : ∀ i s s', I s → G i s s' → T s s') {c}
    (h : AllSafe I R G A Q c) (sched) (hA : ∀ x ∈ sched, ∀ s, A x.1 x.2 s) : T c.world (c.run sched).world := by
  induction sched generalizing c with
  | nil => exact hT _
  | cons x xs ih =>
    obtain ⟨i, ω⟩ := x
    have hω : A i ω c.world := hA (i, ω) (by simp) _
    have hst : T c.world (c.step i ω).world := by
      rcases h.step_guar hre hω with he | hg
      · rw [he]; exact hT _
      · exact hGT i _ _ h.1 hg
    exact hT' _ _ _ hst (ih (h.step hre htrs hG hω) (fun y hy => hA y (by simp [hy])))

end

omit [DecidableEq ι] in
theorem AllSafe.restrict {J : σ → Prop} {B c} (h : AllSafe I R G A Q c) (hJ : ∀ i s s', G i s s' → J s → J s')
    (hB : ∀ i ω s, J s → B i ω s → A i ω s) (hj : J c.world) : AllSafe (fun s => I s ∧ J s) R G B Q c :=
  ⟨⟨h.1, hj⟩, fun i => (h.2 i).restrict (hJ i) (hB i)⟩

omit [DecidableEq ι] in
theorem AllSafe.result (hre : ∀ i a, R i a a) {c} (h : AllSafe I R G A Q c) {i a} (hp : c.proc i = .ret a) : Q i a c.world := by
  have hi := h.2 i
  rw [hp] at hi
  exact hi c.world h.1 (hre i _)

end Parallel

end Config

end Supacloud.Library
