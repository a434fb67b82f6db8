import Mathlib.Logic.Function.Basic
import Mathlib.Order.Basic

/-!
# Programs under interference

A *program* asks for operations, one after the other, and goes on with their answers. Several
threads run programs over one shared state, in any interleaving: between two operations of a
thread the others may change the state. What they may do to it is the thread's *rely*, a relation
between states; what the thread itself does with one operation is its *guarantee*.

`Secure` says of the rest of a program, in a state, that under interference within the rely every
further operation stays within the guarantee and the result meets the postcondition in every later
state. `Triple` starts this from an assertion. Its rules follow the program: an operation may be
asked for under an assertion that the rely cannot falsify (`Triple.ask`), and programs compose
(`Triple.bind`).

The threads of a system stay secure whatever is done next, as long as what one of them guarantees
is what the others rely on (`AllSecure.ask`); so a thread that has ended meets its
postcondition (`AllSecure.post`).
-/

namespace Ethiso

/-- A program over the operations `Op`, each of which has its type of answers. -/
inductive Program (Op : Type) (Ans : Op → Type) (α : Type) : Type
  | done (a : α)
  | ask (o : Op) (k : Ans o → Program Op Ans α)

namespace Program

variable {Op : Type} {Ans : Op → Type} {α β σ : Type}

/-- Goes on with `f` when the program is done. -/
def bind : Program Op Ans α → (α → Program Op Ans β) → Program Op Ans β
  | done a, f => f a
  | ask o k, f => ask o fun r => (k r).bind f

instance : Monad (Program Op Ans) where
  pure := done
  bind := bind

@[simp] theorem pure_eq (a : α) : (pure a : Program Op Ans α) = done a := rfl

@[simp] theorem bind_done (a : α) (f : α → Program Op Ans β) : done a >>= f = f a := rfl

@[simp] theorem bind_ask (o : Op) (k : Ans o → Program Op Ans α) (f : α → Program Op Ans β) :
    ask o k >>= f = ask o fun r => k r >>= f := rfl

/-- Nothing is left to do after a program. -/
theorem bind_pure_right (p : Program Op Ans α) : p >>= pure = p := by
  induction p with
  | done a => rfl
  | ask o k ih => exact congrArg (ask o) (funext ih)

/-! ### One thread -/

section Thread

variable (Does : (o : Op) → σ → Ans o → σ → Prop) (Rely Guarantee : σ → σ → Prop)

/-- Under the rely, each operation is within the guarantee, and the result meets `Q` for good. -/
def Secure (Q : α → σ → Prop) : Program Op Ans α → σ → Prop
  | done a, s => ∀ s', Rely s s' → Q a s'
  | ask o k, s => ∀ s₁, Rely s s₁ → ∀ r s₂, Does o s₁ r s₂ → Guarantee s₁ s₂ ∧ (k r).Secure Q s₂

/-- Interference cannot falsify the assertion. -/
def Stable (P : σ → Prop) : Prop := ∀ s s', P s → Rely s s' → P s'

/-- Started under `P`, the program is secure. -/
def Triple (P : σ → Prop) (p : Program Op Ans α) (Q : α → σ → Prop) : Prop :=
  ∀ s, P s → p.Secure Does Rely Guarantee Q s

variable {Does Rely Guarantee} {P P' : σ → Prop} {Q Q' : α → σ → Prop} {p : Program Op Ans α}

/-- A weaker condition at the end. -/
theorem Secure.weaken {s : σ} (h : p.Secure Does Rely Guarantee Q s)
    (h_Q : ∀ a s, Q a s → Q' a s) : p.Secure Does Rely Guarantee Q' s := by
  induction p generalizing s with
  | done a => exact fun s' h_rely => h_Q a s' (h s' h_rely)
  | ask o k ih =>
    intro s₁ h_rely r s₂ h_does
    obtain ⟨h_guarantee, h_rest⟩ := h s₁ h_rely r s₂ h_does
    exact ⟨h_guarantee, ih r h_rest⟩

/-- Interference leaves a program secure. -/
theorem Secure.rely (h_trans : ∀ s₁ s₂ s₃, Rely s₁ s₂ → Rely s₂ s₃ → Rely s₁ s₃) {s s' : σ}
    (h : p.Secure Does Rely Guarantee Q s) (h_rely : Rely s s') :
    p.Secure Does Rely Guarantee Q s' := by
  cases p with
  | done a => exact fun s₁ h₁ => h s₁ (h_trans s s' s₁ h_rely h₁)
  | ask o k => exact fun s₁ h₁ => h s₁ (h_trans s s' s₁ h_rely h₁)

/-- **Sequencing** by the condition between two programs. By induction on the first. -/
theorem Secure.bind (h_refl : ∀ s, Rely s s) {f : α → Program Op Ans β} {Q' : β → σ → Prop}
    {s : σ} (h : p.Secure Does Rely Guarantee Q s)
    (h_f : ∀ a, Triple Does Rely Guarantee (Q a) (f a) Q') :
    (p >>= f).Secure Does Rely Guarantee Q' s := by
  induction p generalizing s with
  | done a => exact h_f a s (h s (h_refl s))
  | ask o k ih =>
    intro s₁ h_rely r s₂ h_does
    obtain ⟨h_guarantee, h_rest⟩ := h s₁ h_rely r s₂ h_does
    exact ⟨h_guarantee, ih r h_rest⟩

theorem Triple.weaken (h : Triple Does Rely Guarantee P p Q) (h_P : ∀ s, P' s → P s)
    (h_Q : ∀ a s, Q a s → Q' a s) : Triple Does Rely Guarantee P' p Q' :=
  fun s h_s => (h s (h_P s h_s)).weaken h_Q

/-- A program that is done has its condition, if nobody disturbs it. -/
theorem Triple.done {a : α} (h_stable : Stable Rely P) (h_Q : ∀ s, P s → Q a s) :
    Triple Does Rely Guarantee P (done a) Q :=
  fun s h_s s' h_rely => h_Q s' (h_stable s s' h_s h_rely)

/-- An operation may be asked for under a stable assertion, if it stays within the guarantee
there and each of its answers leaves what the rest of the program needs. -/
theorem Triple.ask {o : Op} {k : Ans o → Program Op Ans α} {M : Ans o → σ → Prop}
    (h_stable : Stable Rely P)
    (h_does : ∀ s r s', P s → Does o s r s' → Guarantee s s' ∧ M r s')
    (h_k : ∀ r, Triple Does Rely Guarantee (M r) (k r) Q) :
    Triple Does Rely Guarantee P (Program.ask o k) Q := by
  intro s h_s s₁ h_rely r s₂ h
  obtain ⟨h_guarantee, h_M⟩ := h_does s₁ r s₂ (h_stable s s₁ h_s h_rely) h
  exact ⟨h_guarantee, h_k r s₂ h_M⟩

/-- Programs compose. -/
theorem Triple.bind (h_refl : ∀ s, Rely s s) {f : α → Program Op Ans β} {Q' : β → σ → Prop}
    (h : Triple Does Rely Guarantee P p Q)
    (h_f : ∀ a, Triple Does Rely Guarantee (Q a) (f a) Q') :
    Triple Does Rely Guarantee P (p >>= f) Q' :=
  fun s h_s => (h s h_s).bind h_refl h_f

theorem Stable.and {P P' : σ → Prop} (h : Stable Rely P) (h' : Stable Rely P') :
    Stable Rely fun s => P s ∧ P' s :=
  fun s s' h_s h_rely => ⟨h s s' h_s.1 h_rely, h' s s' h_s.2 h_rely⟩

end Thread

/-! ### A system of threads -/

section System

variable {ι : Type} [DecidableEq ι]
  (Does : ι → (o : Op) → σ → Ans o → σ → Prop) (Rely Guarantee : ι → σ → σ → Prop)
  (Q : ι → α → σ → Prop)

/-- The program that each thread has left to run is secure. A thread may have none. -/
def AllSecure (threads : ι → Option (Program Op Ans α)) (s : σ) : Prop :=
  ∀ i p, threads i = some p → p.Secure (Does i) (Rely i) (Guarantee i) (Q i) s

variable {Does Rely Guarantee Q} {threads : ι → Option (Program Op Ans α)} {s s' : σ} {i : ι}

omit [DecidableEq ι] in
/-- A change of the state that is within the rely of every thread. -/
theorem AllSecure.environment
    (h_trans : ∀ i s₁ s₂ s₃, Rely i s₁ s₂ → Rely i s₂ s₃ → Rely i s₁ s₃)
    (h : AllSecure Does Rely Guarantee Q threads s)
    (h_rely : ∀ i, threads i ≠ none → Rely i s s') :
    AllSecure Does Rely Guarantee Q threads s' := by
  intro i p h_p
  refine (h i p h_p).rely (h_trans i) (h_rely i ?_)
  rw [h_p]
  exact Option.some_ne_none p

/-- A thread begins, ends or is replaced. -/
theorem AllSecure.update (h : AllSecure Does Rely Guarantee Q threads s)
    {q : Option (Program Op Ans α)}
    (h_q : ∀ p, q = some p → p.Secure (Does i) (Rely i) (Guarantee i) (Q i) s) :
    AllSecure Does Rely Guarantee Q (Function.update threads i q) s := by
  intro j p h_p
  by_cases h_j : j = i
  · subst h_j
    exact h_q p (by rwa [Function.update_self] at h_p)
  · exact h j p (by rwa [Function.update_of_ne h_j] at h_p)

/-- **Interference**: a thread performs an operation, and what it guarantees the others rely
on. -/
theorem AllSecure.ask (h_refl : ∀ i s, Rely i s s)
    (h_trans : ∀ i s₁ s₂ s₃, Rely i s₁ s₂ → Rely i s₂ s₃ → Rely i s₁ s₃)
    (h_others : ∀ j, j ≠ i → ∀ s s', Guarantee i s s' → Rely j s s')
    (h : AllSecure Does Rely Guarantee Q threads s) {o : Op} {k : Ans o → Program Op Ans α}
    (h_thread : threads i = some (.ask o k)) {r : Ans o} (h_does : Does i o s r s') :
    Guarantee i s s' ∧
      AllSecure Does Rely Guarantee Q (Function.update threads i (some (k r))) s' := by
  obtain ⟨h_guarantee, h_rest⟩ := h i _ h_thread s (h_refl i s) r s' h_does
  refine ⟨h_guarantee, fun j p h_p => ?_⟩
  -- the thread that was asked goes on, the others rely on what it guarantees
  by_cases h_j : j = i
  · subst h_j
    obtain rfl : k r = p := by rwa [Function.update_self, Option.some.injEq] at h_p
    exact h_rest
  · rw [Function.update_of_ne h_j] at h_p
    exact (h j p h_p).rely (h_trans j) (h_others j h_j s s' h_guarantee)

omit [DecidableEq ι] in
/-- A thread that is done has met its postcondition. -/
theorem AllSecure.post (h_refl : ∀ i s, Rely i s s)
    (h : AllSecure Does Rely Guarantee Q threads s) {a : α}
    (h_thread : threads i = some (.done a)) : Q i a s :=
  h i _ h_thread s (h_refl i s)

end System

end Program

end Ethiso
