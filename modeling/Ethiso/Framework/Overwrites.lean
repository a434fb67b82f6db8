import Mathlib.Data.List.Basic

/-!
# Loops that overwrite what they have written

A loop goes over a list, and fails as soon as one of its steps does. Of a step it is known what it
writes: everything that is observed of the state is overwritten, or nothing is changed. What is
observed in the end is then what was written last (`observe_of_foldlM`).

Whether a step fails may depend on its item alone. In this case the loop succeeds if and only if no
item makes it fail (`isSome_foldlM`).
-/

namespace Ethiso

variable {σ β γ : Type*} {f : σ → β → Option σ}

/-- **The last write.** -/
theorem observe_of_foldlM {observe : σ → γ} {write : β → Option γ}
    (h : ∀ s x s', f s x = some s' → observe s' = (write x).getD (observe s)) {xs : List β}
    {s s' : σ} (h_fold : xs.foldlM f s = some s') :
    observe s' = (xs.filterMap write).getLast?.getD (observe s) := by
  induction xs generalizing s with
  | nil =>
    obtain rfl := Option.some.inj h_fold
    rfl
  | cons x xs ih =>
    obtain ⟨s₁, h_first, h_rest⟩ := Option.bind_eq_some_iff.mp h_fold
    have h_step := h s x s₁ h_first
    rw [ih h_rest, h_step]
    -- a round that writes is overwritten by later ones that write
    cases h_write : write x with
    | none => rw [List.filterMap_cons_none h_write, Option.getD_none]
    | some y =>
      rw [List.filterMap_cons_some h_write, List.getLast?_cons, Option.getD_some]
      rfl

/-- The loop succeeds if each round does. -/
theorem isSome_foldlM {P : β → Prop} (h : ∀ s x, (f s x).isSome = true ↔ P x) {xs : List β}
    {s : σ} : (xs.foldlM f s).isSome = true ↔ ∀ x ∈ xs, P x := by
  induction xs generalizing s with
  | nil => exact iff_of_true rfl (List.forall_mem_nil P)
  | cons x xs ih =>
    rw [List.forall_mem_cons, ← h s x, List.foldlM_cons]
    cases h_first : f s x with
    | none => simp
    | some s₁ =>
      rw [Option.isSome_some, eq_self, true_and]
      exact ih

end Ethiso
