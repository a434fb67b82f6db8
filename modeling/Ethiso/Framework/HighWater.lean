import Ethiso.Framework.Run
import Mathlib.Order.Bounds.Basic
import Mathlib.Order.MinMax

/-!
# High-water marks

A quantity may exceed the bound that is in force now, when the bound has been lowered
meanwhile. If it only ever rises up to the bound in force at the time, then it is at most
the largest bound that was in force when it rose.

Which inputs of a run raise the quantity, and the bounds in force then, is what the steps
of the run *give* (`given`), a partial function of the state before the step and the
input. `run_le_largest` is the rule: if each step leaves the quantity where it was or
lower, or at most at the value that it gives, the quantity is at most the largest value
given, or what it was at the start.
-/

namespace Ethiso

variable {σ ι ν R : Type*}

/-! ### What the steps of a run give -/

/-- The values that the steps of a run give. -/
def given (step : σ → ι → σ) (f : σ → ι → Option ν) : σ → List ι → List ν
  | _, [] => []
  | s, i :: l => (f s i).toList ++ given step f (step s i) l

section Given

variable {step : σ → ι → σ} {f : σ → ι → Option ν}

/-- The last step gives the last value. -/
theorem given_concat (s : σ) (l : List ι) (i : ι) :
    given step f s (l ++ [i]) = given step f s l ++ (f (run step s l) i).toList := by
  induction l generalizing s with
  | nil => exact List.append_nil _
  | cons j l ih =>
    rw [List.cons_append, given, given, ih, List.append_assoc]
    rfl

end Given

/-! ### The largest of a list -/

section Largest

variable [LinearOrder R] {b : R} {l : List R}

/-- The largest of the values, or `b` if none is larger. -/
def largest (b : R) (l : List R) : R := l.foldr max b

/-- The largest is one of them and none is larger. -/
theorem isGreatest_largest : IsGreatest {v | v ∈ b :: l} (largest b l) := by
  induction l with
  | nil => exact ⟨List.mem_cons_self, fun v h => (List.mem_singleton.mp h).le⟩
  | cons w l ih =>
    -- either the new value is the largest, or the one of before is
    refine ⟨?_, ?_⟩
    · show max w (largest b l) ∈ b :: w :: l
      rcases max_choice w (largest b l) with h | h
      · rw [h]
        exact List.mem_cons_of_mem b List.mem_cons_self
      · rw [h]
        rcases List.mem_cons.mp ih.1 with h_b | h_l
        · rw [h_b]
          exact List.mem_cons_self
        · exact List.mem_cons_of_mem b (List.mem_cons_of_mem w h_l)
    · intro v h
      show v ≤ max w (largest b l)
      rcases List.mem_cons.mp h with h_b | h
      · exact le_max_of_le_right (ih.2 (h_b ▸ List.mem_cons_self))
      · rcases List.mem_cons.mp h with h_w | h_l
        · exact le_max_of_le_left h_w.le
        · exact le_max_of_le_right (ih.2 (List.mem_cons_of_mem b h_l))

/-- More values make it no smaller. -/
theorem largest_le_append (l' : List R) : largest b l ≤ largest b (l ++ l') := by
  apply isGreatest_largest.2
  rcases List.mem_cons.mp (isGreatest_largest (b := b) (l := l)).1 with h | h
  · exact List.mem_cons.mpr (Or.inl h)
  · exact List.mem_cons_of_mem b (List.mem_append_left l' h)

/-- **High-water marks.** -/
theorem run_le_largest {step : σ → ι → σ} {f : σ → ι → Option R} {s : σ} {quantity : σ → R}
    (h_init : quantity s ≤ b)
    (h_step : ∀ t i, quantity (step t i) ≤ quantity t ∨
      ∃ v, f t i = some v ∧ quantity (step t i) ≤ v) (l : List ι) :
    quantity (run step s l) ≤ largest b (given step f s l) := by
  induction l using List.reverseRecOn with
  | nil => exact h_init
  | append_singleton l i ih =>
    rw [run_concat, given_concat]
    rcases h_step (run step s l) i with h_le | ⟨v, h_v, h_le⟩
    -- no growth: what was the largest is still as large
    · exact h_le.trans (ih.trans (largest_le_append _))
    -- growth up to a value that is given now
    · rw [h_v]
      refine h_le.trans (isGreatest_largest.2 ?_)
      exact List.mem_cons_of_mem b (List.mem_append_right _ List.mem_cons_self)

end Largest

end Ethiso
