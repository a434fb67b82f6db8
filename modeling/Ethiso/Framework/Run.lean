import Mathlib.Data.List.Induction

/-!
# Runs of a deterministic machine

A machine is a step function `σ → ι → σ`; a run feeds it a list of inputs,
oldest first. Two things are said about runs over and over:

* a *condition on the steps* of a run, which may look at the inputs that came
  before (`Along`);
* an *invariant* of the states of a run, which may look at the inputs that led
  there.

`run_induction` is the one induction that connects them: an invariant of the
initial state that every step meeting the condition preserves holds at the end
of every run whose steps all meet the condition. Since a prefix of a run is a
run, it holds in every state on the way (`Along.restrict`).

A condition is *exact* for a property of runs if every prefix of a run has the
property just in case its steps all meet the condition. For this it is enough that
a step, taken under the invariant, keeps the invariant and meets the condition as
soon as it meets the condition or leads to the property (`along_iff`).
-/

namespace Ethiso

variable {σ ι : Type*}

/-- The state a machine reaches from `s` on the inputs `l`, oldest first. -/
def run (step : σ → ι → σ) (s : σ) (l : List ι) : σ := l.foldl step s

section Run

variable {step : σ → ι → σ} {s : σ}

@[simp] theorem run_concat (l : List ι) (i : ι) :
    run step s (l ++ [i]) = step (run step s l) i := by
  unfold run
  rw [List.foldl_append, List.foldl_cons, List.foldl_nil]

end Run

/-- Every input `i` of `l` meets `C pre i`, where `pre` are the inputs before it. -/
def Along (C : List ι → ι → Prop) (l : List ι) : Prop :=
  ∀ pre i post, l = pre ++ i :: post → C pre i

section Along

variable {C D : List ι → ι → Prop} {l : List ι}

theorem along_nil : Along C [] := by
  intro pre i post h
  exact absurd h.symm (by simp)

/-- The last step has to meet it. -/
theorem along_concat {i : ι} : Along C (l ++ [i]) ↔ Along C l ∧ C l i := by
  refine ⟨?_, ?_⟩
  · intro h
    refine ⟨fun pre j post hl => ?_, h l i [] rfl⟩
    exact h pre j (post ++ [i]) (by rw [hl]; simp)
  · rintro ⟨hl, hi⟩ pre j post heq
    -- the step in question is the new one, or one of the old ones
    rcases List.eq_nil_or_concat post with rfl | ⟨post', k, rfl⟩
    · obtain ⟨rfl, hji⟩ := List.append_inj' heq rfl
      obtain rfl : i = j := by simpa using hji
      exact hi
    · rw [List.concat_eq_append, ← List.cons_append, ← List.append_assoc] at heq
      exact hl pre j post' (List.append_inj' heq rfl).1

/-- A condition along a list, by the positions. -/
theorem along_of_take (h : ∀ (k : ℕ) (h_k : k < l.length), C (l.take k) l[k]) : Along C l := by
  rintro pre i post rfl
  simpa using h pre.length (by simp)

theorem Along.imp (h : ∀ pre i, C pre i → D pre i) (hl : Along C l) : Along D l :=
  fun pre i post heq => h pre i (hl pre i post heq)

theorem Along.and (hC : Along C l) (hD : Along D l) :
    Along (fun pre i => C pre i ∧ D pre i) l :=
  fun pre i post heq => ⟨hC pre i post heq, hD pre i post heq⟩

/-- A condition met along a run is met along each of its prefixes. -/
theorem Along.restrict {l' : List ι} (h : Along C l) (hp : l' <+: l) : Along C l' := by
  obtain ⟨t, rfl⟩ := hp
  intro pre i post heq
  exact h pre i (post ++ t) (by rw [heq]; simp)

/-- A condition on the inputs alone is met along a run if all its inputs meet it. -/
theorem along_forall {P : ι → Prop} : Along (fun _ i => P i) l ↔ ∀ i ∈ l, P i := by
  refine ⟨?_, ?_⟩
  · intro h i h_i
    obtain ⟨pre, post, heq⟩ := List.append_of_mem h_i
    exact h pre i post heq
  · intro h pre i post heq
    exact h i (by simp [heq])

/-- Two conditions that agree at every step are met along the same runs. -/
theorem along_congr (h : ∀ pre i, C pre i ↔ D pre i) : Along C l ↔ Along D l :=
  ⟨Along.imp fun pre i => (h pre i).mp, Along.imp fun pre i => (h pre i).mpr⟩

end Along

/-- Values that are all different are new when they occur. -/
theorem along_fresh {ν : Type*} {f : ι → Option ν} {l : List ι} (h : (l.filterMap f).Nodup) :
    Along (fun pre i => ∀ v, f i = some v → v ∉ pre.filterMap f) l := by
  rintro pre i post rfl v h_v h_mem
  rw [List.filterMap_append, List.filterMap_cons, h_v] at h
  exact (List.nodup_append.mp h).2.2 v h_mem v List.mem_cons_self rfl

/-- Induction along a list whose steps all meet `C`. -/
theorem along_induction {C : List ι → ι → Prop} {Inv : List ι → Prop} (h_init : Inv [])
    (h_step : ∀ pre i, Inv pre → C pre i → Inv (pre ++ [i])) (l : List ι) (h : Along C l) :
    Inv l := by
  induction l using List.reverseRecOn with
  | nil => exact h_init
  | append_singleton l i ih =>
    obtain ⟨hl, hi⟩ := along_concat.mp h
    exact h_step l i (ih hl) hi

/-- **Exact conditions.** If each step keeps the invariant and meets `P`, once it meets
`P` or leads to `Q`, then `P` is the exact condition for `Q`. -/
theorem along_iff {C P : List ι → ι → Prop} {Inv Q : List ι → Prop} (h_init : Inv [])
    (h_step : ∀ pre i, Inv pre → C pre i → (P pre i ∨ Q (pre ++ [i])) →
      P pre i ∧ Inv (pre ++ [i]))
    (h_inv : ∀ l, Inv l → Q l) (l : List ι) (h : Along C l) :
    (∀ pre, pre <+: l → Q pre) ↔ Along P l := by
  refine ⟨?_, ?_⟩
  · intro h_all
    -- going up the run, the property of the next prefix forces the next step to meet `P`
    have h_both : Inv l ∧ Along P l := by
      refine @along_induction _ (fun pre i => C pre i ∧ Q (pre ++ [i]))
        (fun l => Inv l ∧ Along P l) ⟨h_init, along_nil⟩ ?_ l fun pre i post heq =>
          ⟨h pre i post heq, h_all _ ⟨post, by simp [heq]⟩⟩
      rintro pre i ⟨h_pre, h_along⟩ ⟨h_i, h_q⟩
      obtain ⟨h_p, h_next⟩ := h_step pre i h_pre h_i (Or.inr h_q)
      exact ⟨h_next, along_concat.mpr ⟨h_along, h_p⟩⟩
    exact h_both.2
  · intro h_p pre h_pre
    refine h_inv pre (@along_induction _ (fun pre i => C pre i ∧ P pre i) Inv h_init ?_ pre
      ((h.and h_p).restrict h_pre))
    exact fun pre i h_pre h_i => (h_step pre i h_pre h_i.1 (Or.inl h_i.2)).2

/-- **Run induction.** An invariant that holds initially and that every step
meeting `C` preserves holds after every run whose steps all meet `C`. -/
theorem run_induction {step : σ → ι → σ} {s : σ} {C : List ι → ι → Prop}
    {Inv : List ι → σ → Prop} (h_init : Inv [] s)
    (h_step : ∀ pre i, Inv pre (run step s pre) → C pre i →
      Inv (pre ++ [i]) (step (run step s pre) i)) :
    ∀ l, Along C l → Inv l (run step s l) := by
  -- a prefix of a run leads to the state that the next step starts from
  refine along_induction h_init fun pre i h_pre h_i => ?_
  rw [run_concat]
  exact h_step pre i h_pre h_i

/-- Run induction for an invariant that every step preserves unconditionally. -/
theorem run_invariant {step : σ → ι → σ} {s : σ} {Inv : σ → Prop} (h_init : Inv s)
    (h_step : ∀ t i, Inv t → Inv (step t i)) (l : List ι) : Inv (run step s l) :=
  @run_induction σ ι step s (fun _ _ => True) (fun _ t => Inv t) h_init
    (fun _ i h _ => h_step _ i h) l (fun _ _ _ _ => trivial)

/-! ### The latest value a run has written -/

section Latest

variable {ν : Type*}

/-- The value that the latest input with one has given, `d` if none had. -/
def latest (f : ι → Option ν) (d : ν) (l : List ι) : ν := (l.filterMap f).getLast?.getD d

variable {f : ι → Option ν} {d : ν}

/-- The last step counts, if it gives a value. -/
@[simp] theorem latest_concat (l : List ι) (i : ι) :
    latest f d (l ++ [i]) = (f i).getD (latest f d l) := by
  unfold latest
  rw [List.filterMap_append]
  -- the last of the written values is that of `i`, if it has one
  cases h : f i with
  | none => simp [h]
  | some v => simp [h]

end Latest

end Ethiso
