import Mathlib.Algebra.BigOperators.Group.List.Basic
import Mathlib.Algebra.GroupWithZero.Nat
import Mathlib.Data.List.Forall2

/-!
# Sequences with heads and tails

A sequence of components is laid out as its heads followed by its tails. A static
component is its own head. The head of a dynamic component is an offset, of some
fixed width, to its place among the tails, counted from the start of the sequence.

The layout is determined by the components and determines them, once it is known
which of them are dynamic and how long they are (`headTail_injective`).
-/

namespace Ethiso

/-- A component of a sequence. -/
structure Part (β : Type*) where
  dynamic : Bool
  content : List β

variable {β : Type*}

/-- The length of the component's head. -/
def Part.headSize (w : ℕ) (p : Part β) : ℕ := if p.dynamic then w else p.content.length

/-- The length of the component's head and tail. -/
def Part.size (w : ℕ) (p : Part β) : ℕ :=
  if p.dynamic then w + p.content.length else p.content.length

/-- The heads, when the tail of the next dynamic component is at `k`. -/
def heads (offset : ℕ → List β) : ℕ → List (Part β) → List β
  | _, [] => []
  | k, p :: ps =>
    if p.dynamic then offset k ++ heads offset (k + p.content.length) ps
    else p.content ++ heads offset k ps

/-- The contents of the dynamic parts. -/
def tails : List (Part β) → List β
  | [] => []
  | p :: ps => if p.dynamic then p.content ++ tails ps else tails ps

/-- The size of the head. -/
def headSize (w : ℕ) (ps : List (Part β)) : ℕ := (ps.map (Part.headSize w)).sum

/-- The layout of a sequence, with offsets of width `w`. -/
def headTail (offset : ℕ → List β) (w : ℕ) (ps : List (Part β)) : List β :=
  heads offset (headSize w ps) ps ++ tails ps

section Cons

variable {offset : ℕ → List β} {w k : ℕ} {p : Part β} {ps : List (Part β)}

/-- A dynamic part stands in the head with its offset. -/
theorem heads_cons_dynamic (h : p.dynamic = true) :
    heads offset k (p :: ps) = offset k ++ heads offset (k + p.content.length) ps := if_pos h

theorem heads_cons_static (h : p.dynamic = false) :
    heads offset k (p :: ps) = p.content ++ heads offset k ps := if_neg (by simp [h])

theorem tails_cons_dynamic (h : p.dynamic = true) : tails (p :: ps) = p.content ++ tails ps :=
  if_pos h

theorem tails_cons_static (h : p.dynamic = false) : tails (p :: ps) = tails ps :=
  if_neg (by simp [h])

/-- The first component goes in front. -/
theorem heads_cons :
    heads offset k (p :: ps) =
      heads offset k [p] ++ heads offset (k + (tails [p]).length) ps := by
  simp only [heads, tails]
  split_ifs <;> simp

/-- The tail of the first part comes first. -/
theorem tails_cons : tails (p :: ps) = tails [p] ++ tails ps := by
  simp only [tails]
  split_ifs <;> simp

end Cons

section Lengths

variable {offset : ℕ → List β} {w : ℕ}

@[simp] theorem headSize_cons (p : Part β) (ps : List (Part β)) :
    headSize w (p :: ps) = p.headSize w + headSize w ps := by
  simp [headSize]

/-- The head is as long as its size, if offsets are `w` long. -/
theorem length_heads (h : ∀ k, (offset k).length = w) (k : ℕ) (ps : List (Part β)) :
    (heads offset k ps).length = headSize w ps := by
  induction ps generalizing k with
  | nil => rfl
  | cons p ps ih =>
    rw [heads, headSize_cons, Part.headSize]
    split_ifs with h_dyn
    · rw [List.length_append, h, ih]
    · rw [List.length_append, ih]

/-- Head and tail together are as long as their parts. -/
theorem length_headTail (h : ∀ k, (offset k).length = w) (ps : List (Part β)) :
    (headTail offset w ps).length = (ps.map (Part.size w)).sum := by
  unfold headTail
  rw [List.length_append, length_heads h]
  induction ps with
  | nil => rfl
  | cons p ps ih =>
    rw [headSize_cons, List.map_cons, List.sum_cons, ← ih, Part.headSize, Part.size, tails]
    split_ifs with h_dyn
    · rw [List.length_append]
      omega
    · omega

end Lengths

/-! ### Sequences of one shape -/

/-- Both components are dynamic or both are not, and they have the same length. -/
def SameShape (p q : Part β) : Prop :=
  p.dynamic = q.dynamic ∧ p.content.length = q.content.length

section Injective

variable {offset : ℕ → List β} {w : ℕ} {ps qs : List (Part β)}

/-- Parts of one shape have heads of one size. -/
theorem headSize_eq (h : List.Forall₂ SameShape ps qs) : headSize w ps = headSize w qs := by
  induction h with
  | nil => rfl
  | cons h_shape _ ih => rw [headSize_cons, headSize_cons, ih, Part.headSize, Part.headSize,
      h_shape.1, h_shape.2]

/-- Equal heads and tails come from equal components. -/
theorem eq_of_heads_tails (h : List.Forall₂ SameShape ps qs) (k : ℕ)
    (h_heads : heads offset k ps = heads offset k qs) (h_tails : tails ps = tails qs) :
    ps = qs := by
  induction h generalizing k with
  | nil => rfl
  | @cons p q ps qs h_shape _ ih =>
    obtain ⟨h_dyn, h_len⟩ := h_shape
    rw [heads, heads, h_dyn, h_len] at h_heads
    rw [tails, tails, h_dyn] at h_tails
    -- the first components are equal, and the rest is in turn
    have h_both : p.content = q.content ∧ ps = qs := by
      by_cases h_q : q.dynamic = true
      · rw [if_pos h_q, if_pos h_q] at h_heads h_tails
        obtain ⟨h_content, h_rest⟩ := List.append_inj h_tails h_len
        exact ⟨h_content, ih _ (List.append_cancel_left h_heads) h_rest⟩
      · rw [if_neg h_q, if_neg h_q] at h_heads h_tails
        obtain ⟨h_content, h_rest⟩ := List.append_inj h_heads h_len
        exact ⟨h_content, ih _ h_rest h_tails⟩
    obtain ⟨p_dyn, p_content⟩ := p
    obtain ⟨q_dyn, q_content⟩ := q
    obtain ⟨rfl, rfl⟩ := h_both
    obtain rfl : p_dyn = q_dyn := h_dyn
    rfl

/-- **The layout determines the components** among those of one shape. -/
theorem headTail_injective (h_offset : ∀ k, (offset k).length = w)
    (h : List.Forall₂ SameShape ps qs) (h_eq : headTail offset w ps = headTail offset w qs) :
    ps = qs := by
  unfold headTail at h_eq
  have h_size := @headSize_eq β w ps qs h
  rw [h_size] at h_eq
  obtain ⟨h_heads, h_tails⟩ := List.append_inj h_eq
    (by rw [length_heads h_offset, length_heads h_offset, h_size])
  exact eq_of_heads_tails h _ h_heads h_tails

end Injective

/-! ### Sequences that are no longer -/

/-- The first component is dynamic only if the second is, and it is not the longer one. -/
def Within (p q : Part β) : Prop :=
  (p.dynamic = true → q.dynamic = true) ∧ p.content.length ≤ q.content.length

section Within

variable {offset : ℕ → List β} {w : ℕ} {p q : Part β} {ps qs : List (Part β)}

/-- A part within another takes no more. -/
theorem Within.size_le (h : Within p q) : p.size w ≤ q.size w := by
  obtain ⟨h_dyn, h_len⟩ := h
  unfold Part.size
  split_ifs with h_p h_q h_q
  · omega
  · exact absurd (h_dyn h_p) h_q
  · omega
  · omega

/-- A component of the same size has the same shape, for otherwise it lacks the offset. -/
theorem Within.sameShape (h : Within p q) (h_w : 0 < w) (h_size : q.size w ≤ p.size w) :
    SameShape p q := by
  obtain ⟨h_dyn, h_len⟩ := h
  unfold Part.size at h_size
  split_ifs at h_size with h_q h_p h_p
  · exact ⟨h_p.trans h_q.symm, by omega⟩
  · omega
  · exact absurd (h_dyn h_p) h_q
  · exact ⟨(Bool.eq_false_iff.mpr h_p).trans (Bool.eq_false_iff.mpr h_q).symm, by omega⟩

/-- **If the sizes are the same in sum, the shapes are the same.** By induction on the parts. -/
theorem sameShape_of_sum_le (h : List.Forall₂ Within ps qs) (h_w : 0 < w)
    (h_sum : (qs.map (Part.size w)).sum ≤ (ps.map (Part.size w)).sum) :
    List.Forall₂ SameShape ps qs := by
  induction h with
  | nil => exact .nil
  | @cons p q ps qs h_first h_rest ih =>
    -- the others are within their sizes too, so no part can make up for another
    have h_le : (ps.map (Part.size w)).sum ≤ (qs.map (Part.size w)).sum := by
      clear ih h_sum
      induction h_rest with
      | nil => exact Nat.le_refl 0
      | cons h_within _ ih => exact Nat.add_le_add h_within.size_le ih
    have h_p := @Within.size_le _ w _ _ h_first
    rw [List.map_cons, List.map_cons, List.sum_cons, List.sum_cons] at h_sum
    exact .cons (h_first.sameShape h_w (by omega)) (ih (by omega))

/-- **Equal layouts of sequences, one of which is no longer**, component by component, are
layouts of the same sequence. -/
theorem eq_of_headTail_eq (h_offset : ∀ k, (offset k).length = w) (h_w : 0 < w)
    (h : List.Forall₂ Within ps qs) (h_eq : headTail offset w ps = headTail offset w qs) :
    ps = qs := by
  refine headTail_injective h_offset (sameShape_of_sum_le h h_w ?_) h_eq
  rw [← length_headTail h_offset, ← length_headTail h_offset]
  exact Nat.le_of_eq (congrArg List.length h_eq).symm

end Within

end Ethiso
