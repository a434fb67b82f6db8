import Mathlib.Data.List.Induction
import Mathlib.Data.List.Count

/-!
# Numbered entries

The entries of a list have owners. The list is *numbered* if each entry carries the number of
those that its owner has before it. In a numbered list the number of an entry says where it
stands: a prefix holds exactly the entries whose numbers are below the count of their owner in
it (`Numbered.mem_iff`), and the entries of one owner have different numbers
(`Numbered.inj`).
-/

namespace Ethiso

variable {α ι : Type*} [DecidableEq ι] (owner : α → ι) (number : α → ℕ)

/-- How many entries belong to `i`. -/
def ownCount (i : ι) (l : List α) : ℕ := l.countP fun x => owner x = i

/-- Each entry carries the number of those that its owner has before it. -/
def Numbered (l : List α) : Prop :=
  ∀ pre x post, l = pre ++ x :: post → number x = ownCount owner (owner x) pre

variable {owner number} {l pre : List α} {x y : α} {i : ι}

/-- One more entry counts for its owner. -/
theorem ownCount_concat :
    ownCount owner i (l ++ [x]) = ownCount owner i l + if owner x = i then 1 else 0 := by
  unfold ownCount
  rw [List.countP_append, List.countP_singleton]
  simp only [decide_eq_true_eq]

/-- A longer list has no fewer entries of an owner. -/
theorem ownCount_mono (h : pre <+: l) : ownCount owner i pre ≤ ownCount owner i l :=
  h.sublist.countP_le

theorem numbered_nil : Numbered owner number ([] : List α) :=
  fun pre x post h => absurd h (by simp)

/-- **One more entry** is numbered by those of its owner before it. -/
theorem numbered_concat :
    Numbered owner number (l ++ [x]) ↔
      Numbered owner number l ∧ number x = ownCount owner (owner x) l := by
  constructor
  · intro h
    refine ⟨fun pre y post h_eq => ?_, h l x [] rfl⟩
    refine h pre y (post ++ [x]) ?_
    rw [h_eq, List.append_assoc, List.cons_append]
  · rintro ⟨h, h_x⟩ pre y post h_eq
    -- the last entry, or one of those before
    induction post using List.reverseRecOn with
    | nil =>
      obtain ⟨rfl, h_last⟩ := List.append_inj' h_eq rfl
      obtain rfl : x = y := List.head_eq_of_cons_eq h_last
      exact h_x
    | append_singleton post z =>
      rw [← List.cons_append, ← List.append_assoc] at h_eq
      exact h pre y post (List.append_inj' h_eq rfl).1

/-- What comes first is numbered too. -/
theorem Numbered.of_prefix (h : Numbered owner number l) (h_pre : pre <+: l) :
    Numbered owner number pre := by
  obtain ⟨rest, rfl⟩ := h_pre
  intro pre' x post h_eq
  refine h pre' x (post ++ rest) ?_
  rw [h_eq, List.append_assoc, List.cons_append]

/-- Numbers are below the count of the owner. -/
theorem Numbered.lt_of_mem (h : Numbered owner number l) (h_x : x ∈ l) :
    number x < ownCount owner (owner x) l := by
  obtain ⟨before, after, rfl⟩ := List.append_of_mem h_x
  have h_le : ownCount owner (owner x) (before ++ [x]) ≤
      ownCount owner (owner x) (before ++ [x] ++ after) := ownCount_mono (List.prefix_append ..)
  rw [List.append_assoc, List.singleton_append, ownCount_concat, if_pos rfl] at h_le
  have h_number := h before x after rfl
  omega

/-- **The place of an entry** is read off its number. -/
theorem Numbered.mem_iff (h : Numbered owner number l) (h_pre : pre <+: l) (h_x : x ∈ l) :
    x ∈ pre ↔ number x < ownCount owner (owner x) pre := by
  refine ⟨(h.of_prefix h_pre).lt_of_mem, fun h_lt => ?_⟩
  obtain ⟨rest, rfl⟩ := h_pre
  refine (List.mem_append.mp h_x).resolve_right fun h_rest => ?_
  obtain ⟨before, after, rfl⟩ := List.append_of_mem h_rest
  have h_number := h (pre ++ before) x after (List.append_assoc ..).symm
  have h_le : ownCount owner (owner x) pre ≤ ownCount owner (owner x) (pre ++ before) :=
    ownCount_mono (List.prefix_append ..)
  omega

/-- **The entries of one owner** have different numbers. -/
theorem Numbered.inj (h : Numbered owner number l) (h_x : x ∈ l) (h_y : y ∈ l)
    (h_owner : owner y = owner x) (h_number : number y = number x) : y = x := by
  obtain ⟨before, after, rfl⟩ := List.append_of_mem h_x
  have h_at : before ++ [x] <+: before ++ x :: after := ⟨after, List.append_assoc ..⟩
  have h_count := h before x after rfl
  have h_mem : y ∈ before ++ [x] := by
    rw [h.mem_iff h_at h_y, h_owner, ownCount_concat, if_pos rfl]
    omega
  refine (List.mem_append.mp h_mem).elim (fun h_before => ?_) List.mem_singleton.mp
  rw [h.mem_iff (List.prefix_append ..) h_y, h_owner] at h_before
  omega

end Ethiso
