import Mathlib.Data.List.Pairwise
import Mathlib.Data.List.Sort
import Mathlib.Data.Option.Basic
import Mathlib.Tactic.Linarith

/-!
# Forests with ranks

A forest gives each node at most one parent, one rank below it. Following
parents from a node is a partial function of the number of links (`up`), so the
ancestors of a node are linearly ordered and two of them with the same rank are
equal (`IsAncestor.eq_of_rank`).

The ancestors of a node whose ranks lie in an interval form a list,
`segment`, in increasing rank, each the parent of the next
(`segment_isChain`). It only depends on the highest node in it
(`segment_congr`), and a list sorted by rank with the same members is the same
list (`eq_segment`).

Two walks relate a forest to a set `M` of its nodes. `Walked` goes up from a
node, at most `n` links far and only through nodes outside `M`: these are the
nodes that one has to add to connect the node with `M`. `OnChain` goes up from a
node as long as it stays inside `M`.
-/

namespace Ethiso

/-- A forest: parents, which stand one rank below. -/
structure Forest (β : Type*) where
  parent : β → Option β
  rank : β → ℕ
  rank_parent : ∀ {x p}, parent x = some p → rank x = rank p + 1

namespace Forest

variable {β : Type*} (F : Forest β)

/-- The node `k` links above `x` on the way to its root. -/
def up : ℕ → β → Option β
  | 0, x => some x
  | k + 1, x => (F.parent x).bind (up k)

@[simp] theorem up_zero (x : β) : F.up 0 x = some x := rfl

variable {F} {x y z t : β} {k j : ℕ}

theorem up_succ_eq (k : ℕ) (x : β) : F.up (k + 1) x = (F.parent x).bind (F.up k) := rfl

/-- Steps up add. -/
theorem up_add (j k : ℕ) (x : β) : F.up (j + k) x = (F.up j x).bind (F.up k) := by
  induction j generalizing x with
  | zero => rw [Nat.zero_add, up_zero, Option.bind_some]
  | succ j ih =>
    rw [Nat.succ_add, up_succ_eq, up_succ_eq, Option.bind_assoc]
    congr 1
    exact funext ih

/-- The last link is the parent of the node before it. -/
theorem up_succ (k : ℕ) (x : β) : F.up (k + 1) x = (F.up k x).bind F.parent := by
  rw [up_add]
  congr 1
  funext y
  rw [up_succ_eq]
  cases F.parent y <;> rfl

/-- Each step up is one rank down. -/
theorem rank_up (h : F.up k x = some y) : F.rank x = F.rank y + k := by
  induction k generalizing y with
  | zero =>
    obtain rfl := Option.some.inj h
    rfl
  | succ k ih =>
    rw [up_succ] at h
    obtain ⟨z, h_z, h_parent⟩ := Option.bind_eq_some_iff.mp h
    rw [ih h_z, F.rank_parent h_parent]
    omega

/-- On the way to a node that is reached, every number of links reaches one. -/
theorem up_isSome (h : F.up k x = some y) (h_le : j ≤ k) : ∃ z, F.up j x = some z := by
  obtain ⟨i, rfl⟩ := Nat.exists_eq_add_of_le h_le
  rw [up_add] at h
  obtain ⟨z, h_z, -⟩ := Option.bind_eq_some_iff.mp h
  exact ⟨z, h_z⟩

/-- Of two nodes above `x`, the further one is above the nearer one. -/
theorem up_sub (h_y : F.up k x = some y) (h_z : F.up j x = some z) (h_le : j ≤ k) :
    F.up (k - j) z = some y := by
  obtain ⟨i, rfl⟩ := Nat.exists_eq_add_of_le h_le
  rw [up_add, h_z, Option.bind_some] at h_y
  rwa [Nat.add_sub_cancel_left]

variable (F) in
/-- `y` is `x` or lies above it. -/
def IsAncestor (y x : β) : Prop := ∃ k, F.up k x = some y

theorem IsAncestor.refl (x : β) : F.IsAncestor x x := ⟨0, rfl⟩

theorem IsAncestor.trans (h₁ : F.IsAncestor z y) (h₂ : F.IsAncestor y x) : F.IsAncestor z x := by
  obtain ⟨j, h_j⟩ := h₁
  obtain ⟨k, h_k⟩ := h₂
  exact ⟨k + j, by rw [up_add, h_k, Option.bind_some, h_j]⟩

theorem isAncestor_of_parent (h : F.parent x = some y) : F.IsAncestor y x :=
  ⟨1, by rw [up_succ, up_zero, Option.bind_some, h]⟩

theorem IsAncestor.rank_le (h : F.IsAncestor y x) : F.rank y ≤ F.rank x := by
  obtain ⟨k, h_k⟩ := h
  rw [rank_up h_k]
  exact Nat.le_add_right _ _

/-- An ancestor is found at its distance in rank. -/
theorem IsAncestor.up_eq (h : F.IsAncestor y x) : F.up (F.rank x - F.rank y) x = some y := by
  obtain ⟨k, h_k⟩ := h
  have h_rank := rank_up h_k
  rwa [h_rank, Nat.add_sub_cancel_left]

/-- Of two ancestors of a node, the one of smaller rank is an ancestor of the other. -/
theorem IsAncestor.of_rank_le (h_y : F.IsAncestor y x) (h_z : F.IsAncestor z x)
    (h_le : F.rank y ≤ F.rank z) : F.IsAncestor y z :=
  ⟨_, up_sub h_y.up_eq h_z.up_eq (by omega)⟩

/-- There is one ancestor of each rank. -/
theorem IsAncestor.eq_of_rank (h_y : F.IsAncestor y x) (h_z : F.IsAncestor z x)
    (h_eq : F.rank y = F.rank z) : y = z := by
  -- the rank says how many links away they are
  have h_up := h_y.up_eq
  rw [h_eq, h_z.up_eq] at h_up
  exact (Option.some.inj h_up).symm

/-- The ancestor just above another ancestor `y` of `x` is its parent. -/
theorem IsAncestor.parent_eq (h_y : F.IsAncestor y x) (h_z : F.IsAncestor z x)
    (h_rank : F.rank y = F.rank z + 1) : F.parent y = some z := by
  have h_up := (h_z.of_rank_le h_y (by omega)).up_eq
  rw [h_rank, Nat.add_sub_cancel_left, up_succ, up_zero, Option.bind_some] at h_up
  exact h_up

/-- A proper ancestor of a node is an ancestor of its parent. -/
theorem IsAncestor.parent (h : F.IsAncestor y x) (h_ne : y ≠ x) :
    ∃ p, F.parent x = some p ∧ F.IsAncestor y p := by
  obtain ⟨_ | k, h_k⟩ := h
  · exact absurd (Option.some.inj h_k).symm h_ne
  · rw [up_succ_eq] at h_k
    obtain ⟨p, h_p, h_k⟩ := Option.bind_eq_some_iff.mp h_k
    exact ⟨p, h_p, k, h_k⟩

/-- Between an ancestor and a node there is an ancestor of every rank. -/
theorem IsAncestor.exists_rank (h : F.IsAncestor y x) {n : ℕ} (h_lo : F.rank y ≤ n)
    (h_hi : n ≤ F.rank x) : ∃ z, F.IsAncestor z x ∧ F.rank z = n := by
  -- going up from `x`, the ranks fall one by one
  obtain ⟨z, h_z⟩ := up_isSome h.up_eq (show F.rank x - n ≤ F.rank x - F.rank y by omega)
  refine ⟨z, ⟨_, h_z⟩, ?_⟩
  have h_rank := rank_up h_z
  omega

/-! ### Segments -/

variable (F) in
/-- The ancestor of `x` of rank `n`. -/
def ancestorAt (x : β) (n : ℕ) : Option β :=
  if n ≤ F.rank x then F.up (F.rank x - n) x else none

/-- Which ancestor has a rank. -/
theorem ancestorAt_eq_some {n : ℕ} :
    F.ancestorAt x n = some y ↔ F.IsAncestor y x ∧ F.rank y = n := by
  unfold ancestorAt
  split_ifs with h_le
  · refine ⟨?_, ?_⟩
    · intro h_up
      have h_rank := rank_up h_up
      exact ⟨⟨_, h_up⟩, by omega⟩
    -- the number of steps is the difference of the ranks
    · rintro ⟨h_anc, rfl⟩
      exact h_anc.up_eq
  · refine ⟨?_, ?_⟩
    · rintro ⟨⟩
    · rintro ⟨h_anc, rfl⟩
      exact absurd h_anc.rank_le h_le

variable (F) in
/-- The ancestors of `x` of the ranks from `lo` up to, not including, `hi`. -/
def segment (x : β) (lo hi : ℕ) : List β :=
  (List.range' lo (hi - lo)).filterMap (F.ancestorAt x)

variable {lo mid hi : ℕ}

/-- What is in a segment of a chain. -/
@[simp] theorem mem_segment :
    y ∈ F.segment x lo hi ↔ F.IsAncestor y x ∧ lo ≤ F.rank y ∧ F.rank y < hi := by
  unfold segment
  simp only [List.mem_filterMap, List.mem_range'_1, ancestorAt_eq_some]
  refine ⟨?_, ?_⟩
  · rintro ⟨n, h_n, h_anc, rfl⟩
    exact ⟨h_anc, h_n.1, by omega⟩
  · rintro ⟨h_anc, h_lo, h_hi⟩
    exact ⟨F.rank y, by omega, h_anc, rfl⟩

/-- A segment rises. -/
theorem segment_sorted (x : β) (lo hi : ℕ) :
    (F.segment x lo hi).Pairwise fun y z => F.rank y < F.rank z := by
  unfold segment
  rw [List.pairwise_filterMap]
  refine (List.pairwise_lt_range').imp fun {m n} h_lt y h_y z h_z => ?_
  rw [(ancestorAt_eq_some.mp h_y).2, (ancestorAt_eq_some.mp h_z).2]
  exact h_lt

theorem segment_eq_nil (h : hi ≤ lo) : F.segment x lo hi = [] := by
  unfold segment
  rw [Nat.sub_eq_zero_of_le h]
  rfl

/-- Adjacent segments are one. -/
theorem segment_append (h₁ : lo ≤ mid) (h₂ : mid ≤ hi) :
    F.segment x lo mid ++ F.segment x mid hi = F.segment x lo hi := by
  unfold segment
  rw [← List.filterMap_append]
  congr 1
  -- the ranks of the two segments are those of the whole
  have h_range := @List.range'_append lo (mid - lo) (hi - mid) 1
  rw [Nat.one_mul, Nat.add_sub_cancel' h₁] at h_range
  rw [h_range]
  congr 1
  omega

theorem nodup_of_sorted {l : List β} (h : l.Pairwise fun y z => F.rank y < F.rank z) : l.Nodup :=
  h.imp fun {_ _} h_lt h_eq => h_lt.ne (congrArg F.rank h_eq)

theorem segment_nodup (x : β) (lo hi : ℕ) : (F.segment x lo hi).Nodup :=
  nodup_of_sorted (segment_sorted x lo hi)

/-- Lists sorted by rank with the same members are equal. -/
theorem eq_of_sorted {l l' : List β} (h : l.Pairwise fun y z => F.rank y < F.rank z)
    (h' : l'.Pairwise fun y z => F.rank y < F.rank z) (h_mem : ∀ y, y ∈ l ↔ y ∈ l') :
    l = l' := by
  -- two sorted lists with the same members are permutations of each other
  apply List.Perm.eq_of_pairwise (fun y z _ _ h₁ h₂ => absurd h₁ (not_lt.mpr h₂.le)) h h'
  exact (List.perm_ext_iff_of_nodup (nodup_of_sorted h) (nodup_of_sorted h')).mpr h_mem

/-- A list sorted by rank is a segment if its members are those of the segment. -/
theorem eq_segment {l : List β} (h : l.Pairwise fun y z => F.rank y < F.rank z)
    (h_mem : ∀ y, y ∈ l ↔ F.IsAncestor y x ∧ lo ≤ F.rank y ∧ F.rank y < hi) :
    l = F.segment x lo hi :=
  eq_of_sorted h (segment_sorted x lo hi) fun y => (h_mem y).trans mem_segment.symm

/-- A segment only depends on an ancestor that lies above all of it. -/
theorem segment_congr (h_y : F.IsAncestor y x) (h_hi : hi ≤ F.rank y + 1) :
    F.segment x lo hi = F.segment y lo hi := by
  apply eq_segment (segment_sorted x lo hi)
  intro z
  -- below `y`, the ancestors of `x` are those of `y`
  rw [mem_segment]
  refine ⟨?_, ?_⟩
  · rintro ⟨h_z, h_rank⟩
    exact ⟨h_z.of_rank_le h_y (by omega), h_rank⟩
  · rintro ⟨h_z, h_rank⟩
    exact ⟨h_z.trans h_y, h_rank⟩

/-- A segment up to one of its nodes is a segment. -/
theorem segment_split {ys zs : List β} (h : F.segment x lo hi = ys ++ y :: zs) :
    ys ++ [y] = F.segment x lo (F.rank y + 1) := by
  have h_sorted := @segment_sorted _ F x lo hi
  have h_mem : ∀ z, z ∈ ys ++ y :: zs ↔ F.IsAncestor z x ∧ lo ≤ F.rank z ∧ F.rank z < hi := by
    intro z
    rw [← h, mem_segment]
  have h_split : F.segment x lo hi = (ys ++ [y]) ++ zs := by
    rw [h, List.append_assoc, List.singleton_append]
  -- what stands before and behind `y` is below and above it
  rw [h] at h_sorted
  obtain ⟨h_ys, h_yzs, h_cross⟩ := List.pairwise_append.mp h_sorted
  refine eq_segment ?_ fun z => ⟨fun h_z => ?_, fun ⟨h_anc, h_lo, h_hi⟩ => ?_⟩
  · have h_all := @segment_sorted _ F x lo hi
    rw [h_split] at h_all
    exact (List.pairwise_append.mp h_all).1
  -- what is not above `y` is `y` or stands before it
  · have h_le : F.rank z ≤ F.rank y := by
      rcases List.mem_append.mp h_z with h_z | h_z
      · exact (h_cross z h_z y List.mem_cons_self).le
      · rw [List.mem_singleton.mp h_z]
    have h_in := (h_mem z).mp (by
      rcases List.mem_append.mp h_z with h_z | h_z
      · exact List.mem_append_left _ h_z
      · rw [List.mem_singleton.mp h_z]; simp)
    exact ⟨h_in.1, h_in.2.1, by omega⟩
  · -- what is not above `y` cannot be among `zs`
    have h_y := (h_mem y).mp (by simp)
    have h_z := (h_mem z).mpr ⟨h_anc, h_lo, by omega⟩
    rcases List.mem_append.mp h_z with h_z | h_z
    · exact List.mem_append_left _ h_z
    · rcases List.mem_cons.mp h_z with rfl | h_z
      · simp
      · have h_lt := (List.pairwise_cons.mp h_yzs).1 z h_z
        omega

/-- Each node of a segment is the parent of the next. -/
theorem segment_isChain (x : β) (lo hi : ℕ) :
    (F.segment x lo hi).IsChain fun y z => F.parent z = some y := by
  -- a segment has all ancestors of `x` between two of its nodes; this is kept while the
  -- list is taken apart from its lower end
  have h_convex : ∀ y ∈ F.segment x lo hi, ∀ z, F.IsAncestor z x → F.rank y ≤ F.rank z →
      F.rank z < hi → z ∈ F.segment x lo hi := by
    intro y h_y z h_z h_le h_hi
    rw [mem_segment] at h_y ⊢
    exact ⟨h_z, h_y.2.1.trans h_le, h_hi⟩
  have h_anc : ∀ y ∈ F.segment x lo hi, F.IsAncestor y x ∧ F.rank y < hi := by
    intro y h_y
    rw [mem_segment] at h_y
    exact ⟨h_y.1, h_y.2.2⟩
  have h_sorted := segment_sorted (F := F) x lo hi
  generalize F.segment x lo hi = l at *
  induction l with
  | nil => exact .nil
  | cons y l ih =>
    cases l with
    | nil => exact .singleton y
    | cons z l =>
      obtain ⟨h_y, h_tail⟩ := List.pairwise_cons.mp h_sorted
      obtain ⟨h_z, -⟩ := List.pairwise_cons.mp h_tail
      refine List.isChain_cons_cons.mpr ⟨?_, ih ?_ (fun w h_w => h_anc w (by simp [h_w])) h_tail⟩
      -- the parent of `z` is in the list and below `z`, so it is `y`
      · have h_lt := h_y z (by simp)
        obtain ⟨h_anc_z, h_hi⟩ := h_anc z (by simp)
        obtain ⟨p, h_p, h_rank⟩ := (h_anc y (by simp)).1.exists_rank
          (show F.rank y ≤ F.rank z - 1 by omega) (by have := h_anc_z.rank_le; omega)
        have h_mem := h_convex y (by simp) p h_p (by omega) (by omega)
        have h_eq : p = y := by
          rcases List.mem_cons.mp h_mem with rfl | h_mem
          · rfl
          · rcases List.mem_cons.mp h_mem with rfl | h_mem
            · omega
            · have := h_z p h_mem
              omega
        rw [← h_eq]
        exact h_anc_z.parent_eq h_p (by omega)
      · intro w h_w v h_v h_le h_hi
        have h_mem := h_convex w (List.mem_cons_of_mem y h_w) v h_v h_le h_hi
        rcases List.mem_cons.mp h_mem with rfl | h_mem
        · have := h_y w h_w
          omega
        · exact h_mem

/-! ### Walking through a set of nodes -/

section Walks

variable {M N : Set β} {n : ℕ} {p : β}

variable (F M) in
/-- `y` is reached from `x` in at most `n` links, none of which leads into `M`. -/
def Walked (n : ℕ) (x y : β) : Prop :=
  ∃ k ≤ n, F.up k x = some y ∧ ∀ j z, 0 < j → j ≤ k → F.up j x = some z → z ∉ M

theorem Walked.isAncestor (h : F.Walked M n x y) : F.IsAncestor y x := by
  obtain ⟨k, -, h_up, -⟩ := h
  exact ⟨k, h_up⟩

theorem walked_self (n : ℕ) (x : β) : F.Walked M n x x :=
  ⟨0, Nat.zero_le n, rfl, fun j z h_pos h_le => absurd h_pos (by omega)⟩

/-- A walk of no steps stays. -/
@[simp] theorem walked_zero : F.Walked M 0 x y ↔ y = x := by
  refine ⟨?_, ?_⟩
  · rintro ⟨k, h_k, h_up, -⟩
    obtain rfl := Nat.le_zero.mp h_k
    exact (Option.some.inj h_up).symm
  · rintro rfl
    exact walked_self _ _

/-- A walk is its start, or goes on from the parent if that is outside `M`. -/
theorem walked_succ :
    F.Walked M (n + 1) x y ↔ y = x ∨ ∃ p, F.parent x = some p ∧ p ∉ M ∧ F.Walked M n p y := by
  refine ⟨?_, ?_⟩
  -- either no link was taken, or the first one leads to the parent
  · rintro ⟨_ | k, h_k, h_up, h_out⟩
    · exact Or.inl (Option.some.inj h_up).symm
    · rw [up_succ_eq] at h_up
      obtain ⟨p, h_p, h_up⟩ := Option.bind_eq_some_iff.mp h_up
      refine Or.inr ⟨p, h_p, ?_, k, by omega, h_up, fun j z h_pos h_le h_z => ?_⟩
      · exact h_out 1 p one_pos (by omega) (by rw [up_succ_eq, h_p]; rfl)
      · exact h_out (j + 1) z (by omega) (by omega) (by rw [up_succ_eq, h_p]; exact h_z)
  · rintro (rfl | ⟨p, h_p, h_out, k, h_k, h_up, h_rest⟩)
    · exact walked_self _ _
    · refine ⟨k + 1, by omega, by rw [up_succ_eq, h_p]; exact h_up, fun j z h_pos h_le h_z => ?_⟩
      obtain ⟨j, rfl⟩ : ∃ i, j = i + 1 := ⟨j - 1, by omega⟩
      rw [up_succ_eq, h_p, Option.bind_some] at h_z
      rcases Nat.eq_zero_or_pos j with rfl | h_j
      · obtain rfl := Option.some.inj h_z
        exact h_out
      · exact h_rest j z h_j (by omega) h_z

/-- A walk that has nowhere to go is its start. -/
theorem walked_of_stop (h : ∀ p, F.parent x = some p → p ∈ M) : F.Walked M n x y ↔ y = x := by
  cases n with
  | zero => exact walked_zero
  | succ n =>
    rw [walked_succ, or_iff_left]
    rintro ⟨p, h_p, h_out, -⟩
    exact h_out (h p h_p)

/-- A walk does not notice nodes of `M` that are not below its start. -/
theorem walked_congr (h : ∀ z, F.rank z < F.rank x → (z ∈ M ↔ z ∈ N)) :
    F.Walked M n x y ↔ F.Walked N n x y := by
  unfold Walked
  refine exists_congr fun k => and_congr_right fun _ => and_congr_right fun _ => ?_
  refine forall₄_congr fun j z h_pos _ => forall_congr' fun h_z => not_congr (h z ?_)
  -- a walk only meets nodes that are lower than its start
  rw [rank_up h_z]
  omega

variable (F M) in
/-- `y` is reached from `t` through nodes of `M` only. -/
def OnChain (t y : β) : Prop :=
  ∃ k, F.up k t = some y ∧ ∀ j z, j ≤ k → F.up j t = some z → z ∈ M

theorem OnChain.isAncestor (h : F.OnChain M t y) : F.IsAncestor y t := by
  obtain ⟨k, h_up, -⟩ := h
  exact ⟨k, h_up⟩

theorem OnChain.mem (h : F.OnChain M t y) : y ∈ M := by
  obtain ⟨k, h_up, h_in⟩ := h
  exact h_in k y le_rfl h_up

theorem onChain_self (h : t ∈ M) : F.OnChain M t t := by
  refine ⟨0, rfl, fun j z h_j h_z => ?_⟩
  obtain rfl := Nat.le_zero.mp h_j
  obtain rfl := Option.some.inj h_z
  exact h

/-- A chain is its start, or goes on from the parent. -/
theorem onChain_iff :
    F.OnChain M t y ↔ t ∈ M ∧ (y = t ∨ ∃ p, F.parent t = some p ∧ F.OnChain M p y) := by
  refine ⟨?_, ?_⟩
  · rintro ⟨k, h_up, h_in⟩
    refine ⟨h_in 0 t (Nat.zero_le k) rfl, ?_⟩
    rcases k with _ | k
    · exact Or.inl (Option.some.inj h_up).symm
    · rw [up_succ_eq] at h_up
      obtain ⟨p, h_p, h_up⟩ := Option.bind_eq_some_iff.mp h_up
      refine Or.inr ⟨p, h_p, k, h_up, fun j z h_j h_z => ?_⟩
      exact h_in (j + 1) z (by omega) (by rw [up_succ_eq, h_p]; exact h_z)
  -- the node is on the chain, or the chain goes on from its parent
  · rintro ⟨h_t, rfl | ⟨p, h_p, k, h_up, h_in⟩⟩
    · exact onChain_self h_t
    · refine ⟨k + 1, by rw [up_succ_eq, h_p]; exact h_up, fun j z h_j h_z => ?_⟩
      rcases j with _ | j
      · obtain rfl := Option.some.inj h_z
        exact h_t
      · rw [up_succ_eq, h_p, Option.bind_some] at h_z
        exact h_in j z (by omega) h_z

/-- A walk stays above the ancestors of its start that are in `M`. -/
theorem Walked.rank_lt (h : F.Walked M n x y) (h_t : t ∈ M) (h_anc : F.IsAncestor t x)
    (h_lt : F.rank t < F.rank x) : F.rank t < F.rank y := by
  obtain ⟨k, -, h_up, h_out⟩ := h
  have h_rank := rank_up h_up
  -- otherwise the walk has passed through `t`
  by_contra h_le
  exact h_out (F.rank x - F.rank t) t (by omega) (by omega) h_anc.up_eq h_t

/-- A chain has all the ancestors of its start down to its end. -/
theorem OnChain.mem_between (h : F.OnChain M t y) (h_x : F.IsAncestor x t)
    (h_le : F.rank y ≤ F.rank x) : x ∈ M := by
  obtain ⟨k, h_up, h_in⟩ := h
  have h_rank := rank_up h_up
  exact h_in (F.rank t - F.rank x) x (by omega) h_x.up_eq

/-! ### Lines of ancestors -/

variable (F) in
/-- The ancestors of a node from a rank on. -/
def ancestorsFrom (x : β) (lo : ℕ) : Set β := { y | F.IsAncestor y x ∧ lo ≤ F.rank y }

variable {lo : ℕ}

/-- Which ancestors are those from a rank on. -/
theorem mem_ancestorsFrom : y ∈ F.ancestorsFrom x lo ↔ F.IsAncestor y x ∧ lo ≤ F.rank y := Iff.rfl

/-- A walk that meets nothing goes as far as it may. -/
theorem walked_empty : F.Walked ∅ n x y ↔ y ∈ F.ancestorsFrom x (F.rank x - n) := by
  refine ⟨?_, ?_⟩
  · rintro ⟨k, h_k, h_up, -⟩
    have h_rank := rank_up h_up
    exact ⟨⟨k, h_up⟩, by omega⟩
  · rintro ⟨⟨k, h_up⟩, h_lo⟩
    have h_rank := rank_up h_up
    exact ⟨k, by omega, h_up, fun j z _ _ _ => Set.notMem_empty z⟩

/-- All of them are on the chain. -/
theorem onChain_ancestorsFrom :
    F.OnChain (F.ancestorsFrom x lo) x y ↔ y ∈ F.ancestorsFrom x lo := by
  refine ⟨?_, ?_⟩
  · intro h
    exact h.mem
  · rintro ⟨⟨k, h_up⟩, h_lo⟩
    refine ⟨k, h_up, fun j z h_j h_z => ⟨⟨j, h_z⟩, ?_⟩⟩
    -- what lies between has a greater rank
    have h_rank := rank_up h_up
    have h_rank' := rank_up h_z
    omega

/-- The ancestors of a child are those of its parent and the child. -/
theorem isAncestor_child (h_parent : F.parent x = some t) :
    F.IsAncestor y x ↔ y = x ∨ F.IsAncestor y t := by
  refine ⟨?_, ?_⟩
  · intro h
    by_cases h_eq : y = x
    · exact Or.inl h_eq
    · obtain ⟨p, h_p, h_anc⟩ := h.parent h_eq
      rw [h_parent] at h_p
      exact Or.inr (Option.some.inj h_p ▸ h_anc)
  · rintro (rfl | h)
    · exact .refl _
    · exact h.trans (isAncestor_of_parent h_parent)

end Walks

end Forest

end Ethiso
