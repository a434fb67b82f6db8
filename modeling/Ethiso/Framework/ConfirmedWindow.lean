import Ethiso.Framework.Forest

/-!
# Confirming one chain of a growing forest

An observer keeps a *window* of nodes, the highest `c` ranks it knows of. It is
shown a node, adds the walk up from it to the window, and hands out what falls
below the window: of these nodes it *confirms* those on the chain of a highest
node, by increasing rank, and forgets the others.

`Advances` is one such step. `Confirmed` is the invariant of the observer whose
nodes shown always connect to the window, and whose higher nodes always descend
from what it has confirmed: the nodes confirmed so far are the ancestors of the
current highest node from a fixed node, the base, up to `c` ranks below the
highest. Whatever forks the window holds, the confirmed nodes are a segment of
one chain: the first step begins it (`Confirmed.first`; `Confirmed.start` if the
nodes came about in another way), a higher node continues it
(`Confirmed.step_high`), and any other leaves it as it is (`Confirmed.step_low`).
-/

namespace Ethiso

namespace Forest

variable {β : Type*} (F : Forest β)

/-- The nodes kept once the walk up from `x` is added. -/
def imported (M : Set β) (n : ℕ) (x : β) : Set β := { y | y ∈ M ∨ F.Walked M n x y }

/-- With the nodes `M` and the greatest rank `H`, the observer confirms `D` and
keeps `M'`. -/
structure Advances (c : ℕ) (M : Set β) (H : ℕ) (M' : Set β) (D : List β) : Prop where
  top : ∃ t ∈ M, F.rank t = H
  top_le : ∀ y ∈ M, F.rank y ≤ H
  kept : ∀ y, y ∈ M' ↔ y ∈ M ∧ H < F.rank y + c
  due : ∀ y, y ∈ D ↔ F.rank y + c ≤ H ∧ ∃ t ∈ M, F.rank t = H ∧ F.OnChain M t y
  sorted : D.Pairwise fun y z => y ≠ z ∧ F.rank y ≤ F.rank z

/-- The window `M` with highest node `t`, and what has been confirmed. -/
structure Confirmed (c : ℕ) (base t : β) (M : Set β) (confirmed : List β) : Prop where
  top_mem : t ∈ M
  top_le : ∀ y ∈ M, F.rank y ≤ F.rank t
  window : ∀ y ∈ M, F.rank t < F.rank y + c
  base_anc : ∀ y ∈ M, F.IsAncestor base y
  closed : ∀ y ∈ M, y ≠ base → ∀ q, F.parent y = some q → F.rank t < F.rank q + c → q ∈ M
  confirmed_eq : confirmed = F.segment t (F.rank base) (F.rank t + 1 - c)

variable {F} {c n H : ℕ} {base t x y z : β} {M M' : Set β} {D confirmed : List β}

/-! ### Lines -/

/-- Into an empty window all ancestors within reach are imported. -/
theorem imported_empty (n : ℕ) (x : β) :
    F.imported ∅ n x = F.ancestorsFrom x (F.rank x - n) := by
  ext y
  simp only [imported, Set.mem_ofPred_eq, Set.mem_empty_iff_false, false_or]
  exact walked_empty

/-- The child of the highest node of a line makes it one longer. -/
theorem imported_child {lo : ℕ} (h_parent : F.parent x = some t) (h_lo : lo ≤ F.rank t)
    (n : ℕ) : F.imported (F.ancestorsFrom t lo) n x = F.ancestorsFrom x lo := by
  have h_stop : ∀ p, F.parent x = some p → p ∈ F.ancestorsFrom t lo := by
    intro p h_p
    rw [h_parent] at h_p
    obtain rfl := Option.some.inj h_p
    exact ⟨.refl _, h_lo⟩
  have h_rank := F.rank_parent h_parent
  ext y
  -- the walk stops at once, since the parent is there
  rw [mem_ancestorsFrom, isAncestor_child h_parent]
  simp only [imported, Set.mem_ofPred_eq, walked_of_stop h_stop, mem_ancestorsFrom]
  refine ⟨?_, ?_⟩
  · rintro (⟨h_anc, h_le⟩ | rfl)
    · exact ⟨Or.inr h_anc, h_le⟩
    · exact ⟨Or.inl rfl, by omega⟩
  · rintro ⟨rfl | h_anc, h_le⟩
    · exact Or.inr rfl
    · exact Or.inl ⟨h_anc, h_le⟩

/-! ### Chains through a set that is closed above a rank -/

/-- From a node of a set one reaches every ancestor that the set is closed up to. -/
theorem onChain_of_closed (base : β) (r : ℕ) (h_x : x ∈ M)
    (h_closed : ∀ y ∈ M, y ≠ base → ∀ q, F.parent y = some q → r ≤ F.rank q → q ∈ M)
    (h_base : F.IsAncestor base y) (h_y : F.IsAncestor y x) (h_r : r ≤ F.rank y) :
    F.OnChain M x y := by
  obtain ⟨k, h_k⟩ := h_y
  induction k generalizing x with
  | zero =>
    obtain rfl := Option.some.inj h_k
    exact onChain_self h_x
  | succ k ih =>
    rw [up_succ_eq] at h_k
    obtain ⟨q, h_q, h_k⟩ := Option.bind_eq_some_iff.mp h_k
    have h_anc : F.IsAncestor y q := ⟨k, h_k⟩
    have h_rank := F.rank_parent h_q
    -- the base has no proper ancestor as high as `y`, so `x` is not the base
    have h_ne : x ≠ base := by
      rintro rfl
      have h_le := h_anc.rank_le
      have h_le' := h_base.rank_le
      omega
    have h_mem := h_closed x h_x h_ne q h_q (h_r.trans h_anc.rank_le)
    exact onChain_iff.mpr ⟨h_x, Or.inr ⟨q, h_q, ih h_mem h_k⟩⟩

/-- Nodes on the chain of one node, sorted as `Advances` has it, increase. -/
theorem sorted_of_chain (h : D.Pairwise fun y z => y ≠ z ∧ F.rank y ≤ F.rank z)
    (h_anc : ∀ y ∈ D, F.IsAncestor y x) : D.Pairwise fun y z => F.rank y < F.rank z := by
  refine h.imp_of_mem fun {y z} h_y h_z h_yz => lt_of_le_of_ne h_yz.2 fun h_eq => ?_
  exact h_yz.1 ((h_anc y h_y).eq_of_rank (h_anc z h_z) h_eq)

/-! ### The first node -/

/-- The last node of a walk that meets nothing. -/
theorem exists_base (n : ℕ) (x : β) :
    ∃ base, F.Walked ∅ n x base ∧ ∀ y, F.Walked ∅ n x y →
      F.IsAncestor base y ∧ (y ≠ base → ∀ q, F.parent y = some q → F.Walked ∅ n x q) := by
  induction n generalizing x with
  | zero =>
    refine ⟨x, walked_self 0 x, fun y h_y => ?_⟩
    obtain rfl := walked_zero.mp h_y
    exact ⟨.refl y, fun h_ne => absurd rfl h_ne⟩
  | succ n ih =>
    -- the walk ends at `x` if this has no parent, and goes on from the parent otherwise
    cases h_parent : F.parent x with
    | none =>
      refine ⟨x, walked_self _ x, fun y h_y => ?_⟩
      have h_stop : ∀ q, F.parent x = some q → q ∈ (∅ : Set β) := by
        intro q h_q
        rw [h_parent] at h_q
        cases h_q
      obtain rfl := (walked_of_stop h_stop).mp h_y
      exact ⟨.refl y, fun h_ne => absurd rfl h_ne⟩
    | some p =>
      obtain ⟨base, h_base, h_all⟩ := ih p
      have h_up : ∀ y, F.Walked ∅ n p y → F.Walked ∅ (n + 1) x y := fun y h_y =>
        walked_succ.mpr (Or.inr ⟨p, h_parent, Set.notMem_empty p, h_y⟩)
      refine ⟨base, h_up base h_base, fun y h_y => ?_⟩
      rcases walked_succ.mp h_y with rfl | ⟨p', h_p', -, h_y⟩
      · refine ⟨h_base.isAncestor.trans (isAncestor_of_parent h_parent), fun _ q h_q => ?_⟩
        rw [h_parent] at h_q
        obtain rfl := Option.some.inj h_q
        exact h_up _ (walked_self n _)
      · rw [h_parent] at h_p'
        obtain rfl := Option.some.inj h_p'
        obtain ⟨h_anc, h_closed⟩ := h_all y h_y
        exact ⟨h_anc, fun h_ne q h_q => h_up q (h_closed h_ne q h_q)⟩

/-- The first step establishes the invariant. -/
theorem Confirmed.first (h_pos : 0 < c) (h : F.Advances c (F.imported ∅ n x) H M' D) :
    ∃ base, F.Walked ∅ n x base ∧ F.Confirmed c base x M' D := by
  obtain ⟨base, h_base, h_all⟩ := exists_base (F := F) n x
  have h_mem : ∀ y, y ∈ F.imported ∅ n x ↔ F.Walked ∅ n x y := fun y => by simp [imported]
  -- all nodes of the walk are ancestors of `x`, so `x` is the highest
  have h_top : H = F.rank x := by
    obtain ⟨t, h_t, rfl⟩ := h.top
    apply le_antisymm ((h_mem t).mp h_t).isAncestor.rank_le
    exact h.top_le x ((h_mem x).mpr (walked_self n x))
  subst h_top
  refine ⟨base, h_base, ?_⟩
  refine ⟨?_, ?_, ?_, ?_, ?_, ?_⟩
  · exact (h.kept x).mpr ⟨(h_mem x).mpr (walked_self n x), by omega⟩
  · exact fun y h_y => h.top_le y ((h.kept y).mp h_y).1
  · exact fun y h_y => ((h.kept y).mp h_y).2
  · exact fun y h_y => (h_all y ((h_mem y).mp ((h.kept y).mp h_y).1)).1
  · intro y h_y h_ne q h_q h_rank
    have h_walked := (h_mem y).mp ((h.kept y).mp h_y).1
    exact (h.kept q).mpr ⟨(h_mem q).mpr ((h_all y h_walked).2 h_ne q h_q), h_rank⟩
  · -- the nodes due are those of the walk that are low enough
    have h_due : ∀ y, y ∈ D ↔
        F.IsAncestor y x ∧ F.rank base ≤ F.rank y ∧ F.rank y < F.rank x + 1 - c := by
      intro y
      rw [h.due]
      refine ⟨?_, ?_⟩
      · rintro ⟨h_low, t, h_t, h_rank, h_chain⟩
        have h_walked := (h_mem y).mp h_chain.mem
        exact ⟨h_walked.isAncestor, (h_all y h_walked).1.rank_le, by omega⟩
      · rintro ⟨h_anc, h_le, h_low⟩
        refine ⟨by omega, x, (h_mem x).mpr (walked_self n x), rfl, ?_⟩
        refine onChain_of_closed base 0 ((h_mem x).mpr (walked_self n x)) ?_
          (h_base.isAncestor.of_rank_le h_anc h_le) h_anc (Nat.zero_le _)
        intro z h_z h_ne q h_q _
        exact (h_mem q).mpr ((h_all z ((h_mem z).mp h_z)).2 h_ne q h_q)
    exact eq_segment (sorted_of_chain h.sorted fun y h_y => ((h_due y).mp h_y).1) h_due

/-- From nodes that are all ancestors of `x`, however they came about, the first
step that confirms a node establishes the invariant, based on the lowest one. -/
theorem Confirmed.start (h_pos : 0 < c) (h : F.Advances c M H M' D) (h_x : x ∈ M)
    (h_anc : ∀ y ∈ M, F.IsAncestor y x) (h_ne : D ≠ []) :
    ∃ base, F.Confirmed c base x M' D := by
  have h_top : H = F.rank x := by
    obtain ⟨t, h_t, rfl⟩ := h.top
    exact le_antisymm (h_anc t h_t).rank_le (h.top_le x h_x)
  subst h_top
  -- the chain that counts is that of `x`
  have h_chain : ∀ y ∈ D, F.OnChain M x y := by
    intro y h_y
    obtain ⟨-, t, h_t, h_rank, h_chain⟩ := (h.due y).mp h_y
    obtain rfl := (h_anc t h_t).eq_of_rank (.refl x) h_rank
    exact h_chain
  have h_sorted := sorted_of_chain h.sorted fun y h_y => (h_chain y h_y).isAncestor
  obtain ⟨base, rest, rfl⟩ := List.exists_cons_of_ne_nil h_ne
  have h_base := h_chain base List.mem_cons_self
  have h_low := ((h.due base).mp List.mem_cons_self).1
  -- all nodes from the base on are on the chain
  have h_line : ∀ y, F.IsAncestor y x → F.rank base ≤ F.rank y → F.OnChain M x y := by
    rintro y ⟨k, h_k⟩ h_le
    refine ⟨k, h_k, fun j z h_j h_z => h_base.mem_between ⟨j, h_z⟩ ?_⟩
    have h_rank := rank_up h_k
    have h_rank' := rank_up h_z
    omega
  refine ⟨base, ?_, ?_, ?_, ?_, ?_, ?_⟩
  · exact (h.kept x).mpr ⟨h_x, by omega⟩
  · exact fun y h_y => h.top_le y ((h.kept y).mp h_y).1
  · exact fun y h_y => ((h.kept y).mp h_y).2
  · intro y h_y
    obtain ⟨h_mem, h_rank⟩ := (h.kept y).mp h_y
    exact h_base.isAncestor.of_rank_le (h_anc y h_mem) (by omega)
  · intro y h_y _ q h_q h_rank
    have h_q_anc := (isAncestor_of_parent h_q).trans (h_anc y ((h.kept y).mp h_y).1)
    exact (h.kept q).mpr ⟨h_base.mem_between h_q_anc (by omega), h_rank⟩
  · refine eq_segment h_sorted fun y => ⟨fun h_y => ?_, fun ⟨h_y, h_le, h_lt⟩ => ?_⟩
    · have h_le : F.rank base ≤ F.rank y := by
        rcases List.mem_cons.mp h_y with rfl | h_y
        · exact le_rfl
        · exact ((List.pairwise_cons.mp h_sorted).1 y h_y).le
      have h_y_low := ((h.due y).mp h_y).1
      exact ⟨(h_chain y h_y).isAncestor, h_le, by omega⟩
    · exact (h.due y).mpr ⟨by omega, x, h_x, rfl, h_line y h_y h_le⟩

/-! ### A further node -/

/-- A node whose walk meets the window is added with the nodes up to there. -/
theorem Confirmed.imported_spec (hc : F.Confirmed c base t M confirmed)
    (h_meets : ∃ k ≤ n, ∃ z ∈ M, F.up (k + 1) x = some z) :
    (∀ y ∈ F.imported M n x, F.IsAncestor base y ∧ F.rank t < F.rank y + c ∧
        F.rank y ≤ max (F.rank t) (F.rank x)) ∧
      ∀ y ∈ F.imported M n x, y ≠ base → ∀ q, F.parent y = some q → F.rank t < F.rank q + c →
        q ∈ F.imported M n x := by
  obtain ⟨k, h_k, z, h_z, h_up⟩ := h_meets
  -- a walked node is above `x` and below a node of the window
  have h_between : ∀ j y, F.up j x = some y →
      (∀ i w, 0 < i → i ≤ j → F.up i x = some w → w ∉ M) → F.IsAncestor z y ∧ j ≤ k := by
    intro j y h_y h_out
    have h_j : j ≤ k := by
      by_contra h_lt
      exact h_out (k + 1) z (Nat.succ_pos k) (by omega) h_up h_z
    exact ⟨⟨_, up_sub h_up h_y (by omega)⟩, h_j⟩
  refine ⟨?_, ?_⟩
  · rintro y (h_y | ⟨j, h_j, h_y, h_out⟩)
    · exact ⟨hc.base_anc y h_y, hc.window y h_y, le_max_of_le_left (hc.top_le y h_y)⟩
    · obtain ⟨h_anc, -⟩ := h_between j y h_y h_out
      have h_window := hc.window z h_z
      have h_le := h_anc.rank_le
      refine ⟨(hc.base_anc z h_z).trans h_anc, by omega, le_max_of_le_right ?_⟩
      exact (show F.IsAncestor y x from ⟨j, h_y⟩).rank_le
  · rintro y (h_y | ⟨j, h_j, h_y, h_out⟩) h_ne q h_q h_rank
    · exact Or.inl (hc.closed y h_y h_ne q h_q h_rank)
    · by_cases h_mem : q ∈ M
      · exact Or.inl h_mem
      · have h_q_up : F.up (j + 1) x = some q := by
          rw [up_succ, h_y, Option.bind_some, h_q]
        have h_out' : ∀ i w, 0 < i → i ≤ j + 1 → F.up i x = some w → w ∉ M := by
          intro i w h_i h_le h_w
          rcases Nat.lt_or_ge j i with h_lt | h_ge
          · obtain rfl : i = j + 1 := by omega
            rw [h_q_up] at h_w
            obtain rfl := Option.some.inj h_w
            exact h_mem
          · exact h_out i w h_i h_ge h_w
        obtain ⟨-, h_le⟩ := h_between (j + 1) q h_q_up h_out'
        exact Or.inr ⟨j + 1, by omega, h_q_up, h_out'⟩

/-- What falls due is on the chain of a node higher than all of the window. -/
theorem Confirmed.due_spec (hc : F.Confirmed c base t M confirmed)
    (h_meets : ∃ k ≤ n, ∃ z ∈ M, F.up (k + 1) x = some z) (h_z : z ∈ F.imported M n x)
    (h_top : ∀ w ∈ F.imported M n x, F.rank w ≤ F.rank z) (h_chain : F.OnChain (F.imported M n x) z y)
    (h_low : F.rank y + c ≤ F.rank z) :
    z = x ∧ F.rank t < F.rank x ∧ F.rank t < F.rank y + c := by
  obtain ⟨h_spec, -⟩ := hc.imported_spec h_meets
  have h_y := (h_spec y h_chain.mem).2.1
  have h_le := (h_spec z h_z).2.2
  have h_x := h_top x (Or.inr (walked_self n x))
  -- the new node is higher than the old tip
  have h_high : F.rank t < F.rank x := by omega
  refine ⟨?_, h_high, h_y⟩
  -- nothing that is there reaches as high as the new node
  rcases h_z with h_z | h_z
  · have h_z_le := hc.top_le z h_z
    omega
  · exact h_z.isAncestor.eq_of_rank (.refl x) (by omega)

/-- A node no higher than the highest one is only added to the window. -/
theorem Confirmed.step_low (hc : F.Confirmed c base t M confirmed)
    (h_meets : ∃ k ≤ n, ∃ z ∈ M, F.up (k + 1) x = some z) (h_low : F.rank x ≤ F.rank t)
    (h : F.Advances c (F.imported M n x) H M' D) :
    F.Confirmed c base t M' (confirmed ++ D) := by
  obtain ⟨h_spec, h_closed⟩ := hc.imported_spec h_meets
  have h_top : H = F.rank t := by
    obtain ⟨t', h_t', rfl⟩ := h.top
    refine le_antisymm ?_ (h.top_le t (Or.inl hc.top_mem))
    have h_le := (h_spec t' h_t').2.2
    omega
  subst h_top
  have h_kept : ∀ y, y ∈ M' ↔ y ∈ F.imported M n x := by
    intro y
    rw [h.kept]
    exact ⟨fun h_y => h_y.1, fun h_y => ⟨h_y, (h_spec y h_y).2.1⟩⟩
  -- nothing is `c` below the highest node, since the window had nothing there
  have h_nil : D = [] := by
    apply List.eq_nil_iff_forall_not_mem.mpr
    intro y h_y
    obtain ⟨h_rank, t', -, -, h_chain⟩ := (h.due y).mp h_y
    have h_window := (h_spec y h_chain.mem).2.1
    omega
  rw [h_nil, List.append_nil]
  refine ⟨?_, ?_, ?_, ?_, ?_, ?_⟩
  · exact (h_kept t).mpr (Or.inl hc.top_mem)
  · intro y h_y
    have h_le := (h_spec y ((h_kept y).mp h_y)).2.2
    omega
  · exact fun y h_y => (h_spec y ((h_kept y).mp h_y)).2.1
  · exact fun y h_y => (h_spec y ((h_kept y).mp h_y)).1
  · intro y h_y h_ne q h_q h_rank
    exact (h_kept q).mpr (h_closed y ((h_kept y).mp h_y) h_ne q h_q h_rank)
  · exact hc.confirmed_eq

/-- The segment confirmed before is continued on the chain of a higher node, if that has all
confirmed nodes as ancestors. -/
theorem Confirmed.continued (hc : F.Confirmed c base t M confirmed)
    (h_high : F.rank t < F.rank x) (h_desc : ∀ y ∈ confirmed, F.IsAncestor y x) :
    confirmed ++ F.segment x (max (F.rank base) (F.rank t + 1 - c)) (F.rank x + 1 - c) =
      F.segment x (F.rank base) (F.rank x + 1 - c) := by
  rw [hc.confirmed_eq]
  -- nothing has been confirmed yet, or something has
  by_cases h_none : F.rank t + 1 - c ≤ F.rank base
  · -- nothing was confirmed before
    rw [segment_eq_nil h_none, List.nil_append, max_eq_left h_none]
  · -- the last node confirmed is an ancestor of both highest nodes
    have h_last : ∃ w ∈ confirmed, F.rank w = F.rank t - c := by
      obtain ⟨w, h_w, h_rank⟩ := (hc.base_anc t hc.top_mem).exists_rank
        (show F.rank base ≤ F.rank t - c by omega) (Nat.sub_le _ _)
      refine ⟨w, ?_, h_rank⟩
      rw [hc.confirmed_eq, mem_segment]
      exact ⟨h_w, by omega, by omega⟩
    obtain ⟨w, h_w, h_rank⟩ := h_last
    have h_w_x := h_desc w h_w
    rw [hc.confirmed_eq, mem_segment] at h_w
    -- below the last confirmed node both chains are the same
    have h_same : F.segment t (F.rank base) (F.rank t + 1 - c) =
        F.segment x (F.rank base) (F.rank t + 1 - c) :=
      calc F.segment t (F.rank base) (F.rank t + 1 - c)
          = F.segment w (F.rank base) (F.rank t + 1 - c) := segment_congr h_w.1 (by omega)
        _ = F.segment x (F.rank base) (F.rank t + 1 - c) :=
            (segment_congr h_w_x (by omega)).symm
    rw [h_same, max_eq_right (by omega)]
    exact segment_append (by omega) (by omega)

/-- A higher node moves the window up, and confirms what falls out of it on its
own chain: this continues the segment confirmed before. -/
theorem Confirmed.step_high (hc : F.Confirmed c base t M confirmed) (h_pos : 0 < c)
    (h_meets : ∃ k ≤ n, ∃ z ∈ M, F.up (k + 1) x = some z) (h_high : F.rank t < F.rank x)
    (h_desc : ∀ y ∈ confirmed, F.IsAncestor y x)
    (h : F.Advances c (F.imported M n x) H M' D) :
    F.Confirmed c base x M' (confirmed ++ D) := by
  obtain ⟨h_spec, h_closed⟩ := hc.imported_spec h_meets
  have h_x : x ∈ F.imported M n x := Or.inr (walked_self n x)
  have h_top : H = F.rank x := by
    obtain ⟨t', h_t', rfl⟩ := h.top
    refine le_antisymm ?_ (h.top_le x h_x)
    have h_le := (h_spec t' h_t').2.2
    omega
  subst h_top
  -- no node of the window is as high as `x`, nor is any proper ancestor of `x`
  have h_only : ∀ t' ∈ F.imported M n x, F.rank t' = F.rank x → t' = x := by
    rintro t' (h_t' | h_t') h_rank
    · have h_le := hc.top_le t' h_t'
      omega
    · exact h_t'.isAncestor.eq_of_rank (.refl x) h_rank
  have h_base : F.IsAncestor base x := (h_spec x h_x).1
  -- what is due: the ancestors of `x` that the window held and no longer holds
  have h_due : ∀ y, y ∈ D ↔ F.IsAncestor y x ∧
      max (F.rank base) (F.rank t + 1 - c) ≤ F.rank y ∧ F.rank y < F.rank x + 1 - c := by
    intro y
    rw [h.due]
    refine ⟨?_, ?_⟩
    · rintro ⟨h_rank, t', h_t', h_eq, h_chain⟩
      obtain rfl := h_only t' h_t' h_eq
      obtain ⟨h_anc, h_window, -⟩ := h_spec y h_chain.mem
      exact ⟨h_chain.isAncestor, max_le h_anc.rank_le (by omega), by omega⟩
    · rintro ⟨h_anc, h_le, h_low⟩
      obtain ⟨h_le_base, h_le_window⟩ := max_le_iff.mp h_le
      refine ⟨by omega, x, h_x, rfl, ?_⟩
      refine onChain_of_closed base (F.rank t + 1 - c) h_x ?_
        (h_base.of_rank_le h_anc h_le_base) h_anc h_le_window
      exact fun z h_z h_ne q h_q h_r => h_closed z h_z h_ne q h_q (by omega)
  have h_D : D = F.segment x (max (F.rank base) (F.rank t + 1 - c)) (F.rank x + 1 - c) :=
    eq_segment (sorted_of_chain h.sorted fun y h_y => ((h_due y).mp h_y).1) h_due
  refine ⟨?_, ?_, ?_, ?_, ?_, ?_⟩
  · exact (h.kept x).mpr ⟨h_x, by omega⟩
  · intro y h_y
    exact h.top_le y ((h.kept y).mp h_y).1
  · exact fun y h_y => ((h.kept y).mp h_y).2
  · exact fun y h_y => (h_spec y ((h.kept y).mp h_y).1).1
  · intro y h_y h_ne q h_q h_rank
    refine (h.kept q).mpr ⟨?_, h_rank⟩
    exact h_closed y ((h.kept y).mp h_y).1 h_ne q h_q (by omega)
  · rw [h_D]
    exact hc.continued h_high h_desc

end Forest

end Ethiso
