import Ethiso.Events.PendingEvents
import Ethiso.Framework.Forest

/-!
# The blocks of the node

The node serves a block tree: each hash names at most one block, the parent of a
block is served too and has the number before, and the parent hash zero is that
of a block without parent. Nothing is asked of the shape of the tree: forks of
any depth, and several roots, are allowed.

A tree is a forest in the sense of `Framework.Forest`, ranked by block numbers,
so the general facts on ancestors apply to blocks. A node that *answers by* a
tree may fail to answer (`AnswersBy`); one that *serves* it does not (`Serves`).
-/

namespace Ethiso

/-- The blocks that a node can serve: those with a parent are numbered one above it. -/
structure BlockTree where
  block : Hash → Option BlockInfo
  hash_eq : ∀ {h b}, block h = some b → b.hash = h
  parent_served : ∀ {h b}, block h = some b →
    b.parentHash = 0 ∨ ∃ p, block b.parentHash = some p ∧ b.number = p.number + 1
  no_zero : block 0 = none

namespace BlockTree

instance : Membership BlockInfo BlockTree := ⟨fun T b => T.block b.hash = some b⟩

variable {T : BlockTree} {b p : BlockInfo} {h : Hash}

/-- A block is in the tree if it is served under its hash. -/
theorem mem_def : b ∈ T ↔ T.block b.hash = some b := Iff.rfl

theorem mem_of_block (h_b : T.block h = some b) : b ∈ T := by
  rw [mem_def, T.hash_eq h_b]
  exact h_b

/-- The hash of a block identifies it. -/
theorem eq_of_hash (h_b : b ∈ T) (h_p : p ∈ T) (h_eq : b.hash = p.hash) : b = p := by
  rw [mem_def] at h_b h_p
  rw [h_eq, h_p] at h_b
  exact (Option.some.inj h_b).symm

variable (T) in
/-- The blocks of the tree and their parents, ranked by number. -/
def forest : Forest BlockInfo where
  parent b := if T.block b.hash = some b then T.block b.parentHash else none
  rank b := b.number
  rank_parent := by
    intro b p h_parent
    split_ifs at h_parent with h_b
    rcases T.parent_served h_b with h_zero | ⟨q, h_q, h_number⟩
    · rw [h_zero, T.no_zero] at h_parent
      cases h_parent
    · rw [h_q] at h_parent
      obtain rfl := Option.some.inj h_parent
      exact h_number

@[simp] theorem forest_rank (b : BlockInfo) : T.forest.rank b = b.number := rfl

/-- The parent is what the parent hash is served with. -/
theorem forest_parent (h_b : b ∈ T) : T.forest.parent b = T.block b.parentHash := if_pos h_b

/-- Parents are in the tree. -/
theorem mem_of_forest_parent (h_parent : T.forest.parent b = some p) :
    b ∈ T ∧ p ∈ T ∧ p.hash = b.parentHash := by
  have h_b : b ∈ T := by
    by_contra h_out
    rw [show T.forest.parent b = none from if_neg h_out] at h_parent
    cases h_parent
  rw [forest_parent h_b] at h_parent
  exact ⟨h_b, mem_of_block h_parent, T.hash_eq h_parent⟩

/-- A block without a parent has the hash zero in its place. -/
theorem forest_parent_eq_none (h_b : b ∈ T) : T.forest.parent b = none ↔ b.parentHash = 0 := by
  rw [forest_parent h_b]
  refine ⟨?_, ?_⟩
  · intro h_none
    rcases T.parent_served h_b with h_zero | ⟨p, h_p, -⟩
    · exact h_zero
    · rw [h_p] at h_none
      cases h_none
  · intro h_zero
    rw [h_zero, T.no_zero]

theorem parentHash_ne_zero (h_parent : T.forest.parent b = some p) : b.parentHash ≠ 0 := by
  intro h_zero
  have h_b := (mem_of_forest_parent h_parent).1
  rw [(forest_parent_eq_none h_b).mpr h_zero] at h_parent
  cases h_parent

/-- Ancestors of a block of the tree are in the tree. -/
theorem mem_of_isAncestor (h_anc : T.forest.IsAncestor p b) (h_b : b ∈ T) : p ∈ T := by
  obtain ⟨k, h_k⟩ := h_anc
  induction k generalizing b with
  | zero =>
    obtain rfl := Option.some.inj h_k
    exact h_b
  | succ k ih =>
    rw [Forest.up_succ_eq] at h_k
    obtain ⟨q, h_q, h_k⟩ := Option.bind_eq_some_iff.mp h_k
    exact ih (mem_of_forest_parent h_q).2.1 h_k

variable (T) in
/-- The block numbers of the tree are `int`s. -/
def Bounded : Prop := ∀ b ∈ T, b.number < 2 ^ 31

end BlockTree

/-! ### Nodes that serve a tree -/

/-- A node that answers a request for a block of the tree with that block, or not
at all. -/
def EthereumRpc.AnswersBy (rpc : EthereumRpc) (T : BlockTree) : Prop :=
  ∀ b ∈ T, rpc.eth_getBlockByHash b.hash = none ∨ rpc.eth_getBlockByHash b.hash = some b

/-- A node that answers every request for a block of the tree. -/
def EthereumRpc.Serves (rpc : EthereumRpc) (T : BlockTree) : Prop :=
  ∀ b ∈ T, rpc.eth_getBlockByHash b.hash = some b

/-- A node that serves the whole tree answers by it. -/
theorem EthereumRpc.Serves.answersBy {rpc : EthereumRpc} {T : BlockTree} (h : rpc.Serves T) :
    rpc.AnswersBy T :=
  fun b h_b => Or.inr (h b h_b)

/-! ### A chain without forks -/

/-- The block of number `n` in a chain without forks; its hash is `n + 1`. -/
def lineBlock (transactions : ℕ → List String) (n : ℕ) : BlockInfo :=
  ⟨n, n + 1, n, transactions n⟩

/-- A chain without forks, of all the blocks whose number is an `int`. -/
def BlockTree.line (transactions : ℕ → List String) : BlockTree where
  block h := if 0 < h ∧ h ≤ 2 ^ 31 then some (lineBlock transactions (h - 1)) else none
  hash_eq := by
    intro h b h_b
    split_ifs at h_b with h_range
    rw [← Option.some.inj h_b]
    exact Nat.sub_add_cancel h_range.1
  parent_served := by
    intro h b h_b
    split_ifs at h_b with h_range
    rw [← Option.some.inj h_b]
    rcases Nat.eq_zero_or_pos (h - 1) with h_zero | h_pos
    · exact Or.inl h_zero
    · refine Or.inr ⟨lineBlock transactions (h - 1 - 1), if_pos ?_, ?_⟩
      · exact ⟨h_pos, (Nat.sub_le h 1).trans h_range.2⟩
      · exact (Nat.sub_add_cancel h_pos).symm
  no_zero := rfl

/-- A node that serves the chain, with the given logs in each receipt. -/
def lineRpc (transactions : ℕ → List String) (logs : String → List LogEntry) : EthereumRpc where
  eth_getBlockByHash := (BlockTree.line transactions).block
  eth_getTransactionReceipt transactionHash := some ⟨logs transactionHash⟩

section Line

variable (transactions : ℕ → List String) (logs : String → List LogEntry)

theorem lineRpc_serves : (lineRpc transactions logs).Serves (BlockTree.line transactions) :=
  fun _ h_b => h_b

/-- The blocks of the line are in the tree. -/
theorem line_mem {n : ℕ} (h : n < 2 ^ 31) :
    lineBlock transactions n ∈ BlockTree.line transactions :=
  if_pos ⟨Nat.succ_pos n, h⟩

theorem exists_of_line_mem {b : BlockInfo} (h_b : b ∈ BlockTree.line transactions) :
    ∃ n < 2 ^ 31, b = lineBlock transactions n := by
  rw [BlockTree.mem_def] at h_b
  unfold BlockTree.line at h_b
  dsimp only at h_b
  split_ifs at h_b with h_range
  exact ⟨b.hash - 1, Nat.sub_one_lt_of_le h_range.1 h_range.2, (Option.some.inj h_b).symm⟩

theorem line_bounded : (BlockTree.line transactions).Bounded := by
  intro b h_b
  obtain ⟨n, h_n, rfl⟩ := exists_of_line_mem transactions h_b
  exact h_n

/-- Each is the parent of the next. -/
theorem line_parent {n : ℕ} (h : n + 1 < 2 ^ 31) :
    (BlockTree.line transactions).forest.parent (lineBlock transactions (n + 1)) =
      some (lineBlock transactions n) := by
  rw [BlockTree.forest_parent (line_mem transactions h)]
  exact if_pos ⟨Nat.succ_pos n, show n + 1 ≤ 2 ^ 31 by omega⟩

theorem line_isAncestor {m n : ℕ} (h_le : m ≤ n) (h : n < 2 ^ 31) :
    (BlockTree.line transactions).forest.IsAncestor (lineBlock transactions m)
      (lineBlock transactions n) := by
  induction n, h_le using Nat.le_induction with
  | base => exact .refl _
  | succ n h_le ih =>
    exact (ih (by omega)).trans (Forest.isAncestor_of_parent (line_parent transactions h))

end Line

end Ethiso
