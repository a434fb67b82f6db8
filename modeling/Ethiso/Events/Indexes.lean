import Ethiso.Events.BlockTree

/-!
# The two indexes and the import of blocks

`blockInfoMap` and `blockDepth` index the same blocks, by hash and by height.
Over a block tree they stay indexes of blocks of the tree (`Indexed`) whatever
happens: `blockInfoMap` only maps to blocks of the tree that `blockDepth` also
has. The other way round fails while exceptions are about, since a block that is
removed leaves `blockDepth` only at the end of the call; as long as calls return,
both have the same blocks (`Coherent`).

The import adds the blocks on the way from the announced block to the nearest
stored proper ancestor, as far as the limit on the requests allows
(`importBlocks_spec`). A request that fails ends it early, with the blocks found
so far stored and the parent of the last one missing (`Dangling`).
-/

namespace Ethiso

open Outcome

variable {α ι : Type*}

namespace PendingEvents

variable {T : BlockTree} {p : PendingEvents α ι} {b : BlockInfo} {rpc : EthereumRpc}

/-- The blocks that `blockInfoMap` has, each under its own hash. -/
def stored (p : PendingEvents α ι) : Set BlockInfo := { b | p.blockInfoMap b.hash = some b }

/-- A block is stored if it is found under its hash. -/
theorem mem_stored : b ∈ p.stored ↔ p.blockInfoMap b.hash = some b := Iff.rfl

/-- Both maps index blocks of the tree, and `blockDepth` has all that
`blockInfoMap` has. -/
structure Indexed (T : BlockTree) (p : PendingEvents α ι) : Prop where
  info_block : ∀ {h b}, p.blockInfoMap h = some b → T.block h = some b
  info_depth : ∀ {b}, b ∈ p.stored → b.hash ∈ p.hashesAt (javaInt b.number)
  depth_block : ∀ {n h}, h ∈ p.hashesAt n → ∃ b ∈ T, b.hash = h ∧ javaInt b.number = n
  nodup : ∀ n, (p.hashesAt n).Nodup
  ne_nil : ∀ n, p.blockDepth.get? n ≠ some []

/-- `blockInfoMap` has all the hashes of `blockDepth`. -/
def Coherent (p : PendingEvents α ι) : Prop :=
  ∀ n, ∀ h ∈ p.hashesAt n, p.blockInfoMap h ≠ none

/-- A hash that only `blockDepth` has: a call removed its block, and then threw. -/
def Stale (p : PendingEvents α ι) (n : ℤ) (h : Hash) : Prop :=
  h ∈ p.hashesAt n ∧ p.blockInfoMap h = none

/-- Nothing is stored at the start. -/
theorem indexed_init (T : BlockTree) : Indexed T (init : PendingEvents α ι) where
  info_block := by
    rintro h b ⟨⟩
  info_depth := by
    rintro b ⟨⟩
  depth_block := by
    rintro n h ⟨⟩
  nodup n := List.nodup_nil
  ne_nil n := by
    rintro ⟨⟩

theorem coherent_init : Coherent (init : PendingEvents α ι) := by
  rintro n h ⟨⟩

theorem Indexed.mem_tree (hp : Indexed T p) (h_b : b ∈ p.stored) : b ∈ T := hp.info_block h_b

/-- What is found under a hash is a stored block with that hash. -/
theorem Indexed.stored_of_info (hp : Indexed T p) {h : Hash} (h_b : p.blockInfoMap h = some b) :
    b ∈ p.stored ∧ b.hash = h := by
  have h_hash := T.hash_eq (hp.info_block h_b)
  rw [mem_stored, h_hash]
  exact ⟨h_b, rfl⟩

/-- A hash is kept at one height only. -/
theorem Indexed.height_unique (hp : Indexed T p) {m n : ℤ} {h : Hash} (h_m : h ∈ p.hashesAt m)
    (h_n : h ∈ p.hashesAt n) : m = n := by
  obtain ⟨b, h_b, h_hash, rfl⟩ := hp.depth_block h_m
  obtain ⟨b', h_b', h_hash', rfl⟩ := hp.depth_block h_n
  rw [BlockTree.eq_of_hash h_b h_b' (h_hash.trans h_hash'.symm)]

/-! ### Storing one block -/

/-- Storing a block changes its own hash only. -/
theorem storeBlock_blockInfoMap :
    (p.storeBlock b).blockInfoMap = Function.update p.blockInfoMap b.hash (some b) := rfl

theorem hashesAt_storeBlock (n : ℤ) :
    (p.storeBlock b).hashesAt n =
      if n = javaInt b.number then (p.hashesAt n).insert b.hash else p.hashesAt n := by
  unfold hashesAt storeBlock
  rw [SortedMap.get?_upsert]
  split_ifs with h_n
  · rw [h_n]
    rfl
  · rfl

/-- Which hashes stand at a number then. -/
theorem mem_hashesAt_storeBlock {n : ℤ} {h : Hash} :
    h ∈ (p.storeBlock b).hashesAt n ↔
      h ∈ p.hashesAt n ∨ (h = b.hash ∧ n = javaInt b.number) := by
  rw [hashesAt_storeBlock]
  split_ifs with h_n
  · rw [List.mem_insert_iff, or_comm]
    simp [h_n]
  · simp [h_n]

/-- Storing a block of the tree adds just this block. -/
theorem Indexed.mem_stored_storeBlock (hp : Indexed T p) (h_b : b ∈ T) {y : BlockInfo} :
    y ∈ (p.storeBlock b).stored ↔ y ∈ p.stored ∨ y = b := by
  rw [mem_stored, mem_stored, storeBlock_blockInfoMap]
  -- a block with the hash of `b` is `b`, since hashes are unique in the tree
  by_cases h_hash : y.hash = b.hash
  · rw [h_hash, Function.update_self]
    refine ⟨?_, ?_⟩
    · intro h_eq
      exact Or.inr (Option.some.inj h_eq).symm
    · rintro (h_y | rfl)
      · have h_mem : y ∈ T := BlockTree.mem_of_block (hp.info_block h_y)
        rw [BlockTree.eq_of_hash h_mem h_b h_hash]
      · rfl
  · rw [Function.update_of_ne h_hash, or_iff_left]
    rintro rfl
    exact h_hash rfl

/-- **Storing a block** keeps the indexes sound. -/
theorem Indexed.storeBlock (hp : Indexed T p) (h_b : b ∈ T) : Indexed T (p.storeBlock b) where
  info_block := by
    intro h y h_y
    -- the block itself, or one that was there
    by_cases h_hash : h = b.hash
    · subst h_hash
      rw [storeBlock_blockInfoMap, Function.update_self] at h_y
      rw [← Option.some.inj h_y]
      exact h_b
    · rw [storeBlock_blockInfoMap, Function.update_of_ne h_hash] at h_y
      exact hp.info_block h_y
  info_depth := by
    intro y h_y
    rw [mem_hashesAt_storeBlock]
    -- a stored block has its hash at its number
    rcases (hp.mem_stored_storeBlock h_b).mp h_y with h_y | h_eq
    · exact Or.inl (hp.info_depth h_y)
    · rw [h_eq]
      exact Or.inr ⟨rfl, rfl⟩
  depth_block := by
    intro n h h_mem
    rcases mem_hashesAt_storeBlock.mp h_mem with h_mem | ⟨rfl, rfl⟩
    · exact hp.depth_block h_mem
    · exact ⟨b, h_b, rfl, rfl⟩
  nodup := by
    intro n
    rw [hashesAt_storeBlock]
    -- hashes at a number are not repeated
    split_ifs
    · exact (hp.nodup n).insert
    · exact hp.nodup n
  ne_nil := by
    intro n
    unfold PendingEvents.storeBlock
    rw [SortedMap.get?_upsert]
    split_ifs
    -- the number of the new block is not empty
    · intro h_nil
      have h_mem : b.hash ∈ List.insert b.hash ((p.blockDepth.get? (javaInt b.number)).getD []) :=
        List.mem_insert_self
      rw [Option.some.inj h_nil] at h_mem
      cases h_mem
    · exact hp.ne_nil n

/-- Storing a block leaves no hash behind. -/
theorem Stale.of_storeBlock {n : ℤ} {h : Hash} (h_stale : Stale (p.storeBlock b) n h) :
    Stale p n h := by
  obtain ⟨h_at, h_none⟩ := h_stale
  rw [storeBlock_blockInfoMap] at h_none
  -- a stale hash is not the one that was stored
  have h_hash : h ≠ b.hash := by
    rintro rfl
    rw [Function.update_self] at h_none
    cases h_none
  rw [Function.update_of_ne h_hash] at h_none
  rcases mem_hashesAt_storeBlock.mp h_at with h_at | ⟨h_eq, -⟩
  · exact ⟨h_at, h_none⟩
  · exact absurd h_eq h_hash

/-! ### The import loop -/

/-- The walk up from `b` has stored `k` parents; the parent of the last one is
missing, and the node does not answer the request for it. -/
def Dangling (T : BlockTree) (rpc : EthereumRpc) (M : Set BlockInfo) (k : ℕ) (b : BlockInfo) :
    Prop :=
  ∃ y q, T.forest.up k b = some y ∧ T.forest.Walked M k b y ∧ T.forest.parent y = some q ∧
    q ∉ M ∧ rpc.eth_getBlockByHash q.hash = none

section Dangling

variable {M N : Set BlockInfo} {q : BlockInfo} {k : ℕ}

/-- No parent to be found, for the block itself. -/
theorem dangling_zero (h_q : T.forest.parent b = some q) :
    Dangling T rpc M 0 b ↔ q ∉ M ∧ rpc.eth_getBlockByHash q.hash = none := by
  refine ⟨?_, ?_⟩
  · rintro ⟨y, r, h_up, -, h_r, h_out, h_none⟩
    obtain rfl := Option.some.inj h_up
    rw [h_q] at h_r
    obtain rfl := Option.some.inj h_r
    exact ⟨h_out, h_none⟩
  · rintro ⟨h_out, h_none⟩
    exact ⟨b, q, rfl, Forest.walked_self _ _, h_q, h_out, h_none⟩

theorem dangling_succ (h_q : T.forest.parent b = some q) :
    Dangling T rpc M (k + 1) b ↔ q ∉ M ∧ Dangling T rpc M k q := by
  refine ⟨?_, ?_⟩
  · rintro ⟨y, r, h_up, h_walked, h_r, h_out, h_none⟩
    rw [Forest.up_succ_eq, h_q, Option.bind_some] at h_up
    -- the walk stops at the block, or goes on to its parent
    rcases Forest.walked_succ.mp h_walked with rfl | ⟨q', h_q', h_q_out, h_walked⟩
    · have h_rank := Forest.rank_up h_up
      have h_rank' := T.forest.rank_parent h_q
      omega
    · rw [h_q] at h_q'
      obtain rfl := Option.some.inj h_q'
      exact ⟨h_q_out, y, r, h_up, h_walked, h_r, h_out, h_none⟩
  · rintro ⟨h_q_out, y, r, h_up, h_walked, h_r, h_out, h_none⟩
    refine ⟨y, r, by rw [Forest.up_succ_eq, h_q]; exact h_up, ?_, h_r, h_out, h_none⟩
    exact Forest.walked_succ.mpr (Or.inr ⟨q, h_q, h_q_out, h_walked⟩)

/-- A walk has somewhere to go if it is to leave a parent missing. -/
theorem Dangling.exists_parent (h : Dangling T rpc M k b) :
    ∃ q, T.forest.parent b = some q ∧ q ∉ M := by
  cases k with
  | zero =>
    obtain ⟨y, q, h_up, -, h_q, h_out, -⟩ := h
    obtain rfl := Option.some.inj h_up
    exact ⟨q, h_q, h_out⟩
  | succ k =>
    obtain ⟨y, -, h_up, -⟩ := id h
    rw [Forest.up_succ_eq] at h_up
    obtain ⟨q, h_q, -⟩ := Option.bind_eq_some_iff.mp h_up
    exact ⟨q, h_q, ((dangling_succ h_q).mp h).1⟩

theorem dangling_congr (h : ∀ z, z.number < b.number → (z ∈ M ↔ z ∈ N)) :
    Dangling T rpc M k b ↔ Dangling T rpc N k b := by
  unfold Dangling
  refine exists₂_congr fun y q => and_congr_right fun h_up => and_congr (Forest.walked_congr h)
    (and_congr_right fun h_q => and_congr_left fun _ => not_congr (h q ?_))
  have h_rank : b.number = y.number + k := Forest.rank_up h_up
  have h_rank' : y.number = q.number + 1 := T.forest.rank_parent h_q
  omega

end Dangling

/-- What an import that may request `n` parents has done when it ends. -/
structure Imported (T : BlockTree) (rpc : EthereumRpc) (n : ℕ) (b : BlockInfo)
    (p : PendingEvents α ι) (o : Outcome (PendingEvents α ι)) : Prop where
  indexed : Indexed T o.state
  listeners : o.state.eventListeners = p.eventListeners
  stale : ∀ {n h}, Stale o.state n h → Stale p n h
  ends :
    (o.isReturned = true ∧
      ∀ y, y ∈ o.state.stored ↔ y ∈ p.stored ∨ T.forest.Walked p.stored n b y) ∨
    (o.isReturned = false ∧ ∃ k < n, Dangling T rpc p.stored k b ∧
      ∀ y, y ∈ o.state.stored ↔ y ∈ p.stored ∨ T.forest.Walked p.stored k b y)
  answered : o.isReturned = true → ∀ k < n, ¬Dangling T rpc p.stored k b

/-- The loop stops exactly if there is no parent to import. -/
theorem Indexed.import_stops (hp : Indexed T p) (h_b : b ∈ T) :
    (b.parentHash = 0 ∨ ((p.storeBlock b).blockInfoMap b.parentHash).isSome) ↔
      ∀ q, T.forest.parent b = some q → q ∈ p.stored := by
  have hp' := hp.storeBlock h_b
  refine ⟨?_, ?_⟩
  · rintro (h_zero | h_some) q h_q
    · exact absurd h_zero (BlockTree.parentHash_ne_zero h_q)
    · obtain ⟨q', h_q'⟩ := Option.isSome_iff_exists.mp h_some
      obtain ⟨h_stored, h_hash⟩ := hp'.stored_of_info h_q'
      obtain ⟨-, h_mem, h_hash'⟩ := BlockTree.mem_of_forest_parent h_q
      obtain rfl := BlockTree.eq_of_hash (hp'.mem_tree h_stored) h_mem (h_hash.trans h_hash'.symm)
      -- the parent is not `b` itself, so it was stored before
      rcases (hp.mem_stored_storeBlock h_b).mp h_stored with h_in | rfl
      · exact h_in
      · have h_rank := T.forest.rank_parent h_q
        omega
  · intro h_all
    rcases h_parent : T.forest.parent b with _ | q
    · exact Or.inl ((BlockTree.forest_parent_eq_none h_b).mp h_parent)
    · obtain ⟨-, -, h_hash⟩ := BlockTree.mem_of_forest_parent h_parent
      refine Or.inr (Option.isSome_iff_exists.mpr ⟨q, ?_⟩)
      rw [← h_hash]
      exact (hp.mem_stored_storeBlock h_b).mpr (Or.inl (h_all q h_parent))

/-- The loop ends at a block whose parent is stored, or that has none. -/
theorem Indexed.imported_stop (hp : Indexed T p) (h_b : b ∈ T)
    (h_stop : ∀ q, T.forest.parent b = some q → q ∈ p.stored) (n : ℕ) :
    Imported T rpc n b p (returned (p.storeBlock b)) := by
  refine ⟨hp.storeBlock h_b, rfl, fun h_stale => h_stale.of_storeBlock, Or.inl ⟨rfl, fun y => ?_⟩,
    fun _ k _ h_dangling => ?_⟩
  · rw [state_returned, hp.mem_stored_storeBlock h_b, Forest.walked_of_stop h_stop]
  · obtain ⟨q, h_q, h_out⟩ := h_dangling.exists_parent
    exact h_out (h_stop q h_q)

/-- It also ends where no request is left. -/
theorem Indexed.imported_limit (hp : Indexed T p) (h_b : b ∈ T) :
    Imported T rpc 0 b p (returned (p.storeBlock b)) := by
  refine ⟨hp.storeBlock h_b, rfl, fun h_stale => h_stale.of_storeBlock, Or.inl ⟨rfl, fun y => ?_⟩,
    fun _ k h_k => absurd h_k (Nat.not_lt_zero k)⟩
  rw [state_returned, hp.mem_stored_storeBlock h_b, Forest.walked_zero]

/-- It throws where the parent is missing and the node does not answer. -/
theorem Indexed.imported_unanswered (hp : Indexed T p) (h_b : b ∈ T) {q : BlockInfo}
    (h_q : T.forest.parent b = some q) (h_out : q ∉ p.stored)
    (h_none : rpc.eth_getBlockByHash q.hash = none) (n : ℕ) :
    Imported T rpc (n + 1) b p (threw (p.storeBlock b)) := by
  have h_dangling : Dangling T rpc p.stored 0 b := (dangling_zero h_q).mpr ⟨h_out, h_none⟩
  refine ⟨hp.storeBlock h_b, rfl, fun h_stale => h_stale.of_storeBlock,
    Or.inr ⟨rfl, 0, Nat.succ_pos n, h_dangling, fun y => ?_⟩, fun h_ret => nomatch h_ret⟩
  rw [state_threw, hp.mem_stored_storeBlock h_b, Forest.walked_zero]

/-- Otherwise it goes on from the parent. -/
theorem Indexed.imported_parent (hp : Indexed T p) (h_b : b ∈ T) {q : BlockInfo}
    (h_q : T.forest.parent b = some q) (h_out : q ∉ p.stored)
    (h_some : rpc.eth_getBlockByHash q.hash = some q) {n : ℕ} {o : Outcome (PendingEvents α ι)}
    (h : Imported T rpc n q (p.storeBlock b) o) : Imported T rpc (n + 1) b p o := by
  obtain ⟨h_idx, h_lis, h_stale, h_ends, h_answered⟩ := h
  -- the walk from the parent does not see `b`, which is not below it
  have h_rank : b.number = q.number + 1 := T.forest.rank_parent h_q
  have h_below : ∀ z, T.forest.rank z < T.forest.rank q →
      (z ∈ (p.storeBlock b).stored ↔ z ∈ p.stored) := by
    intro z h_z
    rw [hp.mem_stored_storeBlock h_b, or_iff_left]
    rintro rfl
    rw [BlockTree.forest_rank, BlockTree.forest_rank] at h_z
    omega
  have h_dangling : ∀ k, Dangling T rpc (p.storeBlock b).stored k q ↔
      Dangling T rpc p.stored (k + 1) b := by
    intro k
    rw [dangling_succ h_q, and_iff_right h_out]
    exact dangling_congr h_below
  have h_stored : ∀ k y, (y ∈ (p.storeBlock b).stored ∨
        T.forest.Walked (p.storeBlock b).stored k q y) ↔
      (y ∈ p.stored ∨ T.forest.Walked p.stored (k + 1) b y) := by
    intro k y
    rw [Forest.walked_congr h_below, hp.mem_stored_storeBlock h_b, Forest.walked_succ, or_assoc]
    refine or_congr_right (or_congr_right ?_)
    refine ⟨?_, ?_⟩
    · intro h_w
      exact ⟨q, h_q, h_out, h_w⟩
    · rintro ⟨q', h_q', -, h_w⟩
      rw [h_q] at h_q'
      obtain rfl := Option.some.inj h_q'
      exact h_w
  refine ⟨h_idx, h_lis, fun h => (h_stale h).of_storeBlock, ?_, fun h_ret k h_k h_dang => ?_⟩
  · rcases h_ends with ⟨h_ret, h_y⟩ | ⟨h_ret, k, h_k, h_dang, h_y⟩
    · exact Or.inl ⟨h_ret, fun y => (h_y y).trans (h_stored n y)⟩
    · exact Or.inr ⟨h_ret, k + 1, Nat.succ_lt_succ h_k, (h_dangling k).mp h_dang,
        fun y => (h_y y).trans (h_stored k y)⟩
  · cases k with
    | zero =>
      -- the request for `q` itself was answered
      rw [((dangling_zero h_q).mp h_dang).2] at h_some
      cases h_some
    | succ k =>
      exact h_answered h_ret k (Nat.lt_of_succ_lt_succ h_k) ((h_dangling k).mpr h_dang)

/-- **What `importFrom` does**, with any fuel. By induction on it. -/
theorem importFrom_spec (h_rpc : rpc.AnswersBy T) (n : ℕ) (hp : Indexed T p) (h_b : b ∈ T) :
    Imported T rpc n b p (importFrom rpc n b p) := by
  induction n generalizing b p with
  | zero =>
    have h_ends : importFrom rpc 0 b p = returned (p.storeBlock b) := by
      unfold importFrom
      dsimp only
      -- without fuel it returns at once
      split <;> rfl
    rw [h_ends]
    exact hp.imported_limit h_b
  | succ n ih =>
    unfold importFrom
    dsimp only
    split_ifs with h_stop
    · exact hp.imported_stop h_b ((hp.import_stops h_b).mp h_stop) _
    -- it stops at a block without parent, or at one that is stored
    · rw [hp.import_stops h_b] at h_stop
      push Not at h_stop
      obtain ⟨q, h_q, h_out⟩ := h_stop
      obtain ⟨-, h_mem, h_hash⟩ := BlockTree.mem_of_forest_parent h_q
      rw [← h_hash]
      rcases h_rpc q h_mem with h_none | h_some
      -- the parent is not served: the block is stored without it
      · rw [h_none]
        exact hp.imported_unanswered h_b h_q h_out h_none n
      · rw [h_some]
        exact hp.imported_parent h_b h_q h_out h_some (ih (hp.storeBlock h_b) h_mem)

/-- **The import.** Over a node that answers by the tree, importing a block of the
tree adds the walk up to the nearest stored ancestor, or a part of it. -/
theorem importBlocks_spec (c : ConfirmationCount) (h_rpc : rpc.AnswersBy T) (hp : Indexed T p)
    (h_b : b ∈ T) : Imported T rpc (fetchLimit c) b p (importBlocks c rpc b p) :=
  importFrom_spec h_rpc (fetchLimit c) hp h_b

/-- The import keeps coherent indexes coherent. -/
theorem Imported.coherent {n : ℕ} {o : Outcome (PendingEvents α ι)} (h : Imported T rpc n b p o)
    (hc : Coherent p) : Coherent o.state := by
  intro m h' h_at h_none
  obtain ⟨h_at', h_none'⟩ := h.stale ⟨h_at, h_none⟩
  exact hc m h' h_at' h_none'

/-- An import that returns has stored the block. -/
theorem Imported.mem_stored {n : ℕ} {p' : PendingEvents α ι}
    (h : Imported T rpc n b p (returned p')) : b ∈ p'.stored := by
  rcases h.ends with ⟨-, h_y⟩ | ⟨h_false, -⟩
  · exact (h_y b).mpr (Or.inr (Forest.walked_self _ _))
  · cases h_false

/-- An import from a node that serves the tree does not fail. -/
theorem Imported.of_serves {n : ℕ} {o : Outcome (PendingEvents α ι)}
    (h : Imported T rpc n b p o) (h_rpc : rpc.Serves T) :
    o.isReturned = true ∧
      ∀ y, y ∈ o.state.stored ↔ y ∈ p.stored ∨ T.forest.Walked p.stored n b y := by
  rcases h.ends with h_ends | ⟨-, k, -, ⟨y, q, -, -, h_q, -, h_none⟩, -⟩
  · exact h_ends
  · rw [h_rpc q (BlockTree.mem_of_forest_parent h_q).2.1] at h_none
    cases h_none

end PendingEvents

end Ethiso
