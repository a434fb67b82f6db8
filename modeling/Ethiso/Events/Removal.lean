import Ethiso.Events.Indexes

/-!
# Removing what is below the window

After the import, `newBlock` removes the blocks below a boundary, by increasing
height, and fires those on the chain of a highest block. What it fires is the
list `due`: computed from the indexes before the removal, it has exactly the
blocks below the boundary that are reached from a highest block through stored
blocks (`mem_due`), by increasing height and each once (`due_sorted`).

What is removed leaves `blockInfoMap` one hash at a time (`eraseAll`), and
`blockDepth` at the end of the call (`removedBelow`); after that both indexes have
exactly the blocks that are not below the boundary.
-/

namespace Ethiso

open Outcome

variable {α ι : Type*}

namespace PendingEvents

variable {T : BlockTree} {p : PendingEvents α ι} {env : Environment α ι} {c : ConfirmationCount}

/-! ### The chain of the highest blocks -/

/-- An unknown hash begins no chain. -/
theorem chainFrom_of_none {info : Hash → Option BlockInfo} {h : Hash} (h_none : info h = none)
    (n : ℕ) : chainFrom info n h = [] := by
  cases n with
  | zero => rfl
  | succ n => rw [chainFrom, h_none]

/-- The walk from a stored block through stored blocks, with enough steps. -/
theorem Indexed.mem_chainFrom (hp : Indexed T p) {n : ℕ} {t : BlockInfo} (h_t : t ∈ p.stored)
    (h_n : t.number < n) {h : Hash} :
    h ∈ chainFrom p.blockInfoMap n t.hash ↔ ∃ y, y.hash = h ∧ T.forest.OnChain p.stored t y := by
  -- the bound on the steps falls with the height of `t`
  induction n generalizing t with
  | zero => exact absurd h_n (Nat.not_lt_zero _)
  | succ n ih =>
    rw [chainFrom, mem_stored.mp h_t]
    dsimp only
    -- the rest of the list is the chain of the parent, if that is stored
    have h_rest : h ∈ chainFrom p.blockInfoMap n t.parentHash ↔
        ∃ y, y.hash = h ∧ ∃ q, T.forest.parent t = some q ∧ T.forest.OnChain p.stored q y := by
      cases h_parent : T.forest.parent t with
      | none =>
        have h_none : p.blockInfoMap t.parentHash = none := by
          by_contra h_some
          obtain ⟨q, h_q⟩ := Option.ne_none_iff_exists'.mp h_some
          have h_block := hp.info_block h_q
          rw [← BlockTree.forest_parent (hp.mem_tree h_t), h_parent] at h_block
          cases h_block
        rw [chainFrom_of_none h_none]
        simp
      | some q =>
        obtain ⟨-, h_mem, h_hash⟩ := BlockTree.mem_of_forest_parent h_parent
        rw [← h_hash]
        by_cases h_q : q ∈ p.stored
        · have h_rank : t.number = q.number + 1 := T.forest.rank_parent h_parent
          rw [ih h_q (by omega)]
          simp
        · have h_none : p.blockInfoMap q.hash = none := by
            by_contra h_some
            obtain ⟨q', h_q'⟩ := Option.ne_none_iff_exists'.mp h_some
            obtain ⟨h_in, h_eq⟩ := hp.stored_of_info h_q'
            rw [BlockTree.eq_of_hash (hp.mem_tree h_in) h_mem h_eq] at h_in
            exact h_q h_in
          rw [chainFrom_of_none h_none]
          refine ⟨?_, ?_⟩
          · rintro ⟨⟩
          · rintro ⟨y, -, q', h_q', h_chain⟩
            obtain rfl := Option.some.inj h_q'
            exact absurd (Forest.onChain_iff.mp h_chain).1 h_q
    rw [List.mem_cons, h_rest]
    refine ⟨?_, ?_⟩
    · rintro (rfl | ⟨y, h_y, q, h_q, h_chain⟩)
      · exact ⟨t, rfl, Forest.onChain_self h_t⟩
      · exact ⟨y, h_y, Forest.onChain_iff.mpr ⟨h_t, Or.inr ⟨q, h_q, h_chain⟩⟩⟩
    · rintro ⟨y, h_y, h_chain⟩
      rcases (Forest.onChain_iff.mp h_chain).2 with rfl | ⟨q, h_q, h_chain⟩
      · exact Or.inl h_y.symm
      · exact Or.inr ⟨y, h_y, q, h_q, h_chain⟩

/-- The hashes that `newBlock` takes to be on a chain are those of the blocks
reached from a block of the greatest height through stored blocks. -/
theorem Indexed.mem_inChain (hp : Indexed T p) {lastKey : ℤ} {h : Hash} :
    h ∈ inChain env p lastKey ↔
      ∃ t ∈ p.stored, javaInt t.number = lastKey ∧
        ∃ y, y.hash = h ∧ T.forest.OnChain p.stored t y := by
  unfold inChain
  rw [List.mem_flatMap]
  refine ⟨?_, ?_⟩
  · rintro ⟨tip, h_tip, h_mem⟩
    rw [(env.iterate_perm _).mem_iff] at h_tip
    -- a tip without a block has an empty chain
    obtain ⟨t', h_t', rfl, rfl⟩ := hp.depth_block h_tip
    cases h_info : p.blockInfoMap t'.hash with
    | none =>
      rw [chainFrom_of_none h_info] at h_mem
      cases h_mem
    | some t =>
      obtain ⟨h_t, h_hash⟩ := hp.stored_of_info h_info
      obtain rfl := BlockTree.eq_of_hash (hp.mem_tree h_t) h_t' h_hash
      rw [h_info, Option.elim_some, hp.mem_chainFrom h_t (Nat.lt_succ_self _)] at h_mem
      exact ⟨t, h_t, rfl, h_mem⟩
  · rintro ⟨t, h_t, rfl, h_chain⟩
    refine ⟨t.hash, (env.iterate_perm _).mem_iff.mpr (hp.info_depth h_t), ?_⟩
    rw [mem_stored.mp h_t, Option.elim_some, hp.mem_chainFrom h_t (Nat.lt_succ_self _)]
    exact h_chain

/-- The hashes of the chain have blocks. -/
theorem Indexed.inChain_info (hp : Indexed T p) {lastKey : ℤ} {h : Hash}
    (h_mem : h ∈ inChain env p lastKey) : p.blockInfoMap h ≠ none := by
  obtain ⟨t, -, -, y, rfl, h_chain⟩ := hp.mem_inChain.mp h_mem
  rw [mem_stored.mp h_chain.mem]
  exact Option.some_ne_none y

/-! ### The hashes to remove -/

/-- The hashes below a boundary, in the order in which they are removed. -/
def hashesToRemove (env : Environment α ι) (p : PendingEvents α ι) (boundry : ℤ) : List Hash :=
  (p.blockDepth.headMap boundry).flatMap fun blockHashes => env.iterate blockHashes.2

/-- The hashes to remove are those below the boundary. -/
theorem mem_hashesToRemove {boundry : ℤ} {h : Hash} :
    h ∈ hashesToRemove env p boundry ↔ ∃ n < boundry, h ∈ p.hashesAt n := by
  unfold hashesToRemove hashesAt
  simp only [List.mem_flatMap, Prod.exists, SortedMap.mem_headMap, (env.iterate_perm _).mem_iff]
  refine ⟨?_, ?_⟩
  · rintro ⟨n, hashes, ⟨h_get, h_n⟩, h_mem⟩
    exact ⟨n, h_n, by rw [h_get]; exact h_mem⟩
  -- the number is in the map, since it has a hash
  · rintro ⟨n, h_n, h_mem⟩
    cases h_get : p.blockDepth.get? n with
    | none =>
      rw [h_get] at h_mem
      cases h_mem
    | some hashes =>
      rw [h_get] at h_mem
      exact ⟨n, hashes, ⟨h_get, h_n⟩, h_mem⟩

/-- Each hash is removed once, and a lower one before a higher one. -/
theorem Indexed.hashesToRemove_sorted (hp : Indexed T p) (boundry : ℤ) :
    (hashesToRemove env p boundry).Pairwise fun h h' => h ≠ h' ∧
      ∀ b ∈ T, ∀ b' ∈ T, b.hash = h → b'.hash = h' → javaInt b.number ≤ javaInt b'.number := by
  -- the block of a hash at height `n` has this height
  have h_height : ∀ {e : ℤ × List Hash}, e ∈ p.blockDepth.headMap boundry →
      ∀ h ∈ env.iterate e.2, h ∈ p.hashesAt e.1 ∧ ∀ b ∈ T, b.hash = h → javaInt b.number = e.1 := by
    intro e h_e h h_mem
    have h_at : h ∈ p.hashesAt e.1 := by
      unfold hashesAt
      rw [(SortedMap.mem_headMap.mp h_e).1]
      exact (env.iterate_perm _).mem_iff.mp h_mem
    refine ⟨h_at, fun b h_b h_hash => ?_⟩
    obtain ⟨b', h_b', h_hash', h_number⟩ := hp.depth_block h_at
    rw [BlockTree.eq_of_hash h_b h_b' (h_hash.trans h_hash'.symm), h_number]
  unfold hashesToRemove
  -- within one height the order does not matter, and the heights increase
  rw [List.pairwise_flatMap]
  refine ⟨?_, ?_⟩
  · intro e h_e
    have h_nodup : (env.iterate e.2).Nodup := by
      rw [(env.iterate_perm _).nodup_iff]
      have h_nodup := hp.nodup e.1
      unfold hashesAt at h_nodup
      rwa [(SortedMap.mem_headMap.mp h_e).1] at h_nodup
    refine h_nodup.imp_of_mem fun {h h'} h_mem h_mem' h_ne => ⟨h_ne, ?_⟩
    intro b h_b b' h_b' h_hash h_hash'
    rw [(h_height h_e h h_mem).2 b h_b h_hash, (h_height h_e h' h_mem').2 b' h_b' h_hash']
  · refine (p.blockDepth.headMap_sorted boundry).imp_of_mem fun {e e'} h_e h_e' h_lt => ?_
    intro h h_mem h' h_mem'
    refine ⟨?_, ?_⟩
    · rintro rfl
      obtain ⟨b, h_b, h_hash, -⟩ := hp.depth_block (h_height h_e h h_mem).1
      have h_number := (h_height h_e h h_mem).2 b h_b h_hash
      rw [(h_height h_e' h h_mem').2 b h_b h_hash] at h_number
      exact absurd h_number h_lt.ne'
    · intro b h_b b' h_b' h_hash h_hash'
      rw [(h_height h_e h h_mem).2 b h_b h_hash, (h_height h_e' h' h_mem').2 b' h_b' h_hash']
      exact h_lt.le

/-! ### The blocks that are due -/

/-- The blocks of `hashes` that are in `inChain`. -/
def dueAmong (info : Hash → Option BlockInfo) (inChain hashes : List Hash) : List BlockInfo :=
  hashes.filterMap fun h => if h ∈ inChain then info h else none

/-- The blocks that `newBlock` fires once the import is done, in order. -/
def due (env : Environment α ι) (p : PendingEvents α ι) (lastKey boundry : ℤ) : List BlockInfo :=
  dueAmong p.blockInfoMap (inChain env p lastKey) (hashesToRemove env p boundry)

/-- Which blocks are due among hashes. -/
theorem Indexed.mem_dueAmong (hp : Indexed T p) {inC hashes : List Hash} {y : BlockInfo} :
    y ∈ dueAmong p.blockInfoMap inC hashes ↔ y.hash ∈ hashes ∧ y.hash ∈ inC ∧ y ∈ p.stored := by
  unfold dueAmong
  simp only [List.mem_filterMap, Option.ite_none_right_eq_some]
  refine ⟨?_, ?_⟩
  · rintro ⟨h, h_mem, h_in, h_info⟩
    obtain ⟨h_y, rfl⟩ := hp.stored_of_info h_info
    exact ⟨h_mem, h_in, h_y⟩
  · rintro ⟨h_mem, h_in, h_y⟩
    exact ⟨y.hash, h_mem, h_in, h_y⟩

/-- **Which blocks are due**: those on the chain of the last block, below the boundary. -/
theorem Indexed.mem_due (hp : Indexed T p) {lastKey boundry : ℤ} {y : BlockInfo} :
    y ∈ due env p lastKey boundry ↔
      javaInt y.number < boundry ∧
        ∃ t ∈ p.stored, javaInt t.number = lastKey ∧ T.forest.OnChain p.stored t y := by
  unfold due
  -- the block of the hash, the block on the chain and `y` are the same
  rw [hp.mem_dueAmong, mem_hashesToRemove, hp.mem_inChain]
  refine ⟨?_, ?_⟩
  · rintro ⟨⟨n, h_n, h_at⟩, ⟨t, h_t, h_key, y', h_hash', h_chain⟩, h_y⟩
    obtain ⟨b, h_b, h_hash, rfl⟩ := hp.depth_block h_at
    obtain rfl := BlockTree.eq_of_hash h_b (hp.mem_tree h_y) h_hash
    obtain rfl := BlockTree.eq_of_hash (hp.mem_tree h_chain.mem) h_b h_hash'
    exact ⟨h_n, t, h_t, h_key, h_chain⟩
  · rintro ⟨h_n, t, h_t, h_key, h_chain⟩
    exact ⟨⟨_, h_n, hp.info_depth h_chain.mem⟩, ⟨t, h_t, h_key, y, rfl, h_chain⟩, h_chain.mem⟩

theorem Indexed.due_sorted (hp : Indexed T p) (lastKey boundry : ℤ) :
    (due env p lastKey boundry).Pairwise fun y y' =>
      y ≠ y' ∧ javaInt y.number ≤ javaInt y'.number := by
  unfold due dueAmong
  rw [List.pairwise_filterMap]
  -- two hashes of blocks at different places of the loop
  refine (hp.hashesToRemove_sorted boundry).imp fun {h h'} h_hh y h_y y' h_y' => ?_
  rw [Option.ite_none_right_eq_some] at h_y h_y'
  obtain ⟨h_mem, rfl⟩ := hp.stored_of_info h_y.2
  obtain ⟨h_mem', rfl⟩ := hp.stored_of_info h_y'.2
  refine ⟨?_, h_hh.2 y (hp.mem_tree h_mem) y' (hp.mem_tree h_mem') rfl rfl⟩
  rintro rfl
  exact h_hh.1 rfl

/-! ### What is left -/

/-- `blockInfoMap` without the given hashes. -/
def eraseAll (info : Hash → Option BlockInfo) (hashes : List Hash) : Hash → Option BlockInfo :=
  fun h => if h ∈ hashes then none else info h

/-- Erasing one hash. -/
theorem eraseAll_singleton (info : Hash → Option BlockInfo) (h : Hash) :
    eraseAll info [h] = Function.update info h none := by
  funext h'
  unfold eraseAll Function.update
  by_cases h_eq : h' = h <;> simp [h_eq]

/-- Erasing twice. -/
theorem eraseAll_append (info : Hash → Option BlockInfo) (hashes hashes' : List Hash) :
    eraseAll (eraseAll info hashes) hashes' = eraseAll info (hashes ++ hashes') := by
  funext h
  unfold eraseAll
  by_cases h_mem : h ∈ hashes <;> by_cases h_mem' : h ∈ hashes' <;> simp [h_mem, h_mem']

/-- What is stored when hashes have been erased. -/
theorem mem_stored_eraseAll {hashes : List Hash} {y : BlockInfo} :
    y ∈ { p with blockInfoMap := eraseAll p.blockInfoMap hashes }.stored ↔
      y ∈ p.stored ∧ y.hash ∉ hashes := by
  rw [mem_stored, mem_stored]
  unfold eraseAll
  dsimp only
  split_ifs with h_mem <;> simp [h_mem]

/-- Erasing keeps the indexes sound. -/
theorem Indexed.eraseAll (hp : Indexed T p) (hashes : List Hash) :
    Indexed T { p with blockInfoMap := eraseAll p.blockInfoMap hashes } where
  info_block := by
    intro h b h_b
    unfold PendingEvents.eraseAll at h_b
    dsimp only at h_b
    split_ifs at h_b
    exact hp.info_block h_b
  info_depth := fun h_b => hp.info_depth (mem_stored_eraseAll.mp h_b).1
  depth_block := hp.depth_block
  nodup := hp.nodup
  ne_nil := hp.ne_nil

/-- The indexes after a removal that went through. -/
def removedBelow (env : Environment α ι) (p : PendingEvents α ι) (boundry : ℤ) :
    PendingEvents α ι :=
  { p with
    blockInfoMap := PendingEvents.eraseAll p.blockInfoMap (hashesToRemove env p boundry)
    blockDepth := p.blockDepth.tailMap boundry }

/-- Below the boundary no number has hashes. -/
theorem hashesAt_removedBelow {boundry n : ℤ} :
    (removedBelow env p boundry).hashesAt n = if n < boundry then [] else p.hashesAt n := by
  unfold hashesAt removedBelow
  rw [SortedMap.get?_tailMap]
  split_ifs <;> rfl

/-- What is left is what is not below the boundary. -/
theorem Indexed.mem_stored_removedBelow (hp : Indexed T p) {boundry : ℤ} {y : BlockInfo} :
    y ∈ (removedBelow env p boundry).stored ↔ y ∈ p.stored ∧ boundry ≤ javaInt y.number := by
  have h_stored : y ∈ (removedBelow env p boundry).stored ↔
      y ∈ p.stored ∧ y.hash ∉ hashesToRemove env p boundry := mem_stored_eraseAll
  rw [h_stored, mem_hashesToRemove]
  apply and_congr_right
  intro h_y
  -- a block is erased exactly if its number is below the boundary
  refine ⟨?_, ?_⟩
  · intro h_out
    by_contra h_lt
    exact h_out ⟨_, not_le.mp h_lt, hp.info_depth h_y⟩
  · rintro h_le ⟨n, h_n, h_at⟩
    obtain ⟨b, h_b, h_hash, rfl⟩ := hp.depth_block h_at
    obtain rfl := BlockTree.eq_of_hash h_b (hp.mem_tree h_y) h_hash
    exact absurd h_n (not_lt.mpr h_le)

/-- Removing all below the boundary keeps the indexes sound. -/
theorem Indexed.removedBelow (hp : Indexed T p) (boundry : ℤ) :
    Indexed T (removedBelow env p boundry) where
  info_block := (hp.eraseAll (hashesToRemove env p boundry)).info_block
  info_depth := by
    intro b h_b
    -- a block that is left keeps its hash
    obtain ⟨h_in, h_le⟩ := hp.mem_stored_removedBelow.mp h_b
    rw [hashesAt_removedBelow, if_neg (not_lt.mpr h_le)]
    exact hp.info_depth h_in
  depth_block := by
    intro n h h_at
    rw [hashesAt_removedBelow] at h_at
    split_ifs at h_at
    · cases h_at
    · exact hp.depth_block h_at
  nodup := by
    intro n
    rw [hashesAt_removedBelow]
    -- the hashes of a number are those of before, or none
    split_ifs
    · exact List.nodup_nil
    · exact hp.nodup n
  ne_nil := by
    intro n
    unfold PendingEvents.removedBelow
    rw [SortedMap.get?_tailMap]
    split_ifs
    · exact fun h_eq => nomatch h_eq
    · exact hp.ne_nil n

/-- What is stale once all below the boundary is cleared was so before. -/
theorem Indexed.stale_removedBelow (hp : Indexed T p) {boundry n : ℤ} {h : Hash}
    (h_stale : Stale (PendingEvents.removedBelow env p boundry) n h) :
    boundry ≤ n ∧ Stale p n h := by
  obtain ⟨h_at, h_none⟩ := h_stale
  rw [hashesAt_removedBelow] at h_at
  split_ifs at h_at with h_n
  · cases h_at
  -- a hash that is still in `blockDepth` is above the boundary, so it was not removed
  · have h_out : h ∉ hashesToRemove env p boundry := by
      rw [mem_hashesToRemove]
      rintro ⟨m, h_m, h_at'⟩
      rw [hp.height_unique h_at' h_at] at h_m
      exact h_n h_m
    change PendingEvents.eraseAll p.blockInfoMap (hashesToRemove env p boundry) h = none at h_none
    unfold PendingEvents.eraseAll at h_none
    rw [if_neg h_out] at h_none
    exact ⟨not_lt.mp h_n, h_at, h_none⟩

/-- Once all below the boundary is cleared, both indexes have the same blocks
again, if they had above it. -/
theorem Indexed.coherent_removedBelow (hp : Indexed T p) {boundry : ℤ}
    (hc : ∀ n, boundry ≤ n → ∀ h ∈ p.hashesAt n, p.blockInfoMap h ≠ none) :
    Coherent (PendingEvents.removedBelow env p boundry) := by
  intro n h h_at h_none
  obtain ⟨h_n, h_at', h_none'⟩ := hp.stale_removedBelow ⟨h_at, h_none⟩
  exact hc n h_n h h_at' h_none'

end PendingEvents

end Ethiso
