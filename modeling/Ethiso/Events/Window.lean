import Ethiso.Events.NewBlock
import Ethiso.Framework.ConfirmedWindow

/-!
# A call that returns moves the window

As long as block numbers are `int`s and at least one confirmation is asked for,
the `int` arithmetic of `newBlock` is exact, apart from one sum: `fetchLimit` is
the intended limit for counts below `2 ^ 31 - 5` and zero for the others. A call
that returns then is a step of the observer of `Framework.ConfirmedWindow`, on
the blocks that `blockInfoMap` has (`newBlock_advances`): the blocks it fires are
those the observer confirms, with exactly their outputs.

If the node serves the tree, a call only throws where firing a block that falls due
does (`newBlock_threw`).
-/

namespace Ethiso

open Outcome PendingEvents

variable {α ι : Type*} [DecidableEq ι]

/-! ### Integers -/

theorem javaInt_eq {n : ℤ} (h₁ : -2 ^ 31 ≤ n) (h₂ : n < 2 ^ 31) : javaInt n = n := by
  unfold javaInt Int.bmod
  push_cast
  split <;> omega

theorem javaInt_natCast {n : ℕ} (h : n < 2 ^ 31) : javaInt n = n :=
  javaInt_eq (by omega) (by omega)

/-- The blocks from which on `newBlock` keeps blocks, when `H` is the greatest
height. -/
theorem removalBoundry_eq {c : ConfirmationCount} (h_pos : 0 < c.val) {H : ℕ} (h : H < 2 ^ 31) :
    removalBoundry c H = H - c + 1 := by
  have h_c := c.property
  unfold removalBoundry
  rw [@javaInt_eq (c - 1) (by omega) (by omega), javaInt_eq (by omega) (by omega)]
  omega

/-- The intended limit: `depth` runs from zero to `c + 6`. -/
theorem fetchLimit_eq {c : ConfirmationCount} (h : c.val + 5 < 2 ^ 31) :
    fetchLimit c = c + 6 := by
  unfold fetchLimit DEFAULT_NUMBER_OF_BLOCKS_TO_CONFIRM
  rw [javaInt_eq (by omega) (by omega)]
  omega

/-! ### The greatest height -/

section LastKey

variable {α ι : Type*} {T : BlockTree} {p : PendingEvents α ι}

/-- The last number is the greatest. -/
theorem PendingEvents.Indexed.le_lastKey (hp : Indexed T p) {lastKey : ℤ}
    (h_key : p.blockDepth.lastKey? = some lastKey) {y : BlockInfo} (h_y : y ∈ p.stored) :
    javaInt y.number ≤ lastKey := by
  refine (SortedMap.lastKey?_eq_some.mp h_key).2 _ fun h_none => ?_
  have h_at := hp.info_depth h_y
  unfold hashesAt at h_at
  rw [h_none] at h_at
  cases h_at

theorem PendingEvents.Indexed.exists_hash_lastKey (hp : Indexed T p) {lastKey : ℤ}
    (h_key : p.blockDepth.lastKey? = some lastKey) : ∃ h, h ∈ p.hashesAt lastKey := by
  obtain ⟨hashes, h_get⟩ :=
    Option.ne_none_iff_exists'.mp (SortedMap.lastKey?_eq_some.mp h_key).1
  cases hashes with
  | nil => exact absurd h_get (hp.ne_nil lastKey)
  | cons h hashes => exact ⟨h, by unfold hashesAt; rw [h_get]; simp⟩

/-- If no hash of the greatest height is stale, a stored block has this height. -/
theorem PendingEvents.Indexed.exists_tip (hp : Indexed T p) {lastKey : ℤ}
    (hc : ∀ h ∈ p.hashesAt lastKey, p.blockInfoMap h ≠ none)
    (h_key : p.blockDepth.lastKey? = some lastKey) :
    ∃ t ∈ p.stored, javaInt t.number = lastKey := by
  obtain ⟨h, h_at⟩ := hp.exists_hash_lastKey h_key
  obtain ⟨t, h_info⟩ := Option.ne_none_iff_exists'.mp (hc h h_at)
  obtain ⟨h_t, h_hash⟩ := hp.stored_of_info h_info
  -- the block that is stored under the hash is the one of that height
  obtain ⟨b, h_b, h_hash', h_number⟩ := hp.depth_block h_at
  obtain rfl := BlockTree.eq_of_hash h_b (hp.mem_tree h_t) (h_hash'.trans h_hash.symm)
  exact ⟨b, h_t, h_number⟩

/-- Removing what is due below the boundary moves the window of the observer. -/
theorem PendingEvents.Indexed.advances {c : ConfirmationCount} {env : Environment α ι}
    {t : BlockInfo} (h_idx : Indexed T p)
    (h_int : ∀ y ∈ p.stored, javaInt y.number = y.number) (h_t : t ∈ p.stored)
    (h_top : ∀ y ∈ p.stored, y.number ≤ t.number) :
    T.forest.Advances c p.stored t.number
      (PendingEvents.removedBelow env p (t.number - c + 1)).stored
      (PendingEvents.due env p t.number (t.number - c + 1)) := by
  refine ⟨⟨t, h_t, rfl⟩, h_top, ?_, ?_, ?_⟩
  · intro y
    rw [h_idx.mem_stored_removedBelow]
    apply and_congr_right
    intro h_y
    rw [h_int y h_y, BlockTree.forest_rank]
    omega
  · intro y
    rw [h_idx.mem_due]
    refine ⟨?_, ?_⟩
    · rintro ⟨h_lt, t', h_t', h_number, h_chain⟩
      rw [h_int y h_chain.mem] at h_lt
      rw [h_int t' h_t'] at h_number
      exact ⟨by rw [BlockTree.forest_rank]; omega, t', h_t', by exact_mod_cast h_number,
        h_chain⟩
    · rintro ⟨h_le, t', h_t', h_number, h_chain⟩
      rw [BlockTree.forest_rank] at h_le h_number
      refine ⟨?_, t', h_t', by rw [h_int t' h_t', h_number], h_chain⟩
      rw [h_int y h_chain.mem]
      omega
  -- the blocks are fired in the order of their heights
  · refine (h_idx.due_sorted (t.number : ℤ) _).imp_of_mem fun {y z} h_y h_z h => ⟨h.1, ?_⟩
    obtain ⟨-, t', -, -, h_chain⟩ := h_idx.mem_due.mp h_y
    obtain ⟨-, t'', -, -, h_chain'⟩ := h_idx.mem_due.mp h_z
    have h_le := h.2
    rw [h_int y h_chain.mem, h_int z h_chain'.mem] at h_le
    exact_mod_cast h_le

end LastKey

/-! ### The step of the window -/

namespace Session

section Advances

variable {T : BlockTree} {c : ConfirmationCount} {env : Environment α ι} {rpc : EthereumRpc}
  {s : Session α ι} {b : BlockInfo}

/-- The blocks that the indexes have after the import of `b`. -/
def imported (T : BlockTree) (c : ConfirmationCount) (s : Session α ι) (b : BlockInfo) :
    Set BlockInfo :=
  T.forest.imported s.pending.stored (fetchLimit c) b

/-- The announcement of `b` may fire `y`: it is below the boundary that the greatest
height sets, on the chain of a block of this height. -/
def Due (T : BlockTree) (c : ConfirmationCount) (s : Session α ι) (b y : BlockInfo) : Prop :=
  ∃ t ∈ s.imported T c b, (∀ z ∈ s.imported T c b, javaInt z.number ≤ javaInt t.number) ∧
    T.forest.OnChain (s.imported T c b) t y ∧ javaInt y.number < removalBoundry c (javaInt t.number)

omit [DecidableEq ι] in
/-- Due blocks are in the tree. -/
theorem Due.mem_tree {y : BlockInfo} (h : s.Due T c b y) (hp : Indexed T s.pending) (h_b : b ∈ T) :
    y ∈ T := by
  obtain ⟨t, -, -, h_chain, -⟩ := h
  rcases h_chain.mem with h_stored | h_walked
  · exact hp.mem_tree h_stored
  · exact BlockTree.mem_of_isAncestor h_walked.isAncestor h_b

omit [DecidableEq ι] in
/-- After an import, what the statement names as imported is stored. -/
theorem imported_eq {p : PendingEvents α ι}
    (h_imp : Imported T rpc (fetchLimit c) b s.pending (returned p)) :
    s.imported T c b = p.stored := by
  rcases h_imp.ends with ⟨-, h_y⟩ | ⟨h_false, -⟩
  · exact (Set.ext h_y).symm
  · cases h_false

omit [DecidableEq ι] in
/-- The blocks that the loop takes are due. -/
theorem due_of_mem {p : PendingEvents α ι} {lastKey : ℤ} {y : BlockInfo}
    (h_imp : Imported T rpc (fetchLimit c) b s.pending (returned p))
    (h_key : p.blockDepth.lastKey? = some lastKey)
    (h_y : y ∈ due env p lastKey (removalBoundry c lastKey)) : s.Due T c b y := by
  have h_idx : Indexed T p := h_imp.indexed
  obtain ⟨h_low, t, h_t, rfl, h_chain⟩ := h_idx.mem_due.mp h_y
  unfold Due
  rw [imported_eq h_imp]
  exact ⟨t, h_t, fun z h_z => h_idx.le_lastKey h_key h_z, h_chain, h_low⟩

omit [DecidableEq ι] in
/-- If a stored block has the greatest height, the due blocks are those that the
removal fires. -/
theorem mem_due_iff {p : PendingEvents α ι} {lastKey : ℤ} {y : BlockInfo}
    (h_imp : Imported T rpc (fetchLimit c) b s.pending (returned p))
    (h_key : p.blockDepth.lastKey? = some lastKey)
    (h_tip : ∃ t ∈ p.stored, javaInt t.number = lastKey) :
    y ∈ due env p lastKey (removalBoundry c lastKey) ↔ s.Due T c b y := by
  refine ⟨due_of_mem h_imp h_key, ?_⟩
  have h_idx : Indexed T p := h_imp.indexed
  unfold Due
  rw [imported_eq h_imp]
  rintro ⟨t, h_t, h_top, h_chain, h_low⟩
  obtain ⟨t', h_t', rfl⟩ := h_tip
  -- both are blocks of the greatest height
  have h_eq : javaInt t.number = javaInt t'.number :=
    le_antisymm (h_idx.le_lastKey h_key h_t) (h_top t' h_t')
  rw [h_eq] at h_low
  exact h_idx.mem_due.mpr ⟨h_low, t, h_t, h_eq, h_chain⟩

/-- Whether it returns or throws, a call keeps the indexes indexes of the tree, and
fires only blocks that are due. -/
theorem newBlock_fired (h_rpc : rpc.AnswersBy T) (hp : Indexed T s.pending) (h_b : b ∈ T) :
    Indexed T (newBlock c env rpc b s).state.pending ∧
      ∃ blocks, (newBlock c env rpc b s).state.firedBlocks = s.firedBlocks ++ blocks ∧
        ∀ y ∈ blocks, s.Due T c b y := by
  obtain ⟨o, h_imp, ⟨p, rfl, h_threw⟩ | ⟨p, lastKey, rfl, h_key, h_removed⟩⟩ :=
    @newBlock_spec _ _ T c env rpc s b _ h_rpc hp h_b
  · rw [h_threw]
    exact ⟨h_imp.indexed, [], by simp [firedBlocks], by simp⟩
  have h_idx : Indexed T p := h_imp.indexed
  have h_due : ∀ y ∈ due env p lastKey (removalBoundry c lastKey), s.Due T c b y :=
    fun y h_y => due_of_mem h_imp h_key h_y
  generalize newBlock c env rpc b s = o' at h_removed ⊢
  -- a call that throws has fired the due blocks up to the one that threw
  cases h_removed with
  | @done trace h_fired =>
    exact ⟨h_idx.removedBelow _, _, firedIn_of_returned h_fired, h_due⟩
  | @failed before after blocks y blocks' trace₁ trace h_hashes h_split h_before h_fired h_threw =>
    refine ⟨h_idx.eraseAll before, blocks ++ [y], ?_, fun z h_z => h_due z ?_⟩
    · change firedIn trace = _
      rw [firedIn_of_threw h_threw, firedIn_of_returned h_fired, List.append_assoc]
      rfl
    · change due env p lastKey (removalBoundry c lastKey) = blocks ++ y :: blocks' at h_split
      rw [h_split]
      rcases List.mem_append.mp h_z with h_z | h_z
      · exact List.mem_append_left _ h_z
      · rw [List.mem_singleton.mp h_z]
        simp

/-- **A call that returns** is a step of the observer, and its outputs are those
of the blocks confirmed by this step. -/
theorem newBlock_advances (h_pos : 0 < c.val) (h_bounded : T.Bounded) (h_rpc : rpc.AnswersBy T)
    (hp : Indexed T s.pending) (hc : Coherent s.pending) (h_b : b ∈ T) {s' : Session α ι}
    (h_ret : newBlock c env rpc b s = returned s') :
    ∃ H D, T.forest.Advances c (s.imported T c b) H s'.pending.stored D ∧
      s'.trace = s.trace ++ D.flatMap (firedOutputs s.pending.eventListeners rpc) ∧
      Indexed T s'.pending ∧ Coherent s'.pending ∧
      s'.pending.eventListeners = s.pending.eventListeners := by
  obtain ⟨o, h_imp, ⟨p, -, h_threw⟩ | ⟨p, lastKey, rfl, h_key, h_removed⟩⟩ :=
    @newBlock_spec _ _ T c env rpc s b _ h_rpc hp h_b
  · rw [h_threw] at h_ret
    cases h_ret
  have h_idx : Indexed T p := h_imp.indexed
  have h_coh : Coherent p := h_imp.coherent hc
  have h_set : s.imported T c b = p.stored := imported_eq h_imp
  have h_int : ∀ y ∈ p.stored, javaInt y.number = y.number := fun y h_y =>
    javaInt_natCast (h_bounded y (h_idx.mem_tree h_y))
  -- the greatest height is that of a stored block, so all arithmetic is on `int`s
  obtain ⟨t, h_t, h_tip⟩ := h_idx.exists_tip (h_coh lastKey) h_key
  rw [h_int t h_t] at h_tip
  subst h_tip
  have h_boundry := removalBoundry_eq h_pos (h_bounded t (h_idx.mem_tree h_t))
  have h_top : ∀ y ∈ p.stored, y.number ≤ t.number := by
    intro y h_y
    have h_le := h_idx.le_lastKey h_key h_y
    rw [h_int y h_y] at h_le
    exact_mod_cast h_le
  rw [h_ret] at h_removed
  cases h_removed with
  | @done trace h_fired =>
    rw [h_boundry] at h_fired ⊢
    refine ⟨t.number, due env p t.number (t.number - c + 1), ?_, ?_, h_idx.removedBelow _, ?_,
      h_imp.listeners⟩
    · rw [h_set]
      exact h_idx.advances h_int h_t h_top
    · have h_app := @fireBlocks_appends _ _ _ env p.eventListeners rpc s.trace
        (due env p t.number (t.number - c + 1))
      dsimp only at h_fired
      rw [h_fired] at h_app
      rw [← show p.eventListeners = s.pending.eventListeners from h_imp.listeners]
      exact returned.inj (h_app.eq_of_isReturned rfl)
    · exact h_idx.coherent_removedBelow fun n _ => h_coh n

/-- If a call throws although the node serves the tree, firing a block threw that
the window would confirm: one `c` below a highest block, on its chain. -/
theorem newBlock_threw (h_pos : 0 < c.val) (h_bounded : T.Bounded) (h_rpc : rpc.Serves T)
    (hp : Indexed T s.pending) (h_b : b ∈ T) {s' : Session α ι}
    (h_threw : newBlock c env rpc b s = threw s') :
    ∃ y, ∃ t ∈ s.imported T c b, (∀ z ∈ s.imported T c b, z.number ≤ t.number) ∧
      T.forest.OnChain (s.imported T c b) t y ∧ y.number + c ≤ t.number ∧
      ∃ trace, fireBlock env s.pending.eventListeners rpc trace y = threw s'.trace := by
  obtain ⟨o, h_imp, h_call⟩ := @newBlock_spec _ _ T c env rpc s b _ h_rpc.answersBy hp h_b
  obtain ⟨h_ret, h_stored⟩ := h_imp.of_serves h_rpc
  rcases h_call with ⟨p, rfl, -⟩ | ⟨p, lastKey, rfl, h_key, h_removed⟩
  · cases h_ret
  · have h_idx : Indexed T p := h_imp.indexed
    have h_set : s.imported T c b = p.stored := (Set.ext h_stored).symm
    have h_int : ∀ y ∈ p.stored, javaInt y.number = y.number := fun y h_y =>
      javaInt_natCast (h_bounded y (h_idx.mem_tree h_y))
    rw [h_threw] at h_removed
    cases h_removed with
    | @failed before after blocks y blocks' trace₁ trace h_hashes h_due h_before h_fired h_fire =>
      -- the block that threw is one of the due ones
      have h_y : y ∈ due env p lastKey (removalBoundry c lastKey) := by
        change due env p lastKey (removalBoundry c lastKey) = blocks ++ y :: blocks' at h_due
        rw [h_due]
        simp
      obtain ⟨h_lt, t, h_t, h_number, h_chain⟩ := h_idx.mem_due.mp h_y
      have h_max : ∀ z ∈ p.stored, z.number ≤ t.number := by
        intro z h_z
        have h_le := h_idx.le_lastKey h_key h_z
        rw [← h_number, h_int z h_z, h_int t h_t] at h_le
        exact_mod_cast h_le
      rw [← h_number, h_int t h_t, removalBoundry_eq h_pos (h_bounded t (h_idx.mem_tree h_t)),
        h_int y h_chain.mem] at h_lt
      rw [h_set, ← show p.eventListeners = s.pending.eventListeners from h_imp.listeners]
      exact ⟨y, t, h_t, h_max, h_chain, by omega, trace₁, h_fire⟩

end Advances

end Session

end Ethiso
