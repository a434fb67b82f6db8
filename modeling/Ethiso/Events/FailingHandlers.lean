import Ethiso.Events.Attempts
import Ethiso.Events.Runs

/-!
# Handlers that fail

While the node announces one block after the other, a handler may throw, and so may
the decoding of a log. The poller goes on with the next announcement, and what was
passed to the other handlers should not depend on it (`AllPassed`).

A call that throws has removed the block it was firing, and all due blocks before
it. The due blocks after it stay, and the next call fires them (`Line.removed`), so
they are late. What is left of the block itself is lost. Hence nothing is missing
after each call if and only if no attempt that throws cuts off another one of the
same call (`NothingCutOff`).
-/

namespace Ethiso

open Outcome PendingEvents

variable {α ι : Type*}

section Statement

variable [DecidableEq ι]

/-- Each block is a child of the one before, the node is the same, and handlers are
registered before the first block is announced. -/
def InSequence (T : BlockTree) (rpc : EthereumRpc) (pre : List (Input α ι)) : Input α ι → Prop
  | .addEventListener .. => notified pre = []
  | .newBlock rpc' b => rpc' = rpc ∧ b ∈ T ∧
      ∀ last, (notified pre).getLast? = some last → T.forest.parent b = some last

/-- The block is one of those that the indexes have after an import of the run. -/
def ImportedIn (T : BlockTree) (c : ConfirmationCount) (env : Environment α ι)
    (l : List (Input α ι)) (y : BlockInfo) : Prop :=
  AtSomeCall (fun pre _ b => y ∈ (Session.after c env pre).imported T c b) l

/-- The logs of the imported blocks `c` or more below the last announced one have
been passed once to each listener they are for. -/
def AllPassed (T : BlockTree) (c : ConfirmationCount) (env : Environment α ι) (rpc : EthereumRpc)
    (l : List (Input α ι)) : Prop :=
  ∃ blocks : List BlockInfo, blocks.Nodup ∧
    (∀ y, y ∈ blocks ↔ ImportedIn T c env l y ∧
      ∀ last, (notified l).getLast? = some last → y.number + c ≤ last.number) ∧
    (passes (Session.after c env l).trace).Perm
      (blocks.flatMap (blockDeliveries (Session.after c env l).pending.eventListeners rpc))

/-- No attempt of the blocks that are due cuts off another. -/
def NothingCutOff (T : BlockTree) (c : ConfirmationCount) (env : Environment α ι)
    (pre : List (Input α ι)) : Input α ι → Prop
  | .addEventListener .. => True
  | .newBlock rpc b => ∀ blocks : List BlockInfo, blocks.Pairwise (fun x y => x.number < y.number) →
      (∀ y, y ∈ blocks ↔ (Session.after c env pre).Due T c b y) →
        ¬CutsOff env (Session.after c env pre).trace
          (blocks.flatMap (blockAttempts (Session.after c env pre).pending.eventListeners rpc))

end Statement

/-! ### A monitor that has the blocks of a line -/

/-- The indexes have the ancestors of `t` from the number `lo` on, and the logs of
those from `base` to there have been passed on. -/
structure Line (T : BlockTree) (c : ConfirmationCount) (rpc : EthereumRpc) (t : BlockInfo)
    (base lo : ℕ) (s : Session α ι) : Prop where
  indexed : Indexed T s.pending
  stored_eq : s.pending.stored = T.forest.ancestorsFrom t lo
  stale : ∀ {n h}, Stale s.pending n h → n < lo
  base_le : base ≤ lo
  lo_le : lo ≤ t.number
  start : lo = base ∨ lo ≤ t.number + 1 - c
  passed : passes s.trace =
    (T.forest.segment t base lo).flatMap (blockDeliveries s.pending.eventListeners rpc)

section Line

variable {T : BlockTree} {c : ConfirmationCount} {env : Environment α ι} {rpc : EthereumRpc}
  {t b : BlockInfo} {base lo : ℕ} {s : Session α ι} {lastKey : ℤ}

theorem Line.top_mem (h : Line T c rpc t base lo s) : t ∈ s.pending.stored := by
  rw [h.stored_eq]
  exact ⟨.refl t, h.lo_le⟩

/-- The numbers of its blocks are not changed by `int`. -/
theorem Line.javaInt_eq (h : Line T c rpc t base lo s) (h_bounded : T.Bounded) {y : BlockInfo}
    (h_y : y ∈ s.pending.stored) : javaInt y.number = y.number :=
  javaInt_natCast (h_bounded y (h.indexed.mem_tree h_y))

/-- The greatest height is that of `t`, which is above all stale entries. -/
theorem Line.lastKey_eq (h : Line T c rpc t base lo s) (h_bounded : T.Bounded)
    (h_key : s.pending.blockDepth.lastKey? = some lastKey) : lastKey = t.number := by
  have h_le := h.indexed.le_lastKey h_key h.top_mem
  rw [h.javaInt_eq h_bounded h.top_mem] at h_le
  -- an entry without a block is below the line
  have h_fresh : ∀ h' ∈ s.pending.hashesAt lastKey, s.pending.blockInfoMap h' ≠ none := by
    intro h' h_at h_none
    have h_lt := h.stale ⟨h_at, h_none⟩
    have h_lo := h.lo_le
    omega
  obtain ⟨y, h_y, h_tip⟩ := h.indexed.exists_tip h_fresh h_key
  rw [h.javaInt_eq h_bounded h_y] at h_tip
  have h_anc : T.forest.IsAncestor y t := by
    rw [h.stored_eq] at h_y
    exact h_y.1
  have h_rank : y.number ≤ t.number := h_anc.rank_le
  omega

/-- The due blocks are the line below the boundary. -/
theorem Line.due_eq (h : Line T c rpc t base lo s) (h_bounded : T.Bounded) (h_pos : 0 < c.val) :
    due env s.pending t.number (removalBoundry c t.number) =
      T.forest.segment t lo (t.number + 1 - c) := by
  have h_boundry := removalBoundry_eq h_pos (h_bounded t (h.indexed.mem_tree h.top_mem))
  have h_mem : ∀ y, y ∈ due env s.pending t.number (removalBoundry c t.number) ↔
      T.forest.IsAncestor y t ∧ lo ≤ y.number ∧ y.number < t.number + 1 - c := by
    intro y
    rw [h.indexed.mem_due, h_boundry]
    refine ⟨?_, ?_⟩
    · rintro ⟨h_low, t', h_t', h_number, h_chain⟩
      have h_y := h_chain.mem
      rw [h.javaInt_eq h_bounded h_y] at h_low
      rw [h.stored_eq] at h_y
      exact ⟨h_y.1, h_y.2, by omega⟩
    · rintro ⟨h_anc, h_lo, h_low⟩
      have h_y : y ∈ T.forest.ancestorsFrom t lo := ⟨h_anc, h_lo⟩
      refine ⟨?_, t, h.top_mem, h.javaInt_eq h_bounded h.top_mem, ?_⟩
      · rw [← h.stored_eq] at h_y
        rw [h.javaInt_eq h_bounded h_y]
        omega
      · rw [h.stored_eq]
        exact Forest.onChain_ancestorsFrom.mpr h_y
  -- the removal fires them by increasing height
  refine Forest.eq_segment ?_ h_mem
  refine Forest.sorted_of_chain (x := t) ?_ fun y h_y => ((h_mem y).mp h_y).1
  refine (h.indexed.due_sorted _ _).imp_of_mem fun {y z} h_y h_z h_lt => ⟨h_lt.1, ?_⟩
  have h_stored : ∀ x ∈ due env s.pending t.number (removalBoundry c t.number),
      x ∈ s.pending.stored := by
    intro x h_x
    obtain ⟨-, _, -, -, h_chain⟩ := h.indexed.mem_due.mp h_x
    exact h_chain.mem
  have h_le := h_lt.2
  rw [h.javaInt_eq h_bounded (h_stored y h_y), h.javaInt_eq h_bounded (h_stored z h_z)] at h_le
  exact_mod_cast h_le

/-! ### The removal -/

section Interrupted

variable {before after : List Hash} {blocks blocks' : List BlockInfo} {y : BlockInfo}

/-- The hashes that a removal loop passed until `y` are those of the stored blocks up to `y`. -/
theorem Line.hash_mem_before_iff (h : Line T c rpc t base lo s) (h_bounded : T.Bounded)
    (h_pos : 0 < c.val)
    (h_hashes : hashesToRemove env s.pending (removalBoundry c t.number) = before ++ after)
    (h_split : T.forest.segment t lo (t.number + 1 - c) = blocks ++ y :: blocks')
    (h_before : ∀ z ∈ T.forest.segment t lo (t.number + 1 - c),
      z.hash ∈ before ↔ z ∈ blocks ++ [y]) {z : BlockInfo} (h_z : z ∈ s.pending.stored) :
    z.hash ∈ before ↔ z.number ≤ y.number := by
  -- the block is one of those due
  have h_y : y ∈ T.forest.segment t lo (t.number + 1 - c) := by simp [h_split]
  obtain ⟨-, h_lo_y, h_y_low⟩ := Forest.mem_segment.mp h_y
  rw [BlockTree.forest_rank] at h_lo_y h_y_low
  have h_boundry := removalBoundry_eq h_pos (h_bounded t (h.indexed.mem_tree h.top_mem))
  have h_int := h.javaInt_eq h_bounded h_z
  have h_depth := h.indexed.info_depth h_z
  rw [h.stored_eq] at h_z
  -- what is removed before it, in the order of the code, is what stands below it
  refine ⟨?_, ?_⟩
  · intro h_mem
    have h_in : z.hash ∈ hashesToRemove env s.pending (removalBoundry c t.number) := by
      rw [h_hashes]
      exact List.mem_append_left _ h_mem
    obtain ⟨n, h_n, h_at⟩ := mem_hashesToRemove.mp h_in
    rw [h.indexed.height_unique h_at h_depth, h_int, h_boundry] at h_n
    have h_due : z ∈ T.forest.segment t lo (t.number + 1 - c) :=
      Forest.mem_segment.mpr ⟨h_z.1, h_z.2, by rw [BlockTree.forest_rank]; omega⟩
    have h_first := (h_before z h_due).mp h_mem
    rw [Forest.segment_split h_split, Forest.mem_segment] at h_first
    exact Nat.lt_succ_iff.mp h_first.2.2
  · intro h_le
    have h_due : z ∈ T.forest.segment t lo (t.number + 1 - c) :=
      Forest.mem_segment.mpr ⟨h_z.1, h_z.2, by rw [BlockTree.forest_rank]; omega⟩
    apply (h_before z h_due).mpr
    rw [Forest.segment_split h_split, Forest.mem_segment]
    exact ⟨h_z.1, h_z.2, Nat.lt_succ_of_le h_le⟩

/-- What is left when a removal loop was ended by the exception of `y`: the line
above `y`. -/
theorem Line.erased_spec (h : Line T c rpc t base lo s) (h_bounded : T.Bounded) (h_pos : 0 < c.val)
    (h_hashes : hashesToRemove env s.pending (removalBoundry c t.number) = before ++ after)
    (h_split : T.forest.segment t lo (t.number + 1 - c) = blocks ++ y :: blocks')
    (h_before : ∀ z ∈ T.forest.segment t lo (t.number + 1 - c),
      z.hash ∈ before ↔ z ∈ blocks ++ [y]) (trace : List (Output α ι)) :
    (s.erased before trace).pending.stored = T.forest.ancestorsFrom t (y.number + 1) ∧
      ∀ {n h'}, Stale (s.erased before trace).pending n h' → n < (y.number + 1 : ℕ) := by
  have h_y : y ∈ T.forest.segment t lo (t.number + 1 - c) := by simp [h_split]
  obtain ⟨-, h_lo_y, -⟩ := Forest.mem_segment.mp h_y
  rw [BlockTree.forest_rank] at h_lo_y
  have h_removed {z : BlockInfo} (h_z : z ∈ s.pending.stored) :
      z.hash ∈ before ↔ z.number ≤ y.number :=
    h.hash_mem_before_iff h_bounded h_pos h_hashes h_split h_before h_z
  refine ⟨?_, ?_⟩
  · ext z
    have h_stored : z ∈ (s.erased before trace).pending.stored ↔
        z ∈ s.pending.stored ∧ z.hash ∉ before := mem_stored_eraseAll
    rw [h_stored, Forest.mem_ancestorsFrom, BlockTree.forest_rank]
    refine ⟨?_, ?_⟩
    · rintro ⟨h_z, h_out⟩
      rw [h_removed h_z] at h_out
      rw [h.stored_eq] at h_z
      exact ⟨h_z.1, by omega⟩
    · rintro ⟨h_anc, h_lt⟩
      have h_z : z ∈ s.pending.stored := by
        rw [h.stored_eq]
        exact ⟨h_anc, by rw [BlockTree.forest_rank]; omega⟩
      exact ⟨h_z, by rw [h_removed h_z]; omega⟩
  · rintro n h' ⟨h_at, h_none⟩
    -- an entry without a block had none before, or has just lost it
    by_cases h_old : s.pending.blockInfoMap h' = none
    · have h_lt := h.stale ⟨h_at, h_old⟩
      omega
    · obtain ⟨z, h_info⟩ := Option.ne_none_iff_exists'.mp h_old
      obtain ⟨h_z, rfl⟩ := h.indexed.stored_of_info h_info
      have h_mem : z.hash ∈ before := by
        by_contra h_out
        change eraseAll s.pending.blockInfoMap before z.hash = none at h_none
        unfold eraseAll at h_none
        rw [if_neg h_out] at h_none
        exact h_old h_none
      have h_le := (h_removed h_z).mp h_mem
      rw [h.indexed.height_unique h_at (h.indexed.info_depth h_z), h.javaInt_eq h_bounded h_z]
      omega

end Interrupted

/-- What is left when all due blocks were fired: the line from the boundary on. -/
theorem Line.removedBelow_spec (h : Line T c rpc t base lo s) (h_bounded : T.Bounded)
    (h_pos : 0 < c.val) :
    (removedBelow env s.pending (removalBoundry c t.number)).stored =
      T.forest.ancestorsFrom t (max lo (t.number + 1 - c)) := by
  ext z
  rw [h.indexed.mem_stored_removedBelow,
    removalBoundry_eq h_pos (h_bounded t (h.indexed.mem_tree h.top_mem)),
    Forest.mem_ancestorsFrom, BlockTree.forest_rank]
  -- a block is left if it is stored and not below the boundary
  refine ⟨?_, ?_⟩
  · rintro ⟨h_z, h_le⟩
    rw [h.javaInt_eq h_bounded h_z] at h_le
    rw [h.stored_eq] at h_z
    exact ⟨h_z.1, max_le h_z.2 (by omega)⟩
  · rintro ⟨h_anc, h_le⟩
    have h_z : z ∈ s.pending.stored := by
      rw [h.stored_eq]
      exact ⟨h_anc, (le_max_left _ _).trans h_le⟩
    have h_le' := (le_max_right _ _).trans h_le
    exact ⟨h_z, by rw [h.javaInt_eq h_bounded h_z]; omega⟩

/-- All due blocks were fired: what is left is the line from the boundary on. -/
theorem Line.removedBelow (h : Line T c rpc t base lo s) (h_bounded : T.Bounded)
    (h_pos : 0 < c.val) :
    Line T c rpc t base (max lo (t.number + 1 - c))
      ⟨PendingEvents.removedBelow env s.pending (removalBoundry c t.number),
        s.trace ++ (T.forest.segment t lo (t.number + 1 - c)).flatMap
          (firedOutputs s.pending.eventListeners rpc)⟩ := by
  have h_base := h.base_le
  have h_lo := h.lo_le
  refine ⟨h.indexed.removedBelow _, h.removedBelow_spec h_bounded h_pos, ?_, by omega, by omega,
    ?_, ?_⟩
  · intro n h' h_stale
    -- a stale hash stands below the low end already
    have h_lt := h.stale (h.indexed.stale_removedBelow h_stale).2
    omega
  · rcases h.start with h_eq | h_le
    · rcases le_total lo (t.number + 1 - c) with h_lt | h_lt
      · exact Or.inr (by omega)
      · exact Or.inl (by omega)
    · exact Or.inr (by omega)
  -- what is fired is the segment that is due
  · have h_segment : T.forest.segment t lo (t.number + 1 - c) =
        T.forest.segment t lo (max lo (t.number + 1 - c)) := by
      rcases le_total lo (t.number + 1 - c) with h_le | h_le
      · rw [max_eq_right h_le]
      · rw [max_eq_left h_le, Forest.segment_eq_nil h_le, Forest.segment_eq_nil le_rfl]
    calc passes (s.trace ++ (T.forest.segment t lo (t.number + 1 - c)).flatMap
            (firedOutputs s.pending.eventListeners rpc))
        = passes s.trace ++ (T.forest.segment t lo (max lo (t.number + 1 - c))).flatMap
            (blockDeliveries s.pending.eventListeners rpc) := by
          rw [passes_append, passes_firedOutputs, h_segment]
      _ = (T.forest.segment t base lo ++
            T.forest.segment t lo (max lo (t.number + 1 - c))).flatMap
              (blockDeliveries s.pending.eventListeners rpc) := by
          rw [h.passed, List.flatMap_append]
      _ = (T.forest.segment t base (max lo (t.number + 1 - c))).flatMap
            (blockDeliveries s.pending.eventListeners rpc) := by
          rw [Forest.segment_append h_base (le_max_left _ _)]

/-- The block `y` threw, but all its logs had been passed on: what is left is the line
above `y`. -/
theorem Line.erased (h : Line T c rpc t base lo s) (h_bounded : T.Bounded) (h_pos : 0 < c.val)
    {before after : List Hash} {blocks blocks' : List BlockInfo} {y : BlockInfo}
    (h_hashes : hashesToRemove env s.pending (removalBoundry c t.number) = before ++ after)
    (h_split : T.forest.segment t lo (t.number + 1 - c) = blocks ++ y :: blocks')
    (h_before : ∀ z ∈ T.forest.segment t lo (t.number + 1 - c),
      z.hash ∈ before ↔ z ∈ blocks ++ [y]) {part : List (Output α ι)}
    (h_part : passes part =
      (blocks ++ [y]).flatMap (blockDeliveries s.pending.eventListeners rpc)) :
    Line T c rpc t base (y.number + 1) (s.erased before (s.trace ++ part)) := by
  obtain ⟨h_stored, h_stale⟩ :=
    h.erased_spec h_bounded h_pos h_hashes h_split h_before (s.trace ++ part)
  have h_y : y ∈ T.forest.segment t lo (t.number + 1 - c) := by simp [h_split]
  obtain ⟨-, h_lo_y, h_y_low⟩ := Forest.mem_segment.mp h_y
  rw [BlockTree.forest_rank] at h_lo_y h_y_low
  have h_base := h.base_le
  have h_lo := h.lo_le
  refine ⟨h.indexed.eraseAll before, h_stored, h_stale, by omega, by omega, Or.inr (by omega), ?_⟩
  -- what was fired so far and this block are one segment
  have h_first : blocks ++ [y] = T.forest.segment t lo (y.number + 1) :=
    Forest.segment_split h_split
  calc passes (s.trace ++ part)
      = (T.forest.segment t base lo).flatMap (blockDeliveries s.pending.eventListeners rpc) ++
          (blocks ++ [y]).flatMap (blockDeliveries s.pending.eventListeners rpc) := by
        rw [passes_append, h.passed, h_part]
    _ = (T.forest.segment t base lo ++ T.forest.segment t lo (y.number + 1)).flatMap
          (blockDeliveries s.pending.eventListeners rpc) := by
        rw [h_first, List.flatMap_append]
    _ = (T.forest.segment t base (y.number + 1)).flatMap
          (blockDeliveries s.pending.eventListeners rpc) := by
        rw [Forest.segment_append h_base (by omega)]

variable [DecidableEq ι]

/-- **The removal** goes some way up the line, and makes a part of the outputs of
the blocks it removes. If nothing that was to be passed on is missing, it is a line
again. -/
theorem Line.removed (h : Line T c rpc t base lo s) (h_bounded : T.Bounded) (h_pos : 0 < c.val)
    {o : Outcome (Session α ι)} (h_removed : Session.Removed c env rpc s t.number o)
    (h_full : (passes o.state.trace).length = (passes (s.trace ++
      (T.forest.segment t lo (t.number + 1 - c)).flatMap
        (firedOutputs s.pending.eventListeners rpc))).length) :
    ∃ lo', Line T c rpc t base lo' o.state ∧
      (T.forest.segment t lo' (t.number + 1 - c)).flatMap
        (blockDeliveries o.state.pending.eventListeners rpc) = [] := by
  have h_due := @Line.due_eq _ _ T c env rpc t base lo s h h_bounded h_pos
  cases h_removed with
  | @done trace h_fired =>
    rw [h_due] at h_fired
    have h_app := @fireBlocks_appends _ _ _ env s.pending.eventListeners rpc s.trace
      (T.forest.segment t lo (t.number + 1 - c))
    rw [h_fired] at h_app
    obtain rfl := returned.inj (h_app.eq_of_isReturned rfl)
    refine ⟨max lo (t.number + 1 - c), h.removedBelow h_bounded h_pos, ?_⟩
    rw [Forest.segment_eq_nil (le_max_right _ _)]
    rfl
  | @failed before after blocks y blocks' trace₁ trace h_hashes h_split h_before h_fired h_threw =>
    rw [h_due] at h_split h_before
    have h_all : T.forest.segment t lo (t.number + 1 - c) = (blocks ++ [y]) ++ blocks' := by
      rw [h_split, List.append_assoc, List.singleton_append]
    -- the loop has made a part of the outputs of the blocks up to `y`
    have h_app := @fireBlocks_appends _ _ _ env s.pending.eventListeners rpc s.trace (blocks ++ [y])
    rw [forEach_append, h_fired, bind_returned, forEach_cons, h_threw, bind_threw] at h_app
    obtain ⟨part, ⟨rest, h_part⟩, h_trace⟩ := h_app.state
    rw [state_threw] at h_trace
    subst h_trace
    -- and nothing that was to be passed on is missing from it
    have h_passes : passes part ++ passes rest =
        (blocks ++ [y]).flatMap (blockDeliveries s.pending.eventListeners rpc) := by
      rw [← passes_append, h_part, passes_firedOutputs]
    have h_rest : passes rest = [] ∧
        blocks'.flatMap (blockDeliveries s.pending.eventListeners rpc) = [] := by
      change (passes (s.trace ++ part)).length = _ at h_full
      rw [h_all, List.flatMap_append, passes_append, passes_append, passes_append,
        passes_firedOutputs, passes_firedOutputs, ← h_passes] at h_full
      simp only [List.length_append] at h_full
      exact ⟨List.eq_nil_of_length_eq_zero (by omega), List.eq_nil_of_length_eq_zero (by omega)⟩
    rw [h_rest.1, List.append_nil] at h_passes
    refine ⟨y.number + 1, h.erased h_bounded h_pos h_hashes h_split h_before h_passes, ?_⟩
    -- the blocks above `y` have nothing to pass on
    have h_y : y ∈ T.forest.segment t lo (t.number + 1 - c) := by simp [h_split]
    obtain ⟨-, h_lo_y, h_y_low⟩ := Forest.mem_segment.mp h_y
    rw [BlockTree.forest_rank] at h_lo_y h_y_low
    have h_above : T.forest.segment t (y.number + 1) (t.number + 1 - c) = blocks' := by
      have h_append : T.forest.segment t lo (y.number + 1) ++
          T.forest.segment t (y.number + 1) (t.number + 1 - c) =
            T.forest.segment t lo (t.number + 1 - c) :=
        Forest.segment_append (by omega) (by omega)
      rw [h_all, Forest.segment_split h_split] at h_append
      exact List.append_cancel_left h_append
    rw [h_above]
    exact h_rest.2

end Line

/-! ### Runs -/

section Run

variable [DecidableEq ι] {T : BlockTree} {c : ConfirmationCount} {env : Environment α ι}
  {rpc : EthereumRpc} {pre l : List (Input α ι)} {b y : BlockInfo}

/-- What has been imported after one more call. -/
theorem importedIn_concat :
    ImportedIn T c env (pre ++ [.newBlock rpc b]) y ↔
      ImportedIn T c env pre y ∨ y ∈ (Session.after c env pre).imported T c b :=
  atSomeCall_concat_newBlock

/-- Between calls: nothing has happened, or the monitor has a line that ends in the
block announced last, and all that was to be passed on has been. -/
structure Sequential (T : BlockTree) (c : ConfirmationCount) (env : Environment α ι)
    (rpc : EthereumRpc) (l : List (Input α ι)) (s : Session α ι) : Prop where
  before : notified l = [] → Indexed T s.pending ∧ s.pending.stored = ∅ ∧
    (∀ n h, ¬Stale s.pending n h) ∧ s.trace = [] ∧ ∀ y, ¬ImportedIn T c env l y
  line : ∀ t, (notified l).getLast? = some t → ∃ base lo, Line T c rpc t base lo s ∧
    (T.forest.segment t lo (t.number + 1 - c)).flatMap
      (blockDeliveries s.pending.eventListeners rpc) = [] ∧
    ∀ y, ImportedIn T c env l y ↔ y ∈ T.forest.ancestorsFrom t base

/-- The import makes the line one block longer, or starts it. -/
theorem Sequential.imported (h : Sequential T c env rpc pre (Session.after c env pre))
    (h_i : InSequence T rpc pre (.newBlock rpc b)) {p : PendingEvents α ι}
    (h_imp : Imported T rpc (fetchLimit c) b (Session.after c env pre).pending (returned p)) :
    ∃ base lo, Line T c rpc b base lo ⟨p, (Session.after c env pre).trace⟩ ∧
      ∀ y, ImportedIn T c env (pre ++ [.newBlock rpc b]) y ↔
        y ∈ T.forest.ancestorsFrom b base := by
  obtain ⟨-, h_b, h_parent⟩ := h_i
  have h_set : (Session.after c env pre).imported T c b = p.stored := Session.imported_eq h_imp
  have h_listeners : p.eventListeners = (Session.after c env pre).pending.eventListeners :=
    h_imp.listeners
  -- the first block founds a line, each later one is a child of its end
  cases h_last : (notified pre).getLast? with
  | none =>
    obtain ⟨-, h_empty, h_fresh, h_trace, h_none⟩ := h.before (List.getLast?_eq_none_iff.mp h_last)
    have h_line : (Session.after c env pre).imported T c b =
        T.forest.ancestorsFrom b (b.number - fetchLimit c) := by
      unfold Session.imported
      rw [h_empty]
      exact Forest.imported_empty _ _
    refine ⟨b.number - fetchLimit c, b.number - fetchLimit c, ?_, fun y => ?_⟩
    · refine ⟨h_imp.indexed, by rw [← h_line, h_set], fun h_stale => ?_, le_rfl, Nat.sub_le _ _,
        Or.inl rfl, ?_⟩
      · exact absurd (h_imp.stale h_stale) (h_fresh _ _)
      · rw [h_trace, Forest.segment_eq_nil le_rfl]
        rfl
    · rw [importedIn_concat, h_line]
      exact or_iff_right (h_none y)
  | some t =>
    obtain ⟨base, lo, h_line, -, h_imported⟩ := h.line t h_last
    have h_child := h_parent t h_last
    have h_rank : b.number = t.number + 1 := T.forest.rank_parent h_child
    have h_lo := h_line.lo_le
    have h_next : (Session.after c env pre).imported T c b = T.forest.ancestorsFrom b lo := by
      unfold Session.imported
      rw [h_line.stored_eq]
      exact Forest.imported_child h_child h_lo _
    refine ⟨base, lo, ?_, fun y => ?_⟩
    · refine ⟨h_imp.indexed, by rw [← h_next, h_set],
        fun h_stale => h_line.stale (h_imp.stale h_stale), h_line.base_le, by omega,
        h_line.start.imp_right fun h_le => by omega, ?_⟩
      dsimp only
      rw [h_line.passed, h_listeners,
        Forest.segment_congr (Forest.isAncestor_of_parent h_child)
          (by rw [BlockTree.forest_rank]; omega)]
    · have h_base := h_line.base_le
      rw [importedIn_concat, h_imported, h_next, Forest.mem_ancestorsFrom,
        Forest.mem_ancestorsFrom, Forest.mem_ancestorsFrom, Forest.isAncestor_child h_child,
        BlockTree.forest_rank]
      refine ⟨?_, ?_⟩
      · rintro (⟨h_anc, h_le⟩ | ⟨h_anc, h_le⟩)
        · exact ⟨Or.inr h_anc, h_le⟩
        · exact ⟨h_anc, h_base.trans h_le⟩
      · rintro ⟨rfl | h_anc, h_le⟩
        · exact Or.inr ⟨Or.inl rfl, by omega⟩
        · exact Or.inl ⟨h_anc, h_le⟩

omit [DecidableEq ι] in
/-- What a line has passed on, together with what is still due, is all the logs from
its base on. -/
theorem Line.passed_append {t : BlockInfo} {base lo : ℕ} {s : Session α ι}
    (h : Line T c rpc t base lo s) :
    passes s.trace ++ (T.forest.segment t lo (t.number + 1 - c)).flatMap
        (blockDeliveries s.pending.eventListeners rpc) =
      (T.forest.segment t base (t.number + 1 - c)).flatMap
        (blockDeliveries s.pending.eventListeners rpc) := by
  have h_base := h.base_le
  rw [h.passed, ← List.flatMap_append]
  rcases h.start with rfl | h_le
  · rw [Forest.segment_eq_nil le_rfl, List.nil_append]
  · rw [Forest.segment_append h_base h_le]

/-- The blocks of which the logs must have been passed on. -/
theorem mem_segment_iff {t : BlockInfo} {base : ℕ} (h_last : (notified l).getLast? = some t)
    (h_imported : ∀ y, ImportedIn T c env l y ↔ y ∈ T.forest.ancestorsFrom t base) :
    y ∈ T.forest.segment t base (t.number + 1 - c) ↔ ImportedIn T c env l y ∧
      ∀ last, (notified l).getLast? = some last → y.number + c ≤ last.number := by
  rw [Forest.mem_segment, h_imported, Forest.mem_ancestorsFrom, and_assoc, BlockTree.forest_rank]
  refine and_congr_right fun _ => and_congr_right fun _ => ?_
  refine ⟨?_, ?_⟩
  · intro h_low last h_eq
    rw [h_last] at h_eq
    obtain rfl := Option.some.inj h_eq
    omega
  · intro h_low
    have h_le := h_low t h_last
    omega

/-- **All that was imported and confirmed has been passed**, if the invariant holds. -/
theorem Sequential.allPassed (h : Sequential T c env rpc l (Session.after c env l)) :
    AllPassed T c env rpc l := by
  cases h_last : (notified l).getLast? with
  -- before the first announcement
  | none =>
    obtain ⟨-, -, -, h_trace, h_none⟩ := h.before (List.getLast?_eq_none_iff.mp h_last)
    refine ⟨[], List.nodup_nil, fun y => ?_, ?_⟩
    · exact iff_of_false List.not_mem_nil fun h_y => h_none y h_y.1
    · rw [h_trace]
      exact .refl _
  -- afterwards, the segment up to the last tip
  | some t =>
    obtain ⟨base, lo, h_line, h_rest, h_imported⟩ := h.line t h_last
    have h_append := h_line.passed_append
    rw [h_rest, List.append_nil] at h_append
    refine ⟨T.forest.segment t base (t.number + 1 - c), Forest.segment_nodup _ _ _,
      fun y => mem_segment_iff h_last h_imported, ?_⟩
    rw [h_append]

/-- The indexes are sound in this state. -/
theorem Sequential.indexed (h : Sequential T c env rpc pre (Session.after c env pre)) :
    Indexed T (Session.after c env pre).pending := by
  cases h_last : (notified pre).getLast? with
  | none => exact (h.before (List.getLast?_eq_none_iff.mp h_last)).1
  | some t =>
    obtain ⟨base, lo, h_line, -⟩ := h.line t h_last
    exact h_line.indexed

/-- The attempts of a call are those of the imported line below the boundary. -/
theorem Line.nothingCutOff_iff {p : PendingEvents α ι} {base lo : ℕ}
    (h : Line T c rpc b base lo ⟨p, (Session.after c env pre).trace⟩) (h_bounded : T.Bounded)
    (h_pos : 0 < c.val)
    (h_imp : Imported T rpc (fetchLimit c) b (Session.after c env pre).pending (returned p))
    (h_key : p.blockDepth.lastKey? = some (b.number : ℤ)) :
    NothingCutOff T c env pre (.newBlock rpc b) ↔ ¬CutsOff env (Session.after c env pre).trace
      ((T.forest.segment b lo (b.number + 1 - c)).flatMap
        (blockAttempts p.eventListeners rpc)) := by
  have h_listeners : p.eventListeners = (Session.after c env pre).pending.eventListeners :=
    h_imp.listeners
  have h_due := @Line.due_eq _ _ T c env rpc b base lo _ h h_bounded h_pos
  have h_tip : ∃ t ∈ p.stored, javaInt t.number = (b.number : ℤ) :=
    ⟨b, h.top_mem, h.javaInt_eq h_bounded h.top_mem⟩
  have h_mem : ∀ y, y ∈ T.forest.segment b lo (b.number + 1 - c) ↔
      (Session.after c env pre).Due T c b y := by
    intro y
    rw [← @Session.mem_due_iff _ _ T c env rpc _ b p _ y h_imp h_key h_tip, ← h_due]
  rw [h_listeners]
  -- the attempts for the segment and for its blocks in order are the same
  refine ⟨?_, ?_⟩
  · exact fun h_all => h_all _ (@Forest.segment_sorted _ T.forest b lo _) h_mem
  · intro h_not blocks h_sorted h_blocks
    have h_eq := @Forest.eq_of_sorted _ T.forest _ _ h_sorted (Forest.segment_sorted b lo _)
      fun y => (h_blocks y).trans (h_mem y).symm
    rwa [h_eq]

/-- **The step.** If no attempt cuts off another, or if all has been passed on
afterwards, both hold. -/
theorem Sequential.newBlock (h_bounded : T.Bounded) (h_pos : 0 < c.val) (h_rpc : rpc.Serves T)
    (h_receipts : ∀ y ∈ T, ReceiptsServed rpc y)
    (h : Sequential T c env rpc pre (Session.after c env pre))
    (h_i : InSequence T rpc pre (.newBlock rpc b))
    (h_or : NothingCutOff T c env pre (.newBlock rpc b) ∨
      AllPassed T c env rpc (pre ++ [.newBlock rpc b])) :
    NothingCutOff T c env pre (.newBlock rpc b) ∧
      Sequential T c env rpc (pre ++ [.newBlock rpc b])
        (Session.after c env (pre ++ [.newBlock rpc b])) := by
  obtain ⟨o, h_imp, h_call⟩ := @Session.newBlock_spec _ _ T c env rpc (Session.after c env pre) b _
    h_rpc.answersBy h.indexed h_i.2.1
  -- the node answers, so the import does not throw
  obtain ⟨p, lastKey, rfl, h_key, h_removed⟩ := h_call.resolve_left fun ⟨p, h_threw, _⟩ => by
    have h_ret := (h_imp.of_serves h_rpc).1
    rw [h_threw] at h_ret
    cases h_ret
  obtain ⟨base, lo, h_line, h_imported⟩ := h.imported h_i h_imp
  obtain rfl := h_line.lastKey_eq h_bounded h_key
  have h_cut := h_line.nothingCutOff_iff h_bounded h_pos h_imp h_key
  -- the attempts make the outputs of the call
  have h_receipts' : ∀ y ∈ T.forest.segment b lo (b.number + 1 - c), ReceiptsServed rpc y :=
    fun y h_y => h_receipts y
      (BlockTree.mem_of_isAncestor (Forest.mem_segment.mp h_y).1 h_i.2.1)
  have h_loop := h_removed.trace_eq
  dsimp only at h_loop
  rw [h_line.due_eq h_bounded h_pos, fireBlocks_eq h_receipts'] at h_loop
  have h_full := @passes_forEach_iff _ _ _ env ((T.forest.segment b lo (b.number + 1 - c)).flatMap
    (blockAttempts p.eventListeners rpc)) (Session.after c env pre).trace
  rw [← h_loop, outputs_blocksAttempts, ← h_cut] at h_full
  have h_last : (notified (pre ++ [.newBlock rpc b])).getLast? = some b := by
    rw [notified_concat_newBlock]
    exact List.getLast?_concat
  rw [after_newBlock]
  have h_not : NothingCutOff T c env pre (.newBlock rpc b) := by
    -- if all was passed on, the call has passed on as much as was due
    rcases h_or with h_not | ⟨blocks, h_nodup, h_blocks, h_perm⟩
    · exact h_not
    · have h_same : blocks.Perm (T.forest.segment b base (b.number + 1 - c)) := by
        apply (List.perm_ext_iff_of_nodup h_nodup (Forest.segment_nodup _ _ _)).mpr
        intro y
        exact (h_blocks y).trans (mem_segment_iff h_last h_imported).symm
      rw [after_newBlock, h_removed.listeners] at h_perm
      apply h_full.mp
      calc _ = ((T.forest.segment b base (b.number + 1 - c)).flatMap
              (blockDeliveries p.eventListeners rpc)).length :=
            (h_perm.trans (h_same.flatMap_right _)).length_eq
        _ = (passes (Session.after c env pre).trace ++
              (T.forest.segment b lo (b.number + 1 - c)).flatMap
                (blockDeliveries p.eventListeners rpc)).length :=
            congrArg List.length h_line.passed_append.symm
        _ = _ := by rw [passes_append, passes_firedOutputs]
  refine ⟨h_not, ?_⟩
  obtain ⟨lo', h_next, h_rest⟩ := h_line.removed h_bounded h_pos h_removed (h_full.mpr h_not)
  refine ⟨?_, ?_⟩
  · intro h_nil
    rw [h_nil] at h_last
    cases h_last
  · intro t h_t
    rw [h_last] at h_t
    obtain rfl := Option.some.inj h_t
    exact ⟨base, lo', h_next, h_rest, h_imported⟩

/-- Listeners are added before the first announcement. -/
theorem Sequential.addEventListener (h : Sequential T c env rpc pre (Session.after c env pre))
    (h_none : notified pre = []) (topics : List String) (decodeEvent : LogEntry → Option α)
    (handler : ι) :
    Sequential T c env rpc (pre ++ [.addEventListener topics decodeEvent handler])
      (Session.after c env (pre ++ [.addEventListener topics decodeEvent handler])) := by
  obtain ⟨h_idx, h_empty, h_fresh, h_trace, h_not⟩ := h.before h_none
  have h_notified : notified (pre ++ [Input.addEventListener topics decodeEvent handler]) = [] :=
    (notified_concat_addEventListener pre topics decodeEvent handler).trans h_none
  obtain ⟨eventListeners, h_after⟩ := after_addEventListener c env pre topics decodeEvent handler
  rw [h_after]
  refine ⟨?_, ?_⟩
  -- nothing has been announced yet
  · intro _
    refine ⟨h_idx.withListeners eventListeners, h_empty, h_fresh, h_trace, fun y h_y => ?_⟩
    rw [ImportedIn, atSomeCall_concat_addEventListener] at h_y
    exact h_not y h_y
  · intro t h_t
    rw [h_notified] at h_t
    cases h_t

/-- The invariant at the start. -/
theorem sequential_init : Sequential T c env rpc [] (Session.init : Session α ι) where
  before := by
    refine fun _ => ⟨indexed_init T, ?_, ?_, rfl, fun _ => not_atSomeCall_nil⟩
    · exact Set.eq_empty_iff_forall_notMem.mpr fun _ h => nomatch h
    · rintro n h ⟨h_at, -⟩
      cases h_at
  line := fun t h_t => nomatch h_t

/-- **Failing handlers.** Over a chain without forks, all that is due has been passed
on after each call, if and only if in no call an attempt that throws cuts off another. -/
theorem failing_handlers_lose_nothing_iff (T : BlockTree) (h_bounded : T.Bounded)
    (c : ConfirmationCount) (h_pos : 0 < c.val) (env : Environment α ι) (rpc : EthereumRpc)
    (h_rpc : rpc.Serves T) (h_receipts : ∀ y ∈ T, ReceiptsServed rpc y) (l : List (Input α ι))
    (h_seq : Along (InSequence T rpc) l) :
    (∀ pre, pre <+: l → AllPassed T c env rpc pre) ↔ Along (NothingCutOff T c env) l := by
  refine @along_iff _ (InSequence T rpc) (NothingCutOff T c env)
    (fun l => Sequential T c env rpc l (Session.after c env l)) (AllPassed T c env rpc)
    sequential_init (fun pre i h_pre h_i h_or => ?_) (fun l h => h.allPassed) l h_seq
  cases i with
  | addEventListener topics decodeEvent handler =>
    exact ⟨trivial, h_pre.addEventListener h_i topics decodeEvent handler⟩
  -- each call announces the child of the last block
  | newBlock rpc' b =>
    obtain ⟨rfl, -⟩ := id h_i
    exact h_pre.newBlock h_bounded h_pos h_rpc h_receipts h_i h_or

end Run

/-! ### A handler that throws once -/

/-- Handlers throw when they are called for the first time. -/
def Environment.firstRefused : Environment String String where
  accept _ earlier _ := !earlier.isEmpty
  iterate := id
  iterate_perm l := .refl l

/-- A second payment in the transaction of block 0. -/
def secondLog : LogEntry := ⟨"0xc0", ["PaymentMessage"], "20 GBP"⟩

/-- The two blocks of the payment are announced in sequence. -/
theorem inSequence_paymentRun (logs : List LogEntry) :
    Along (InSequence (.line paymentBlocks) (lineRpc paymentBlocks fun _ => logs))
      (paymentRun logs 1) := by
  refine (along_concat (l := paymentRun logs 0)).mpr
    ⟨(along_concat (l := [_])).mpr ⟨(along_concat (l := [])).mpr ⟨along_nil, rfl⟩, ?_⟩, ?_⟩
  · refine ⟨rfl, line_mem _ (by decide), fun last h_last => ?_⟩
    cases h_last
  · refine ⟨rfl, line_mem _ (by decide), fun last h_last => ?_⟩
    obtain rfl : lineBlock paymentBlocks 0 = last := Option.some.inj h_last
    exact line_parent paymentBlocks (by decide)

/-- A single log for a single listener is passed on once. -/
theorem length_deliveries_single {eventListeners : EventListeners String String}
    {blocks : List BlockInfo}
    (h_listeners : (paymentLog.topics.head?.bind eventListeners).getD [] =
      [⟨["PaymentMessage"], fun logEntry => some logEntry.data, "bank"⟩])
    (h_line : ∀ y ∈ blocks, y ∈ BlockTree.line paymentBlocks)
    (h_sorted : blocks.Pairwise fun x y => x.number < y.number) :
    (blocks.flatMap (blockDeliveries eventListeners
      (lineRpc paymentBlocks fun _ => [paymentLog]))).length ≤ 1 := by
  -- the only block with a log to pass on is block 0
  have h_later : ∀ y ∈ blocks, 0 < y.number →
      blockDeliveries eventListeners (lineRpc paymentBlocks fun _ => [paymentLog]) y = [] := by
    intro y h_y h_pos
    obtain ⟨n, -, rfl⟩ := exists_of_line_mem paymentBlocks (h_line y h_y)
    unfold blockDeliveries blockLogs lineBlock paymentBlocks
    rw [if_neg (show n ≠ 0 from h_pos.ne')]
    rfl
  cases blocks with
  | nil => exact Nat.zero_le 1
  | cons y blocks =>
    obtain ⟨h_lt, -⟩ := List.pairwise_cons.mp h_sorted
    have h_rest : blocks.flatMap
        (blockDeliveries eventListeners (lineRpc paymentBlocks fun _ => [paymentLog])) = [] := by
      apply List.flatMap_eq_nil_iff.mpr
      intro z h_z
      exact h_later z (List.mem_cons_of_mem y h_z) (Nat.zero_lt_of_lt (h_lt z h_z))
    rw [List.flatMap_cons, h_rest, List.append_nil]
    obtain ⟨n, -, rfl⟩ := exists_of_line_mem paymentBlocks (h_line y List.mem_cons_self)
    rcases Nat.eq_zero_or_pos n with rfl | h_pos
    · unfold blockDeliveries blockLogs logDeliveries listenersFor
      change (List.map _
        (List.filter _ ((paymentLog.topics.head?.bind eventListeners).getD [])) ++ []).length ≤ 1
      rw [h_listeners]
      decide
    · rw [h_later _ List.mem_cons_self h_pos]
      exact Nat.zero_le 1

/-- Where there is a single log for a single listener, an attempt that throws cuts
off nothing. -/
theorem not_cutsOff_single {eventListeners : EventListeners String String}
    {trace : List (Output String String)} {blocks : List BlockInfo}
    (h_listeners : (paymentLog.topics.head?.bind eventListeners).getD [] =
      [⟨["PaymentMessage"], fun logEntry => some logEntry.data, "bank"⟩])
    (h_line : ∀ y ∈ blocks, y ∈ BlockTree.line paymentBlocks)
    (h_sorted : blocks.Pairwise fun x y => x.number < y.number) :
    ¬CutsOff .firstRefused trace
      (blocks.flatMap
        (blockAttempts eventListeners (lineRpc paymentBlocks fun _ => [paymentLog]))) := by
  have h_total := length_deliveries_single h_listeners h_line h_sorted
  rintro ⟨before, a, after, h_split, h_threw, h_lost⟩
  have h_passes :=
    congrArg (fun attempts => (passes (attempts.flatMap Attempt.outputs)).length) h_split
  rw [outputs_blocksAttempts, passes_firedOutputs, List.flatMap_append, List.flatMap_cons,
    passes_append, passes_append, List.length_append, List.length_append] at h_passes
  -- so the attempt that throws is not the one that passes it on
  have h_none : passes a.outputs = [] := by
    have h_pos := List.length_pos_of_ne_nil h_lost
    exact List.eq_nil_of_length_eq_zero (by omega)
  have h_a : a ∈ blocks.flatMap
      (blockAttempts eventListeners (lineRpc paymentBlocks fun _ => [paymentLog])) := by
    simp [h_split]
  obtain ⟨y, -, h_a⟩ := List.mem_flatMap.mp h_a
  rcases List.mem_cons.mp h_a with rfl | h_a
  · cases h_threw
  obtain ⟨logEntry, h_log, h_a⟩ := List.mem_flatMap.mp h_a
  obtain ⟨transactionHash, -, h_log⟩ := List.mem_flatMap.mp h_log
  obtain rfl := List.mem_singleton.mp h_log
  rcases List.mem_cons.mp h_a with rfl | h_a
  · cases h_threw
  · rw [h_listeners] at h_a
    obtain rfl := List.mem_singleton.mp h_a
    cases h_none

/-- Nothing is cut off in this run, though the handler throws. -/
theorem nothingCutOff_paymentRun :
    Along (NothingCutOff (.line paymentBlocks) oneConfirmation .firstRefused)
      (paymentRun [paymentLog] 1) := by
  have h_tree := fromTree_paymentRun [paymentLog] (show 1 + 1 < 2 ^ 31 by decide)
  have h_step : ∀ pre, pre <+: paymentRun [paymentLog] 1 → ∀ n < 2 ^ 31,
      (paymentLog.topics.head?.bind
        (Session.after oneConfirmation .firstRefused pre).pending.eventListeners).getD [] =
          [⟨["PaymentMessage"], fun logEntry => some logEntry.data, "bank"⟩] →
      NothingCutOff (.line paymentBlocks) oneConfirmation .firstRefused pre
        (.newBlock (lineRpc paymentBlocks fun _ => [paymentLog]) (lineBlock paymentBlocks n)) := by
    intro pre h_pre n h_n h_listeners blocks h_sorted h_due
    refine not_cutsOff_single h_listeners (fun y h_y => ?_) h_sorted
    exact ((h_due y).mp h_y).mem_tree (after_indexed pre (h_tree.restrict h_pre))
      (line_mem paymentBlocks h_n)
  refine (along_concat (l := paymentRun [paymentLog] 0)).mpr
    ⟨(along_concat (l := [_])).mpr ⟨(along_concat (l := [])).mpr ⟨along_nil, trivial⟩, ?_⟩, ?_⟩
  · exact h_step _ ⟨_, rfl⟩ 0 (by decide) rfl
  · refine h_step _ ⟨[_], rfl⟩ 1 (by decide) ?_
    -- the first announcement keeps the listeners
    change (paymentLog.topics.head?.bind (Session.after oneConfirmation .firstRefused
      ([_] ++ [_])).pending.eventListeners).getD [] = _
    rw [after_newBlock, Session.newBlock_listeners (lineRpc_serves paymentBlocks _).answersBy
      (after_indexed _ (h_tree.restrict ⟨_, rfl⟩)) (line_mem paymentBlocks (by decide))]
    rfl

/-- The handler throws on the only payment, and nothing is lost. -/
theorem failing_handlers_lose_nothing_single :
    ((Session.after oneConfirmation .firstRefused (paymentRun [paymentLog] 0)).newBlock
        oneConfirmation .firstRefused (lineRpc paymentBlocks fun _ => [paymentLog])
        (lineBlock paymentBlocks 1)).isReturned = false ∧
      ∀ pre, pre <+: paymentRun [paymentLog] 1 →
        AllPassed (.line paymentBlocks) oneConfirmation .firstRefused
          (lineRpc paymentBlocks fun _ => [paymentLog]) pre :=
  ⟨by decide +kernel,
    (failing_handlers_lose_nothing_iff (.line paymentBlocks) (line_bounded _) oneConfirmation one_pos
      .firstRefused (lineRpc paymentBlocks fun _ => [paymentLog]) (lineRpc_serves _ _)
      (fun _ _ _ _ => Option.some_ne_none _) (paymentRun [paymentLog] 1)
      (inSequence_paymentRun _)).mpr nothingCutOff_paymentRun⟩

/-- The handler throws on the first of two payments in one block, and is never called
with the second. -/
theorem not_allPassed_firstRefused :
    Along (InSequence (.line paymentBlocks)
        (lineRpc paymentBlocks fun _ => [paymentLog, secondLog]))
        (paymentRun [paymentLog, secondLog] 1) ∧
      ¬AllPassed (.line paymentBlocks) oneConfirmation .firstRefused
        (lineRpc paymentBlocks fun _ => [paymentLog, secondLog])
        (paymentRun [paymentLog, secondLog] 1) := by
  -- the first block is confirmed, so its payment had to be passed
  refine ⟨inSequence_paymentRun _, ?_⟩
  rintro ⟨blocks, -, h_blocks, h_perm⟩
  have h_zero : lineBlock paymentBlocks 0 ∈ blocks := by
    refine (h_blocks _).mpr ⟨⟨[_], _, _, ⟨[_], rfl⟩, Or.inr (Forest.walked_self _ _)⟩, ?_⟩
    intro last h_last
    obtain rfl : lineBlock paymentBlocks 1 = last := Option.some.inj h_last
    decide
  obtain ⟨before, after, rfl⟩ := List.append_of_mem h_zero
  have h_length := h_perm.length_eq
  rw [List.flatMap_append, List.flatMap_cons, List.length_append, List.length_append] at h_length
  have h_passed : (passes (Session.after oneConfirmation .firstRefused
      (paymentRun [paymentLog, secondLog] 1)).trace).length = 1 := by
    decide +kernel
  -- but the handler threw on the first of them
  have h_due : (blockDeliveries (Session.after oneConfirmation .firstRefused
      (paymentRun [paymentLog, secondLog] 1)).pending.eventListeners
        (lineRpc paymentBlocks fun _ => [paymentLog, secondLog]) (lineBlock paymentBlocks 0)).length =
      2 := by
    decide +kernel
  omega

end Ethiso
