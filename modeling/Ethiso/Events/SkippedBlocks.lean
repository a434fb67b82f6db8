import Ethiso.Events.ConfirmedChain

/-!
# Skipped announcements

The poller announces the blocks of a chain in order, but it may skip some: an
exception ends its loop over the new blocks. The import makes up for skipped
blocks, as far as its limit allows: it stores at most `fetchLimit c + 1` blocks,
so at most `fetchLimit c` blocks may be skipped between two announcements
(`SkipsAtMost`). Then no event is lost: in every state reached, the fired blocks
are in increasing order and each block from the first announced one up to `c`
below the last one is among them once (`AllConfirmedFired`).

With one block more the two parts of the chain do not connect, and blocks are lost
for good (`not_allConfirmedFired_skip8`).
-/

namespace Ethiso

open Outcome PendingEvents

variable {α ι : Type*} [DecidableEq ι]

/-- The announced block is above the one announced before, on its chain, and the
call does not fail. -/
def InOrder (T : BlockTree) (c : ConfirmationCount) (env : Environment α ι)
    (pre : List (Input α ι)) : Input α ι → Prop
  | .addEventListener .. => True
  | .newBlock rpc b =>
    b ∈ T ∧ rpc.AnswersBy T ∧
      ((Session.after c env pre).newBlock c env rpc b).isReturned = true ∧
      ∀ last, (notified pre).getLast? = some last →
        T.forest.IsAncestor last b ∧ last.number < b.number

/-- At most `n` blocks are skipped between the announced block and the one before. -/
def SkipsAtMost (n : ℕ) (pre : List (Input α ι)) : Input α ι → Prop
  | .addEventListener .. => True
  | .newBlock _ b => ∀ last, (notified pre).getLast? = some last → b.number ≤ last.number + n + 1

/-- The fired blocks are in increasing order, and each block of the chain from the
first announced one up to `c` below the last announced one is fired once. -/
structure AllConfirmedFired (T : BlockTree) (c : ConfirmationCount) (env : Environment α ι)
    (l : List (Input α ι)) : Prop where
  sorted : (Session.after c env l).firedBlocks.Pairwise fun x y => x.number < y.number
  once : ∀ first last, (notified l).head? = some first → (notified l).getLast? = some last →
    ∀ y, T.forest.IsAncestor y last → first.number ≤ y.number → y.number + c ≤ last.number →
      (Session.after c env l).firedBlocks.count y = 1

section Run

variable {T : BlockTree} {c : ConfirmationCount} {env : Environment α ι} {rpc : EthereumRpc}
  {pre : List (Input α ι)} {b : BlockInfo}

/-- The block announced last is the highest, and the monitor is an observer. -/
structure FollowsChain (T : BlockTree) (c : ConfirmationCount) (l : List (Input α ι))
    (s : Session α ι) : Prop where
  observing : Observing T c l s
  last : firstHighest (notified l) = (notified l).getLast?

/-- **The step.** A block at most `fetchLimit c` blocks ahead connects to the window,
whose highest block is the one announced before. -/
theorem FollowsChain.newBlock (h_pos : 0 < c.val) (h_bounded : T.Bounded)
    (h : FollowsChain T c pre (Session.after c env pre))
    (h_order : InOrder T c env pre (.newBlock rpc b))
    (h_skip : SkipsAtMost (fetchLimit c) pre (.newBlock rpc b)) :
    DeliversFired c env pre (.newBlock rpc b) ∧
      FollowsChain T c (pre ++ [.newBlock rpc b])
        (Session.after c env (pre ++ [.newBlock rpc b])) := by
  obtain ⟨h_b, h_rpc, h_ret, h_desc⟩ := h_order
  obtain ⟨h_obs, h_last⟩ := h
  -- the block announced before, and the observer whose highest block it is
  have h_before : notified pre ≠ [] → ∃ last base, (notified pre).getLast? = some last ∧
      firstHighest (notified pre) = some last ∧
      T.forest.Confirmed c base last (Session.after c env pre).pending.stored
        (Session.after c env pre).firedBlocks := by
    intro h_ne
    obtain ⟨last, -, h_first, -⟩ := firstHighest_spec h_ne
    obtain ⟨base, -, h_conf⟩ := h_obs.confirmed last h_first
    exact ⟨last, base, h_last ▸ h_first, h_first, h_conf⟩
  have h_step := h_obs.returned h_pos h_bounded h_b h_rpc ?_ ?_ (isReturned_iff.mp h_ret)
  · refine ⟨h_step.1, h_step.2, ?_⟩
    rw [notified_concat_newBlock, firstHighest_concat, List.getLast?_concat]
    by_cases h_nil : notified pre = []
    · rw [h_nil]
      rfl
    · obtain ⟨last, -, h_get, h_first, -⟩ := h_before h_nil
      rw [h_first]
      unfold higher
      rw [Option.elim_some, if_pos (h_desc last h_get).2]
  · intro h_ne
    obtain ⟨last, base, h_get, -, h_conf⟩ := h_before h_ne
    obtain ⟨h_anc, h_lt⟩ := h_desc last h_get
    have h_gap := h_skip last h_get
    refine ⟨b.number - last.number - 1, by omega, last, h_conf.top_mem, ?_⟩
    have h_up := h_anc.up_eq
    rw [BlockTree.forest_rank, BlockTree.forest_rank] at h_up
    rwa [Nat.sub_add_cancel (by omega)]
  · intro h_ne _ y h_y
    obtain ⟨last, base, h_get, -, h_conf⟩ := h_before h_ne
    rw [h_conf.confirmed_eq, Forest.mem_segment] at h_y
    exact h_y.1.trans (h_desc last h_get).1

/-- **The invariant of a run** whose announcements are near enough. -/
theorem after_followsChain (h_pos : 0 < c.val) (h_bounded : T.Bounded) (l : List (Input α ι))
    (h : Along (fun pre i => InOrder T c env pre i ∧ SkipsAtMost (fetchLimit c) pre i) l) :
    FollowsChain T c l (Session.after c env l) := by
  refine @after_induction _ _ _ c env
    (fun pre i => InOrder T c env pre i ∧ SkipsAtMost (fetchLimit c) pre i)
    (fun l s => FollowsChain T c l s) ⟨observing_init, rfl⟩ (fun pre i h_pre h_i => ?_) l h
  cases i with
  | addEventListener topics decodeEvent handler =>
    refine ⟨h_pre.observing.addEventListener topics decodeEvent handler, ?_⟩
    rw [notified_concat_addEventListener]
    exact h_pre.last
  | newBlock rpc b => exact (h_pre.newBlock h_pos h_bounded h_i.1 h_i.2).2

theorem FollowsChain.allConfirmedFired {l : List (Input α ι)}
    (h : FollowsChain T c l (Session.after c env l)) : AllConfirmedFired T c env l := by
  by_cases h_nil : notified l = []
  · obtain ⟨-, h_none⟩ := h.observing.before h_nil
    refine ⟨?_, ?_⟩
    · rw [h_none]
      exact List.Pairwise.nil
    · intro first last h_first
      rw [h_nil] at h_first
      cases h_first
  · obtain ⟨t, -, h_t, -⟩ := firstHighest_spec h_nil
    obtain ⟨base, h_base, h_conf⟩ := h.observing.confirmed t h_t
    -- the fired blocks are a segment of the chain of the last block
    have h_sorted :
        (Session.after c env l).firedBlocks.Pairwise fun x y => x.number < y.number := by
      rw [h_conf.confirmed_eq]
      exact @Forest.segment_sorted _ T.forest t _ _
    refine ⟨h_sorted, fun first last h_first h_last y h_y h_le h_low => ?_⟩
    rw [← h.last, h_t, Option.some.injEq] at h_last
    subst h_last
    have h_first_le : base.number ≤ first.number := (h_base first h_first).rank_le
    apply List.count_eq_one_of_mem (@Forest.nodup_of_sorted _ T.forest _ h_sorted)
    rw [h_conf.confirmed_eq, Forest.mem_segment]
    refine ⟨h_y, h_first_le.trans h_le, ?_⟩
    rw [BlockTree.forest_rank, BlockTree.forest_rank]
    omega

/-- **Skipped announcements** lose no event, if at most `fetchLimit c` blocks are
skipped at a time: `c + 6`, or none where `c + 5` is no `int`. -/
theorem skipped_announcements_lose_nothing (T : BlockTree) (h_bounded : T.Bounded)
    (c : ConfirmationCount) (h_pos : 0 < c.val) (env : Environment α ι) (l : List (Input α ι))
    (h_order : Along (InOrder T c env) l) (h_skip : Along (SkipsAtMost (fetchLimit c)) l) :
    (∀ pre, pre <+: l → AllConfirmedFired T c env pre) ∧ Along (DeliversFired c env) l := by
  have h := h_order.and h_skip
  -- the property of the states, and then that of the calls
  refine ⟨?_, ?_⟩
  · intro pre h_pre
    exact (after_followsChain h_pos h_bounded pre (h.restrict h_pre)).allConfirmedFired
  · intro pre i post h_eq
    have h_pre := after_followsChain h_pos h_bounded pre (h.restrict ⟨i :: post, h_eq.symm⟩)
    obtain ⟨h_i, h_i'⟩ := h pre i post h_eq
    cases i with
    | addEventListener topics decodeEvent handler => trivial
    | newBlock rpc b => exact (h_pre.newBlock h_pos h_bounded h_i h_i').1

end Run

/-! ### One skipped block too many -/

/-- Two announcements on the line are in order. -/
theorem inOrder_announceRun {n : ℕ} (h_pos : 0 < n) (h_n : n < 2 ^ 31)
    (h_ret : ∀ k < 2, ((Session.after oneConfirmation .quiet
      ((announceRun [paymentLog] [0, n]).take k)).newBlock oneConfirmation .quiet
        (lineRpc paymentBlocks fun _ => [paymentLog])
        (lineBlock paymentBlocks (k * n))).isReturned = true) :
    Along (InOrder (.line paymentBlocks) oneConfirmation .quiet)
      (announceRun [paymentLog] [0, n]) := by
  have h_rpc := (lineRpc_serves paymentBlocks fun _ => [paymentLog]).answersBy
  refine (along_concat (l := (announceRun [paymentLog] [0, n]).take 1)).mpr ⟨?_, ?_⟩
  · refine (along_concat (l := [])).mpr ⟨along_nil, line_mem _ (by decide), h_rpc, ?_, ?_⟩
    · simpa using h_ret 0 (by decide)
    -- before the first announcement there is nothing to be in order with
    · intro last h_last
      cases h_last
  · refine ⟨line_mem _ h_n, h_rpc, by simpa using h_ret 1 (by decide), ?_⟩
    intro last h_last
    obtain rfl : lineBlock paymentBlocks 0 = last := Option.some.inj h_last
    exact ⟨line_isAncestor paymentBlocks (Nat.zero_le n) h_n, h_pos⟩

/-- Seven blocks may be skipped with one confirmation. -/
theorem skipped_announcements_lose_nothing_skip7 :
    (∀ pre, pre <+: announceRun [paymentLog] [0, 8] →
        AllConfirmedFired (.line paymentBlocks) oneConfirmation .quiet pre) ∧
      Along (DeliversFired oneConfirmation .quiet) (announceRun [paymentLog] [0, 8]) := by
  refine skipped_announcements_lose_nothing (.line paymentBlocks) (line_bounded _) oneConfirmation
    one_pos .quiet (announceRun [paymentLog] [0, 8])
    (inOrder_announceRun (by decide) (by decide) (by decide +kernel)) ?_
  refine (along_concat (l := (announceRun [paymentLog] [0, 8]).take 1)).mpr
    ⟨(along_concat (l := [])).mpr ⟨along_nil, ?_⟩, ?_⟩
  · intro last h_last
    cases h_last
  · intro last h_last
    obtain rfl : lineBlock paymentBlocks 0 = last := Option.some.inj h_last
    decide +kernel

/-- With one confirmation, eight skipped blocks are too many: block 1 is below the
back-fill, and is never fired. -/
theorem not_allConfirmedFired_skip8 :
    Along (InOrder (.line paymentBlocks) oneConfirmation .quiet)
        (announceRun [paymentLog] [0, 9]) ∧
      ¬AllConfirmedFired (.line paymentBlocks) oneConfirmation .quiet
        (announceRun [paymentLog] [0, 9]) := by
  refine ⟨inOrder_announceRun (by decide) (by decide) (by decide +kernel), fun h => ?_⟩
  have h_once := h.once (lineBlock paymentBlocks 0) (lineBlock paymentBlocks 9) rfl rfl
    (lineBlock paymentBlocks 1) (line_isAncestor paymentBlocks (by decide) (by decide))
    (by decide) (by decide)
  exact absurd h_once (by decide +kernel)

end Ethiso
