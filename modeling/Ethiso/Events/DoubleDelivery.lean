import Ethiso.Events.Runs

/-!
# Blocks that are fired twice

A block that was fired is forgotten, so nothing but the window tells the import
where to stop. If the walk up from an announced block does not meet a stored
block, it stores again what was fired before, and if this is due, below a block of
the greatest height, it is fired again (`Refires`). The announcement of a block that
is still stored, but whose parent is not, is enough for this
(`not_firesNew_repeated`), and without confirmations every announcement is.

The result says that this is all: whatever the node announces, in runs with or
without exceptions, no block is fired in two calls if no call refires; and in
runs without exceptions only then.
-/

namespace Ethiso

open Outcome PendingEvents

variable {α ι : Type*} [DecidableEq ι]

/-- The call fires only blocks that no earlier call has fired. -/
def FiresNew (c : ConfirmationCount) (env : Environment α ι) (pre : List (Input α ι))
    (i : Input α ι) : Prop :=
  ∃ blocks, (Session.after c env (pre ++ [i])).firedBlocks =
    (Session.after c env pre).firedBlocks ++ blocks ∧
      ∀ y ∈ blocks, y ∉ (Session.after c env pre).firedBlocks

/-- A fired block is due once more: with the blocks of the walk up from the announced
block, which ends at the nearest stored proper ancestor or after `fetchLimit c` links,
it is again on the chain of a block of the greatest height, below the boundary. -/
def Refires (T : BlockTree) (c : ConfirmationCount) (env : Environment α ι)
    (pre : List (Input α ι)) : Input α ι → Prop
  | .addEventListener .. => False
  | .newBlock _ b =>
    ∃ y ∈ (Session.after c env pre).firedBlocks, (Session.after c env pre).Due T c b y

/-- The call returns. -/
def Returns (c : ConfirmationCount) (env : Environment α ι) (pre : List (Input α ι)) :
    Input α ι → Prop
  | .addEventListener .. => True
  | .newBlock rpc b => ((Session.after c env pre).newBlock c env rpc b).isReturned = true

section Run

variable {T : BlockTree} {c : ConfirmationCount} {env : Environment α ι} {rpc : EthereumRpc}
  {pre l : List (Input α ι)} {i : Input α ι} {b : BlockInfo}

/-! ### A call that does not refire -/

/-- A call that fires nothing again fires new blocks only. -/
theorem firesNew_of_not_refires (hp : Indexed T (Session.after c env pre).pending)
    (h_i : FromTree T i) (h : ¬Refires T c env pre i) : FiresNew c env pre i := by
  cases i with
  | addEventListener topics decodeEvent handler =>
    obtain ⟨eventListeners, h_after⟩ := after_addEventListener c env pre topics decodeEvent handler
    exact ⟨[], by rw [h_after, List.append_nil]; rfl, by simp⟩
  | newBlock rpc b =>
    obtain ⟨-, blocks, h_fired, h_due⟩ :=
      @Session.newBlock_fired _ _ _ T c env rpc (Session.after c env pre) b h_i.2 hp h_i.1
    refine ⟨blocks, by rw [after_newBlock]; exact h_fired, fun y h_y h_before => h ?_⟩
    exact ⟨y, h_before, h_due y h_y⟩

/-! ### A call that refires -/

/-- Between calls that return, the two indexes have the same blocks. -/
structure Quiescent (T : BlockTree) (s : Session α ι) : Prop where
  indexed : Indexed T s.pending
  coherent : Coherent s.pending

/-- A call that returns fires all that is due. -/
theorem Quiescent.newBlock {s s' : Session α ι} (h : Quiescent T s) (h_rpc : rpc.AnswersBy T)
    (h_b : b ∈ T) (h_ret : s.newBlock c env rpc b = returned s') :
    Quiescent T s' ∧ ∃ blocks, s'.firedBlocks = s.firedBlocks ++ blocks ∧
      ∀ y, y ∈ blocks ↔ s.Due T c b y := by
  obtain ⟨o, h_imp, ⟨p, -, h_threw⟩ | ⟨p, lastKey, rfl, h_key, h_removed⟩⟩ :=
    @Session.newBlock_spec _ _ T c env rpc s b _ h_rpc h.indexed h_b
  · rw [h_threw] at h_ret
    cases h_ret
  have h_idx : Indexed T p := h_imp.indexed
  have h_coh : Coherent p := h_imp.coherent h.coherent
  -- no entry is stale, so a stored block has the greatest height
  have h_tip := h_idx.exists_tip (h_coh lastKey) h_key
  rw [h_ret] at h_removed
  cases h_removed with
  | @done trace h_fired =>
    exact ⟨⟨h_idx.removedBelow _, h_idx.coherent_removedBelow fun n _ => h_coh n⟩, _,
      firedIn_of_returned h_fired, fun y => Session.mem_due_iff h_imp h_key h_tip⟩

/-- **After each returning call** the session is quiescent. -/
theorem after_quiescent (l : List (Input α ι))
    (h : Along (fun pre i => FromTree T i ∧ Returns c env pre i) l) :
    Quiescent T (Session.after c env l) := by
  refine @after_induction _ _ _ c env (fun pre i => FromTree T i ∧ Returns c env pre i)
    (fun _ s => Quiescent T s) ⟨indexed_init T, coherent_init⟩ (fun pre i h_pre h_i => ?_) l h
  cases i with
  | addEventListener topics decodeEvent handler =>
    obtain ⟨eventListeners, h_after⟩ := after_addEventListener c env pre topics decodeEvent handler
    rw [h_after]
    exact ⟨h_pre.indexed.withListeners eventListeners, h_pre.coherent⟩
  | newBlock rpc b =>
    rw [after_newBlock]
    exact (h_pre.newBlock h_i.1.2 h_i.1.1 (isReturned_iff.mp h_i.2)).1

/-- A call that refires and returns fires a block again. -/
theorem not_firesNew_of_refires (h : Quiescent T (Session.after c env pre)) (h_i : FromTree T i)
    (h_ret : Returns c env pre i) (h_refires : Refires T c env pre i) : ¬FiresNew c env pre i := by
  cases i with
  | addEventListener topics decodeEvent handler => exact absurd h_refires id
  | newBlock rpc b =>
    obtain ⟨y, h_before, h_due⟩ := h_refires
    rintro ⟨blocks, h_blocks, h_new⟩
    obtain ⟨-, blocks', h_blocks', h_all⟩ := h.newBlock h_i.2 h_i.1 (isReturned_iff.mp h_ret)
    rw [after_newBlock, h_blocks'] at h_blocks
    -- the blocks that the call fires are all that are due, among them `y`
    rw [List.append_cancel_left h_blocks] at h_all
    exact h_new y ((h_all y).mpr h_due) h_before

/-- **Double delivery.** No block is fired in two calls if no call of the run
refires; and, where calls return, only if. -/
theorem no_double_delivery (T : BlockTree) (c : ConfirmationCount)
    (env : Environment α ι) (l : List (Input α ι)) (h_tree : Along (fun _ => FromTree T) l) :
    (Along (fun pre i => ¬Refires T c env pre i) l → Along (FiresNew c env) l) ∧
      (Along (Returns c env) l → Along (FiresNew c env) l →
        Along (fun pre i => ¬Refires T c env pre i) l) := by
  refine ⟨?_, ?_⟩
  -- if all returned blocks are new, none is fired twice
  · intro h pre i post h_eq
    have h_pre := h_tree.restrict (⟨i :: post, h_eq.symm⟩ : pre <+: l)
    exact firesNew_of_not_refires (after_indexed pre h_pre) (h_tree pre i post h_eq)
      (h pre i post h_eq)
  -- a block that is due again is in the trace already
  · intro h_ret h_new pre i post h_eq h_refires
    have h_pre := (h_tree.and h_ret).restrict (⟨i :: post, h_eq.symm⟩ : pre <+: l)
    exact not_firesNew_of_refires (after_quiescent pre h_pre) (h_tree pre i post h_eq)
      (h_ret pre i post h_eq) h_refires (h_new pre i post h_eq)

end Run

/-! ### The highest block is announced again -/

/-- Blocks that are announced one after the other are fired once. -/
theorem no_double_delivery_consecutive :
    Along (FiresNew oneConfirmation .quiet) (announceRun [paymentLog] [0, 1, 2]) := by
  refine (no_double_delivery (.line paymentBlocks) oneConfirmation .quiet
    (announceRun [paymentLog] [0, 1, 2]) (fromTree_announceRun _ (by decide))).1 ?_
  -- before block 2 is announced, block 0 is fired, and only block 1 is stored
  refine (along_concat (l := announceRun [paymentLog] [0, 1])).mpr
    ⟨(along_concat (l := announceRun [paymentLog] [0])).mpr
      ⟨(along_concat (l := [])).mpr ⟨along_nil, ?_⟩, ?_⟩, ?_⟩
  · rintro ⟨y, h_y, -⟩
    cases h_y
  · rintro ⟨y, h_y, -⟩
    rw [show (Session.after oneConfirmation .quiet
      (announceRun [paymentLog] [0])).firedBlocks = [] by decide +kernel] at h_y
    cases h_y
  · rintro ⟨y, h_y, t, -, -, h_chain, -⟩
    rw [show (Session.after oneConfirmation .quiet (announceRun [paymentLog] [0, 1])).firedBlocks =
      [lineBlock paymentBlocks 0] by decide +kernel, List.mem_singleton] at h_y
    subst h_y
    have h_stored : lineBlock paymentBlocks 1 ∈ (Session.after oneConfirmation .quiet
        (announceRun [paymentLog] [0, 1])).pending.stored := by
      unfold stored
      decide +kernel
    have h_out : lineBlock paymentBlocks 0 ∉ (Session.after oneConfirmation .quiet
        (announceRun [paymentLog] [0, 1])).pending.stored := by
      unfold stored
      decide +kernel
    rcases h_chain.mem with h_mem | h_mem
    · exact h_out h_mem
    · rw [Forest.walked_of_stop] at h_mem
      · exact absurd h_mem (by decide)
      · intro p h_p
        rw [line_parent paymentBlocks (by decide)] at h_p
        obtain rfl := Option.some.inj h_p
        exact h_stored

/-- With one confirmation, block 0 is fired when block 1 is announced, and again
when block 1 is announced again. -/
theorem not_firesNew_repeated :
    Along (fun _ => FromTree (.line paymentBlocks)) (announceRun [paymentLog] [0, 1, 1]) ∧
      Along (Returns oneConfirmation .quiet) (announceRun [paymentLog] [0, 1, 1]) ∧
      ¬Along (FiresNew oneConfirmation .quiet) (announceRun [paymentLog] [0, 1, 1]) := by
  refine ⟨fromTree_announceRun _ (by decide), ?_, fun h => ?_⟩
  -- all three calls return
  · refine (along_concat (l := announceRun [paymentLog] [0, 1])).mpr
      ⟨(along_concat (l := announceRun [paymentLog] [0])).mpr
        ⟨(along_concat (l := [])).mpr ⟨along_nil, ?_⟩, ?_⟩, ?_⟩ <;>
      (unfold Returns; decide +kernel)
  -- the third one fires it again, so the fired blocks are not new
  · obtain ⟨blocks, h_blocks, h_new⟩ := h (announceRun [paymentLog] [0, 1]) _ [] rfl
    have h_before : (Session.after oneConfirmation .quiet
        (announceRun [paymentLog] [0, 1])).firedBlocks = [lineBlock paymentBlocks 0] := by
      decide +kernel
    have h_after : (Session.after oneConfirmation .quiet
        (announceRun [paymentLog] [0, 1, 1])).firedBlocks =
          [lineBlock paymentBlocks 0, lineBlock paymentBlocks 0] := by
      decide +kernel
    rw [h_before] at h_blocks h_new
    obtain rfl : [lineBlock paymentBlocks 0] = blocks :=
      (List.cons.inj (h_after.symm.trans h_blocks)).2
    exact h_new _ (List.mem_singleton.mpr rfl) (List.mem_singleton.mpr rfl)

end Ethiso
