import Ethiso.Events.ConfirmedChain

/-!
# Imports that fail

The import stores a block before it asks for its parent. If the node does not
answer, the call ends by an exception, and the blocks stored so far hang in the
air: their lowest parent is missing, and no later import asks for it again, since
every walk down from a higher block ends at the top of what is stored
(`Phase.broken`).

As long as nothing has been fired, this only moves the start of what is fired
upwards. Later on, the next call that succeeds prunes the blocks below the gap that
were still to be fired. A call that skips more blocks than the import may fetch
leaves a gap as well.

So of the blocks from the first fired one up to `c` below the last processed one none
is missed, if and only if no call succeeds that cannot connect to the fired blocks
(`NotResumed`): once a block was fired, none after a failed import, and none that
skips too many blocks.
-/

namespace Ethiso

open Outcome PendingEvents

variable {α ι : Type*}

/-- The node leaves a request of the import unanswered. -/
def Session.ImportFails (T : BlockTree) (c : ConfirmationCount) (s : Session α ι)
    (rpc : EthereumRpc) (b : BlockInfo) : Prop :=
  ∃ k < fetchLimit c, Dangling T rpc s.pending.stored k b

section Statement

variable [DecidableEq ι]

/-- The announced blocks whose calls return, oldest first. -/
def Session.processed (c : ConfirmationCount) (env : Environment α ι) :
    Session α ι → List (Input α ι) → List BlockInfo
  | _, [] => []
  | s, i :: l =>
    match i with
    | .addEventListener .. => (s.step c env i).processed c env l
    | .newBlock rpc b =>
      if (s.newBlock c env rpc b).isReturned then b :: (s.step c env i).processed c env l
      else (s.step c env i).processed c env l

/-- Each block is higher than those announced before, on the same chain, and a call
only fails if its import does. -/
def Rising (T : BlockTree) (c : ConfirmationCount) (env : Environment α ι)
    (pre : List (Input α ι)) : Input α ι → Prop
  | .addEventListener .. => True
  | .newBlock rpc b =>
    b ∈ T ∧ rpc.AnswersBy T ∧
      (∀ b' ∈ notified pre, T.forest.IsAncestor b' b ∧ b'.number < b.number) ∧
      (¬(Session.after c env pre).ImportFails T c rpc b →
        ((Session.after c env pre).newBlock c env rpc b).isReturned = true)

/-- Each block from the first fired one up to `c` below the last processed one has
been fired once. -/
def NothingMissed (T : BlockTree) (c : ConfirmationCount) (env : Environment α ι)
    (l : List (Input α ι)) : Prop :=
  ∀ first last, (Session.after c env l).firedBlocks.head? = some first →
    (Session.init.processed c env l).getLast? = some last →
      ∀ y, T.forest.IsAncestor y last → first.number ≤ y.number → y.number + c ≤ last.number →
        (Session.after c env l).firedBlocks.count y = 1

/-- An import failed after a block was fired. -/
def Interrupted (T : BlockTree) (c : ConfirmationCount) (env : Environment α ι)
    (l : List (Input α ι)) : Prop :=
  AtSomeCall (fun pre rpc b => (Session.after c env pre).firedBlocks ≠ [] ∧
    (Session.after c env pre).ImportFails T c rpc b) l

/-- After a block was fired, `b` is announced too far above the block processed last:
the import does not fetch all of the blocks between them. -/
def OutOfReach (c : ConfirmationCount) (env : Environment α ι) (l : List (Input α ι))
    (b : BlockInfo) : Prop :=
  (Session.after c env l).firedBlocks ≠ [] ∧
    ∃ last, (Session.init.processed c env l).getLast? = some last ∧
      last.number + fetchLimit c + 1 < b.number

/-- An import that cannot connect to the fired blocks fails. -/
def NotResumed (T : BlockTree) (c : ConfirmationCount) (env : Environment α ι)
    (pre : List (Input α ι)) : Input α ι → Prop
  | .addEventListener .. => True
  | .newBlock rpc b => Interrupted T c env pre ∨ OutOfReach c env pre b →
      (Session.after c env pre).ImportFails T c rpc b

/-! ### Reading a run -/

variable {T : BlockTree} {c : ConfirmationCount} {env : Environment α ι} {rpc : EthereumRpc}
  {pre l : List (Input α ι)} {b : BlockInfo}

/-- What is processed by two runs, one after the other. -/
theorem processed_append (s : Session α ι) (l l' : List (Input α ι)) :
    s.processed c env (l ++ l') =
      s.processed c env l ++ (run (Session.step c env) s l).processed c env l' := by
  induction l generalizing s with
  | nil => rfl
  | cons i l ih =>
    cases i with
    | addEventListener topics decodeEvent handler => exact ih _
    | newBlock rpc b =>
      rw [List.cons_append, Session.processed, Session.processed, ih]
      split_ifs <;> rfl

/-- One more announcement is processed if its call returns. -/
theorem processed_concat_newBlock :
    Session.init.processed c env (pre ++ [.newBlock rpc b]) =
      Session.init.processed c env pre ++
        if ((Session.after c env pre).newBlock c env rpc b).isReturned then [b] else [] := by
  rw [processed_append]
  congr 1

/-- A listener processes nothing. -/
theorem processed_concat_addEventListener (topics : List String)
    (decodeEvent : LogEntry → Option α) (handler : ι) :
    Session.init.processed c env (pre ++ [.addEventListener topics decodeEvent handler]) =
      Session.init.processed c env pre := by
  rw [processed_append]
  exact List.append_nil _

end Statement

/-! ### The phases of a run -/

/-- Nothing has been fired; or the fired blocks end right below the window; or there
is a gap above it, the missing block `q`, and what is stored above the gap ends in
`top`. -/
inductive Phase (T : BlockTree) (c : ConfirmationCount) (announced processed : List BlockInfo)
    (interrupted : Prop) (s : Session α ι) : Prop where
  | waiting (h_none : s.firedBlocks = []) (h_not : ¬interrupted)
  | connected {base t : BlockInfo} (h_last : processed.getLast? = some t) (h_t : t ∈ announced)
      (h_conf : T.forest.Confirmed c base t s.pending.stored s.firedBlocks)
      (h_fired : s.firedBlocks ≠ []) (h_not : ¬interrupted)
  | broken {base t q top : BlockInfo} (h_last : processed.getLast? = some t) (h_t : t ∈ announced)
      (h_eq : s.firedBlocks = T.forest.segment t base.number (t.number + 1 - c))
      (h_fired : s.firedBlocks ≠ []) (h_int : interrupted)
      (h_q : q ∉ s.pending.stored) (h_gap : t.number < q.number)
      (h_below : T.forest.IsAncestor q top) (h_top : top ∈ s.pending.stored)
      (h_top_ann : top ∈ announced)

/-- The invariant of the run: what is stored, and how far the chain is connected. -/
structure Progress (T : BlockTree) (c : ConfirmationCount) (announced processed : List BlockInfo)
    (interrupted : Prop) (s : Session α ι) : Prop where
  indexed : Indexed T s.pending
  coherent : Coherent s.pending
  below : ∀ y ∈ s.pending.stored, ∃ b ∈ announced, T.forest.IsAncestor y b
  phase : Phase T c announced processed interrupted s

section Step

variable {T : BlockTree} {c : ConfirmationCount} {env : Environment α ι} {rpc : EthereumRpc}
  {b : BlockInfo} {announced processed : List BlockInfo} {interrupted : Prop} {s : Session α ι}

/-- All blocks that an import finds are ancestors of the announced block. -/
theorem Progress.imported_below (h : Progress T c announced processed interrupted s)
    (h_rising : ∀ b' ∈ announced, T.forest.IsAncestor b' b ∧ b'.number < b.number)
    {y : BlockInfo} (h_y : y ∈ s.imported T c b) : T.forest.IsAncestor y b := by
  rcases h_y with h_y | h_y
  · obtain ⟨b', h_b', h_anc⟩ := h.below y h_y
    exact h_anc.trans (h_rising b' h_b').1
  · exact h_y.isAncestor

/-- **A failing import** leaves a gap, if a block was fired before. -/
theorem Progress.failed (h : Progress T c announced processed interrupted s)
    (h_rising : ∀ b' ∈ announced, T.forest.IsAncestor b' b ∧ b'.number < b.number)
    {p : PendingEvents α ι} (h_imp : Imported T rpc (fetchLimit c) b s.pending (threw p)) :
    Progress T c (announced ++ [b]) processed
      (interrupted ∨ s.firedBlocks ≠ [] ∧ s.ImportFails T c rpc b) { s with pending := p } := by
  obtain ⟨h_ret, -⟩ | ⟨-, k, h_k, h_dangling, h_stored⟩ := h_imp.ends
  · cases h_ret
  rw [state_threw] at h_stored
  have h_fails : s.ImportFails T c rpc b := ⟨k, h_k, h_dangling⟩
  obtain ⟨y, q, h_y_up, h_y, h_q, h_q_out, -⟩ := h_dangling
  have h_rank : y.number = q.number + 1 := T.forest.rank_parent h_q
  have h_b_stored : b ∈ p.stored := (h_stored b).mpr (Or.inr (Forest.walked_self _ _))
  have h_b_ann : b ∈ announced ++ [b] := by simp
  refine ⟨h_imp.indexed, h_imp.coherent h.coherent, fun z h_z => ?_, ?_⟩
  · rcases (h_stored z).mp h_z with h_z | h_z
    · obtain ⟨b', h_b', h_anc⟩ := h.below z h_z
      exact ⟨b', List.mem_append_left _ h_b', h_anc⟩
    · exact ⟨b, h_b_ann, h_z.isAncestor⟩
  -- where there was no gap, the missing parent makes one; an old gap stays, since the
  -- walk ends above `top`
  · cases h.phase with
    | waiting h_none h_not =>
      exact .waiting h_none fun h_or => h_or.elim h_not fun h_here => h_here.1 h_none
    | @connected base t h_last h_t h_conf h_fired h_not =>
      obtain ⟨h_t_anc, h_t_lt⟩ := h_rising t h_t
      -- the walk stays above `t`, so the missing parent is above `t` too
      have h_above : t.number < y.number := h_y.rank_lt h_conf.top_mem h_t_anc h_t_lt
      have h_q_anc : T.forest.IsAncestor q b :=
        (Forest.isAncestor_of_parent h_q).trans h_y.isAncestor
      have h_gap : t.number < q.number := by
        rcases Nat.lt_or_ge t.number q.number with h_lt | h_le
        · exact h_lt
        · have h_eq := h_t_anc.eq_of_rank h_q_anc (show t.number = q.number by omega)
          exact absurd (h_eq ▸ h_conf.top_mem) h_q_out
      refine .broken h_last (List.mem_append_left _ h_t) h_conf.confirmed_eq h_fired
        (Or.inr ⟨h_fired, h_fails⟩) (fun h_in => ?_) h_gap h_q_anc h_b_stored h_b_ann
      rcases (h_stored q).mp h_in with h_in | ⟨j, h_j, h_q_up, -⟩
      · exact h_q_out h_in
      · have h_q_rank : b.number = q.number + j := Forest.rank_up h_q_up
        have h_y_rank : b.number = y.number + k := Forest.rank_up h_y_up
        omega
    | @broken base t q' top h_last h_t h_eq h_fired h_int h_q' h_gap h_below h_top h_top_ann =>
      obtain ⟨h_top_anc, h_top_lt⟩ := h_rising top h_top_ann
      refine .broken h_last (List.mem_append_left _ h_t) h_eq h_fired (Or.inl h_int)
        (fun h_in => ?_) h_gap h_below ((h_stored top).mpr (Or.inl h_top))
        (List.mem_append_left _ h_top_ann)
      rcases (h_stored q').mp h_in with h_in | h_walked
      · exact h_q' h_in
      · have h_lt := h_walked.rank_lt h_top h_top_anc h_top_lt
        have h_le := h_below.rank_le
        omega

variable [DecidableEq ι]

/-- **A call that returns** goes on firing, or starts to, if nothing interrupted the
run. -/
theorem Progress.succeeded (h : Progress T c announced processed interrupted s)
    (h_bounded : T.Bounded) (h_pos : 0 < c.val) (h_b : b ∈ T) (h_rpc : rpc.AnswersBy T)
    (h_rising : ∀ b' ∈ announced, T.forest.IsAncestor b' b ∧ b'.number < b.number)
    {s' : Session α ι} (h_ret : s.newBlock c env rpc b = returned s') (h_not : ¬interrupted)
    (h_reach : s.firedBlocks ≠ [] → ∀ last, processed.getLast? = some last →
      b.number ≤ last.number + fetchLimit c + 1) :
    Progress T c (announced ++ [b]) (processed ++ [b]) interrupted s' := by
  obtain ⟨H, D, h_adv, h_trace, h_idx, h_coh, -⟩ :=
    Session.newBlock_advances h_pos h_bounded h_rpc h.indexed h.coherent h_b h_ret
  have h_fired := firedBlocks_of_trace h_trace
  have h_b_ann : b ∈ announced ++ [b] := by simp
  have h_anc : ∀ y ∈ s.imported T c b, T.forest.IsAncestor y b :=
    fun y h_y => h.imported_below h_rising h_y
  have h_b_mem : b ∈ s.imported T c b := Or.inr (Forest.walked_self _ _)
  refine ⟨h_idx, h_coh, fun y h_y => ⟨b, h_b_ann, h_anc y ((h_adv.kept y).mp h_y).1⟩, ?_⟩
  cases h.phase with
  | waiting h_none =>
    rw [h_none, List.nil_append] at h_fired
    -- the first fired block is the start
    by_cases h_D : D = []
    · exact .waiting (h_fired.trans h_D) h_not
    · obtain ⟨base, h_conf⟩ := Forest.Confirmed.start h_pos h_adv h_b_mem h_anc h_D
      rw [← h_fired] at h_conf h_D
      exact .connected List.getLast?_concat h_b_ann h_conf h_D h_not
  | @connected base t h_last h_t h_conf h_ne =>
    obtain ⟨h_t_anc, h_t_lt⟩ := h_rising t h_t
    -- the walk reaches `t`, which is still stored
    have h_meets : ∃ k ≤ fetchLimit c, ∃ z ∈ s.pending.stored, T.forest.up (k + 1) b = some z := by
      have h_gap := h_reach h_ne t h_last
      have h_up := h_t_anc.up_eq
      rw [BlockTree.forest_rank, BlockTree.forest_rank] at h_up
      refine ⟨b.number - t.number - 1, by omega, t, h_conf.top_mem, ?_⟩
      rwa [Nat.sub_add_cancel (by omega)]
    have h_desc : ∀ y ∈ s.firedBlocks, T.forest.IsAncestor y b := by
      intro y h_y
      rw [h_conf.confirmed_eq, Forest.mem_segment] at h_y
      exact h_y.1.trans h_t_anc
    have h_next := h_conf.step_high h_pos h_meets h_t_lt h_desc h_adv
    rw [← h_fired] at h_next
    refine .connected List.getLast?_concat h_b_ann h_next ?_ h_not
    rw [h_fired]
    exact List.append_ne_nil_of_left_ne_nil h_ne D
  | broken _ _ _ _ h_int => exact absurd h_int h_not

/-- A call that returns and leaves out a block above the fired ones misses the block
right above them. -/
theorem Progress.missed_of_gap (h : Progress T c announced processed interrupted s)
    (h_bounded : T.Bounded) (h_pos : 0 < c.val) (h_b : b ∈ T) (h_rpc : rpc.AnswersBy T)
    (h_rising : ∀ b' ∈ announced, T.forest.IsAncestor b' b ∧ b'.number < b.number)
    {s' : Session α ι} (h_ret : s.newBlock c env rpc b = returned s') {t q : BlockInfo} {lo : ℕ}
    (h_t : t ∈ announced) (h_eq : s.firedBlocks = T.forest.segment t lo (t.number + 1 - c))
    (h_ne : s.firedBlocks ≠ []) (h_gap : t.number < q.number) (h_q : T.forest.IsAncestor q b)
    (h_out : q ∉ s.imported T c b) :
    ∃ first z, s'.firedBlocks.head? = some first ∧ T.forest.IsAncestor z b ∧
      first.number ≤ z.number ∧ z.number + c ≤ b.number ∧ z ∉ s'.firedBlocks := by
  obtain ⟨H, D, h_adv, h_trace, -⟩ :=
    Session.newBlock_advances h_pos h_bounded h_rpc h.indexed h.coherent h_b h_ret
  have h_fired := firedBlocks_of_trace h_trace
  obtain ⟨first, rest, h_cons⟩ := List.exists_cons_of_ne_nil h_ne
  have h_first : first ∈ T.forest.segment t lo (t.number + 1 - c) := by
    rw [← h_eq, h_cons]
    exact List.mem_cons_self
  obtain ⟨h_first_anc, -, h_first_lt⟩ := Forest.mem_segment.mp h_first
  -- the block right above the fired ones
  obtain ⟨z, h_z, h_z_rank⟩ := h_first_anc.exists_rank h_first_lt.le
    (show t.number + 1 - c ≤ t.number by omega)
  rw [BlockTree.forest_rank] at h_z_rank h_first_lt
  obtain ⟨h_t_anc, h_t_lt⟩ := h_rising t h_t
  refine ⟨first, z, ?_, h_z.trans h_t_anc, by omega, by omega, ?_⟩
  · rw [h_fired, h_cons]
    rfl
  rw [h_fired]
  intro h_mem
  rcases List.mem_append.mp h_mem with h_old | h_new
  · rw [h_eq, Forest.mem_segment, BlockTree.forest_rank] at h_old
    omega
  · -- a new one would have `q` on its chain
    obtain ⟨-, t', h_t', h_rank, h_chain⟩ := (h_adv.due z).mp h_new
    have h_b_le := h_adv.top_le b (Or.inr (Forest.walked_self _ _))
    have h_t'_anc := h.imported_below h_rising h_t'
    obtain rfl : t' = b :=
      h_t'_anc.eq_of_rank (.refl b) (le_antisymm h_t'_anc.rank_le (h_rank ▸ h_b_le))
    exact h_out (h_chain.mem_between h_q (show z.number ≤ q.number by omega))

/-- **A call that returns** though it cannot connect to the fired blocks misses one. -/
theorem Progress.missed (h : Progress T c announced processed interrupted s)
    (h_bounded : T.Bounded) (h_pos : 0 < c.val) (h_b : b ∈ T) (h_rpc : rpc.AnswersBy T)
    (h_rising : ∀ b' ∈ announced, T.forest.IsAncestor b' b ∧ b'.number < b.number)
    {s' : Session α ι} (h_ret : s.newBlock c env rpc b = returned s')
    (h_or : interrupted ∨ s.firedBlocks ≠ [] ∧ ∃ last, processed.getLast? = some last ∧
      last.number + fetchLimit c + 1 < b.number) :
    ∃ first z, s'.firedBlocks.head? = some first ∧ T.forest.IsAncestor z b ∧
      first.number ≤ z.number ∧ z.number + c ≤ b.number ∧ z ∉ s'.firedBlocks := by
  cases h.phase with
  | waiting h_none h_not =>
    exact absurd h_or fun h_or => h_or.elim h_not fun h_far => h_far.1 h_none
  | @connected base t h_last h_t h_conf h_ne h_not =>
    obtain ⟨-, last, h_last', h_far⟩ := h_or.resolve_left h_not
    rw [h_last] at h_last'
    obtain rfl := Option.some.inj h_last'
    obtain ⟨h_t_anc, h_t_lt⟩ := h_rising t h_t
    -- the block right above `t` is too far below `b`
    obtain ⟨q, h_q, h_q_rank⟩ := h_t_anc.exists_rank (Nat.le_succ t.number)
      (show t.number + 1 ≤ b.number by omega)
    rw [BlockTree.forest_rank] at h_q_rank
    refine h.missed_of_gap h_bounded h_pos h_b h_rpc h_rising h_ret h_t h_conf.confirmed_eq h_ne
      (show t.number < q.number by omega) h_q ?_
    rintro (h_in | ⟨k, h_k, h_up, -⟩)
    · have h_le : q.number ≤ t.number := h_conf.top_le q h_in
      omega
    · have h_rank : b.number = q.number + k := Forest.rank_up h_up
      omega
  | @broken base t q top _ h_t h_eq h_ne _ h_q h_gap h_below h_top h_top_ann =>
    obtain ⟨h_top_anc, h_top_lt⟩ := h_rising top h_top_ann
    refine h.missed_of_gap h_bounded h_pos h_b h_rpc h_rising h_ret h_t h_eq h_ne h_gap
      (h_below.trans h_top_anc) ?_
    rintro (h_in | h_walked)
    · exact h_q h_in
    · have h_lt := h_walked.rank_lt h_top h_top_anc h_top_lt
      have h_le := h_below.rank_le
      omega

end Step

/-! ### Runs -/

section Run

variable [DecidableEq ι] {T : BlockTree} {c : ConfirmationCount} {env : Environment α ι}
  {rpc : EthereumRpc} {pre l : List (Input α ι)} {b : BlockInfo}

/-- The progress of a run. -/
def ProgressOf (T : BlockTree) (c : ConfirmationCount) (env : Environment α ι)
    (l : List (Input α ι)) (s : Session α ι) : Prop :=
  Progress T c (notified l) (Session.init.processed c env l) (Interrupted T c env l) s

/-- The fired blocks end `c` below the last processed one. -/
theorem ProgressOf.nothingMissed (h : ProgressOf T c env l (Session.after c env l)) :
    NothingMissed T c env l := by
  intro first last h_first h_last y h_anc h_le h_low
  -- what has been fired is a segment of the chain in each phase that is not broken
  have h_segment : ∃ base : BlockInfo, (Session.after c env l).firedBlocks =
      T.forest.segment last base.number (last.number + 1 - c) := by
    cases h.phase with
    | waiting h_none =>
      rw [h_none] at h_first
      cases h_first
    | @connected base t h_last' _ h_conf =>
      rw [h_last] at h_last'
      obtain rfl := Option.some.inj h_last'
      exact ⟨base, h_conf.confirmed_eq⟩
    | @broken base t _ _ h_last' _ h_eq =>
      rw [h_last] at h_last'
      obtain rfl := Option.some.inj h_last'
      exact ⟨base, h_eq⟩
  obtain ⟨base, h_eq⟩ := h_segment
  have h_first_mem := List.mem_of_head? h_first
  rw [h_eq] at h_first_mem ⊢
  -- so everything from the first of its blocks on is in it
  have h_base := (Forest.mem_segment.mp h_first_mem).2.1
  refine List.count_eq_one_of_mem (Forest.segment_nodup _ _ _) (Forest.mem_segment.mpr ?_)
  exact ⟨h_anc, h_base.trans h_le, by rw [BlockTree.forest_rank]; omega⟩

/-- **The step.** If the call does not resume an interrupted run, or if nothing is
missed afterwards, both hold. -/
theorem ProgressOf.newBlock (h_bounded : T.Bounded) (h_pos : 0 < c.val)
    (h : ProgressOf T c env pre (Session.after c env pre))
    (h_rising : Rising T c env pre (.newBlock rpc b))
    (h_or : NotResumed T c env pre (.newBlock rpc b) ∨
      NothingMissed T c env (pre ++ [.newBlock rpc b])) :
    DeliversFired c env pre (.newBlock rpc b) ∧ NotResumed T c env pre (.newBlock rpc b) ∧
      ProgressOf T c env (pre ++ [.newBlock rpc b])
        (Session.after c env (pre ++ [.newBlock rpc b])) := by
  obtain ⟨h_b, h_rpc, h_above, h_only⟩ := h_rising
  have h_notified := notified_concat_newBlock pre rpc b
  have h_interrupted : Interrupted T c env (pre ++ [.newBlock rpc b]) ↔ Interrupted T c env pre ∨
      (Session.after c env pre).firedBlocks ≠ [] ∧
        (Session.after c env pre).ImportFails T c rpc b := atSomeCall_concat_newBlock
  unfold DeliversFired ProgressOf
  dsimp only
  rw [after_newBlock, processed_concat_newBlock, h_notified]
  obtain ⟨o, h_imp, ⟨p, rfl, h_threw⟩ | ⟨p, lastKey, rfl, -, -⟩⟩ :=
    @Session.newBlock_spec _ _ T c env rpc (Session.after c env pre) b _ h_rpc h.indexed h_b
  · -- the import failed, so nothing was fired
    have h_failed := h.failed h_above h_imp
    rw [← propext h_interrupted] at h_failed
    have h_fails : NotResumed T c env pre (.newBlock rpc b) := by
      obtain ⟨h_ret, -⟩ | ⟨-, k, h_k, h_dangling, -⟩ := h_imp.ends
      · cases h_ret
      · exact fun _ => ⟨k, h_k, h_dangling⟩
    rw [h_threw, isReturned_threw, if_neg Bool.false_ne_true, List.append_nil]
    exact ⟨⟨[], by simp⟩, h_fails, h_failed⟩
  · -- the import was answered, so the call returns
    have h_not : ¬(Session.after c env pre).ImportFails T c rpc b := by
      rintro ⟨k, h_k, h_dangling⟩
      exact h_imp.answered rfl k h_k h_dangling
    have h_ret := h_only h_not
    obtain ⟨s', h_s'⟩ : ∃ s', (Session.after c env pre).newBlock c env rpc b = returned s' :=
      ⟨_, isReturned_iff.mp h_ret⟩
    -- a call that returned without a connection would have missed a block
    have h_clean : ¬(Interrupted T c env pre ∨ OutOfReach c env pre b) := by
      intro h_gap
      rcases h_or with h_resumed | h_nothing
      · exact h_not (h_resumed h_gap)
      · obtain ⟨first, z, h_first, h_z, h_le, h_low, h_out⟩ :=
          h.missed h_bounded h_pos h_b h_rpc h_above h_s' h_gap
        unfold NothingMissed at h_nothing
        rw [after_newBlock, processed_concat_newBlock, h_s'] at h_nothing
        have h_count := h_nothing first b h_first (by simp) z h_z h_le h_low
        rw [state_returned] at h_count
        exact h_out (List.count_pos_iff.mp (by rw [h_count]; exact one_pos))
    obtain ⟨h_clean_int, h_reach⟩ := not_or.mp h_clean
    have h_next := h.succeeded h_bounded h_pos h_b h_rpc h_above h_s' h_clean_int
      fun h_ne last h_last => not_lt.mp fun h_far => h_reach ⟨h_ne, last, h_last, h_far⟩
    have h_same : Interrupted T c env (pre ++ [.newBlock rpc b]) ↔ Interrupted T c env pre := by
      rw [h_interrupted]
      exact or_iff_left fun h_here => h_not h_here.2
    rw [← propext h_same] at h_next
    obtain ⟨-, D, -, h_trace, -⟩ :=
      Session.newBlock_advances h_pos h_bounded h_rpc h.indexed h.coherent h_b h_s'
    rw [h_s', isReturned_returned, if_pos rfl]
    exact ⟨⟨D, h_trace⟩, fun h_gap => absurd h_gap h_clean, h_next⟩

/-- A listener leaves the phase as it is. -/
theorem ProgressOf.addEventListener (h : ProgressOf T c env pre (Session.after c env pre))
    (topics : List String) (decodeEvent : LogEntry → Option α) (handler : ι) :
    ProgressOf T c env (pre ++ [.addEventListener topics decodeEvent handler])
      (Session.after c env (pre ++ [.addEventListener topics decodeEvent handler])) := by
  obtain ⟨eventListeners, h_after⟩ := after_addEventListener c env pre topics decodeEvent handler
  have h_notified := notified_concat_addEventListener pre topics decodeEvent handler
  have h_interrupted : Interrupted T c env (pre ++ [.addEventListener topics decodeEvent handler]) ↔
      Interrupted T c env pre := atSomeCall_concat_addEventListener topics decodeEvent handler
  unfold ProgressOf
  rw [h_after, h_notified, processed_concat_addEventListener, propext h_interrupted]
  refine ⟨h.indexed.withListeners eventListeners, h.coherent, h.below, ?_⟩
  cases h.phase with
  | waiting h_none h_not => exact .waiting h_none h_not
  | connected h_last h_t h_conf h_fired h_not => exact .connected h_last h_t h_conf h_fired h_not
  | broken h_last h_t h_eq h_fired h_int h_q h_gap h_below h_top h_top_ann =>
    exact .broken h_last h_t h_eq h_fired h_int h_q h_gap h_below h_top h_top_ann

/-- The progress of a run all of whose fired blocks were passed on. -/
structure Progressing (T : BlockTree) (c : ConfirmationCount) (env : Environment α ι)
    (l : List (Input α ι)) : Prop where
  progress : ProgressOf T c env l (Session.after c env l)
  delivers : Along (DeliversFired c env) l

theorem progressing_nil : Progressing T c env ([] : List (Input α ι)) :=
  ⟨⟨indexed_init T, coherent_init, (fun _ h => nomatch h), .waiting rfl not_atSomeCall_nil⟩,
    along_nil⟩

/-- **One step** keeps the invariant if nothing is resumed behind a gap. -/
theorem Progressing.step (h_bounded : T.Bounded) (h_pos : 0 < c.val) (h : Progressing T c env pre)
    {i : Input α ι} (h_rising : Rising T c env pre i)
    (h_or : NotResumed T c env pre i ∨ NothingMissed T c env (pre ++ [i])) :
    NotResumed T c env pre i ∧ Progressing T c env (pre ++ [i]) := by
  obtain ⟨h_pre, h_del⟩ := h
  cases i with
  | addEventListener topics decodeEvent handler =>
    exact ⟨trivial, h_pre.addEventListener topics decodeEvent handler,
      along_concat.mpr ⟨h_del, trivial⟩⟩
  | newBlock rpc b =>
    obtain ⟨h_del_i, h_not, h_next⟩ := h_pre.newBlock h_bounded h_pos h_rising h_or
    exact ⟨h_not, h_next, along_concat.mpr ⟨h_del, h_del_i⟩⟩

/-- **Failing imports.** Over a chain without forks, no block from the first fired one
up to `c` below the last processed one is missed, if and only if no call succeeds that
cannot connect to the fired blocks; and what is fired is passed on completely. -/
theorem import_failures_lose_nothing_iff (T : BlockTree) (h_bounded : T.Bounded)
    (c : ConfirmationCount) (h_pos : 0 < c.val) (env : Environment α ι) (l : List (Input α ι))
    (h_rising : Along (Rising T c env) l) :
    ((∀ pre, pre <+: l → NothingMissed T c env pre) ↔ Along (NotResumed T c env) l) ∧
      (Along (NotResumed T c env) l → Along (DeliversFired c env) l) := by
  -- the same step in both directions
  have h_step : ∀ pre i, Progressing T c env pre → Rising T c env pre i →
      (NotResumed T c env pre i ∨ NothingMissed T c env (pre ++ [i])) →
        NotResumed T c env pre i ∧ Progressing T c env (pre ++ [i]) :=
    fun pre i h h_i h_or => h.step h_bounded h_pos h_i h_or
  refine ⟨?_, ?_⟩
  · exact along_iff progressing_nil h_step (fun l h => h.progress.nothingMissed) l h_rising
  -- with the condition, the invariant holds in every prefix
  · intro h_not
    have h_run := @along_induction _ (fun pre i => Rising T c env pre i ∧ NotResumed T c env pre i)
      (Progressing T c env) progressing_nil
      (fun pre i h h_i => (h_step pre i h h_i.1 (Or.inl h_i.2)).2) l (h_rising.and h_not)
    exact h_run.delivers

end Run

/-! ### A node that falls silent -/

/-- A node that answers nothing. -/
def silentRpc : EthereumRpc where
  eth_getBlockByHash _ := none
  eth_getTransactionReceipt _ := none

/-- After the blocks with the given numbers, block `n` is announced while the node is
silent, and then its child, by a node that answers again. -/
def interruptedRun (numbers : List ℕ) (n : ℕ) : List (Input String String) :=
  announceRun [paymentLog] numbers ++ [.newBlock silentRpc (lineBlock paymentBlocks n)] ++
    announceRun [paymentLog] [n + 1]

section Line

variable {pre : List (Input String String)} {n : ℕ}

/-- On the line each announcement rises above those before. -/
theorem rising_line {rpc : EthereumRpc} (h_n : n < 2 ^ 31)
    (h_rpc : rpc.AnswersBy (.line paymentBlocks))
    (h_above : ∀ b' ∈ notified pre, ∃ m < n, b' = lineBlock paymentBlocks m)
    (h_ends : (Session.after oneConfirmation .quiet pre).ImportFails (.line paymentBlocks)
        oneConfirmation rpc (lineBlock paymentBlocks n) ∨
      ((Session.after oneConfirmation .quiet pre).newBlock oneConfirmation .quiet rpc
        (lineBlock paymentBlocks n)).isReturned = true) :
    Rising (.line paymentBlocks) oneConfirmation .quiet pre
      (.newBlock rpc (lineBlock paymentBlocks n)) := by
  refine ⟨line_mem paymentBlocks h_n, h_rpc, fun b' h_b' => ?_, h_ends.resolve_left⟩
  obtain ⟨m, h_m, rfl⟩ := h_above b' h_b'
  exact ⟨line_isAncestor paymentBlocks h_m.le h_n, h_m⟩

/-- While the node is silent, a block whose parent is not stored is not imported. -/
theorem importFails_silent {s : Session String String} (h_n : n + 1 < 2 ^ 31)
    (h_out : lineBlock paymentBlocks n ∉ s.pending.stored) :
    s.ImportFails (.line paymentBlocks) oneConfirmation silentRpc
      (lineBlock paymentBlocks (n + 1)) :=
  ⟨0, by decide +kernel, (dangling_zero (line_parent paymentBlocks h_n)).mpr ⟨h_out, rfl⟩⟩

end Line

/-- A node that knows nothing answers by every tree. -/
theorem silentRpc_answersBy (T : BlockTree) : silentRpc.AnswersBy T :=
  fun _ _ => Or.inl rfl

/-- The node is silent before a block was fired. -/
theorem import_failures_lose_nothing_unfired :
    (∀ pre, pre <+: interruptedRun [] 2 →
        NothingMissed (.line paymentBlocks) oneConfirmation .quiet pre) ∧
      Along (DeliversFired oneConfirmation .quiet) (interruptedRun [] 2) := by
  have h_rpc := (lineRpc_serves paymentBlocks fun _ => [paymentLog]).answersBy
  -- the first call ends in its import, the second is served
  have h_rising : Along (Rising (.line paymentBlocks) oneConfirmation .quiet)
      (interruptedRun [] 2) := by
    refine (along_concat (l := (interruptedRun [] 2).take 1)).mpr
      ⟨(along_concat (l := [])).mpr ⟨along_nil, ?_⟩, ?_⟩
    · refine rising_line (by decide) (silentRpc_answersBy _) (by decide) (Or.inl ?_)
      exact importFails_silent (by decide) (by unfold stored; decide +kernel)
    · exact rising_line (by decide) h_rpc (by decide +kernel) (Or.inr (by decide +kernel))
  have h_unfired : ∀ k < 2, (Session.after oneConfirmation .quiet
      ((interruptedRun [] 2).take k)).firedBlocks = [] := by
    decide +kernel
  -- nothing has been fired when the import fails
  have h_not : Along (NotResumed (.line paymentBlocks) oneConfirmation .quiet)
      (interruptedRun [] 2) := by
    refine (along_concat (l := (interruptedRun [] 2).take 1)).mpr
      ⟨(along_concat (l := [])).mpr ⟨along_nil, ?_⟩, ?_⟩
    · rintro (h_int | h_far)
      · exact absurd h_int not_atSomeCall_nil
      · exact absurd (h_unfired 0 (by decide)) h_far.1
    · rintro (h_int | h_far)
      · rcases (@atSomeCall_concat_newBlock _ _ _ [] _ _).mp h_int with h_int | h_here
        · exact absurd h_int not_atSomeCall_nil
        · exact absurd (h_unfired 0 (by decide)) h_here.1
      · exact absurd (h_unfired 1 (by decide)) h_far.1
  obtain ⟨h_iff, h_delivers⟩ := import_failures_lose_nothing_iff (.line paymentBlocks)
    (line_bounded _) oneConfirmation one_pos .quiet (interruptedRun [] 2) h_rising
  exact ⟨h_iff.mpr h_not, h_delivers h_not⟩

/-- The node is silent while block 3 is announced, after block 0 was fired: block 2 is
not stored, and of the blocks 1 to 3 that are `c` below block 4 only block 3 is fired. -/
theorem not_nothingMissed_silent :
    Along (Rising (.line paymentBlocks) oneConfirmation .quiet) (interruptedRun [0, 1] 3) ∧
      Session.init.processed oneConfirmation .quiet (interruptedRun [0, 1] 3) =
        [0, 1, 4].map (lineBlock paymentBlocks) ∧
      ¬NothingMissed (.line paymentBlocks) oneConfirmation .quiet (interruptedRun [0, 1] 3) := by
  have h_rpc := (lineRpc_serves paymentBlocks fun _ => [paymentLog]).answersBy
  refine ⟨?_, by decide +kernel, fun h => ?_⟩
  -- the announcements rise along the line
  · refine (along_concat (l := (interruptedRun [0, 1] 3).take 3)).mpr
      ⟨(along_concat (l := (interruptedRun [0, 1] 3).take 2)).mpr
        ⟨(along_concat (l := (interruptedRun [0, 1] 3).take 1)).mpr
          ⟨(along_concat (l := [])).mpr ⟨along_nil, ?_⟩, ?_⟩, ?_⟩, ?_⟩
    · exact rising_line (by decide) h_rpc (by decide) (Or.inr (by decide +kernel))
    · exact rising_line (by decide) h_rpc (by decide +kernel) (Or.inr (by decide +kernel))
    · refine rising_line (by decide) (silentRpc_answersBy _) (by decide +kernel) (Or.inl ?_)
      exact importFails_silent (by decide) (by unfold stored; decide +kernel)
    · exact rising_line (by decide) h_rpc (by decide +kernel) (Or.inr (by decide +kernel))
  -- the block in the gap is never fired
  · have h_once := h (lineBlock paymentBlocks 0) (lineBlock paymentBlocks 4) (by decide +kernel)
      (by decide +kernel) (lineBlock paymentBlocks 1)
      (line_isAncestor paymentBlocks (by decide) (by decide)) (by decide) (by decide)
    exact absurd h_once (by decide +kernel)

end Ethiso
