import Ethiso.Events.Runs

/-!
# The events of one confirmed chain

The monitor is to deliver the events of one chain of blocks, those of a block as
soon as it is `c` blocks below the highest announced block: whatever forks the
node announces, the fired blocks form one parent-linked chain without gaps or
repetitions (`OneConfirmedChain`), and every log of a fired block is passed once
to each listener it is for (`DeliversFired`).

The announcements may not be arbitrary (`Announced`): a walk up from each block
has to meet a stored block within `c + 7` links, and the highest block may not
leave the chain that was already fired.

This is not enough. Reading a topic that a log does not have throws, and so does
decoding a malformed log; then the rest of the block is lost. And for the largest
counts the limit on the back-fill overflows. The result is that the code delivers
one confirmed chain if no log that falls due makes it throw and the back-fill
reaches far enough (`Deliverable`).
-/

namespace Ethiso

open Outcome PendingEvents

variable {α ι : Type*}

/-! ### The highest announced block -/

/-- The earlier of two blocks, unless the later one is higher. -/
def higher (t : Option BlockInfo) (b : BlockInfo) : BlockInfo :=
  t.elim b fun t => if t.number < b.number then b else t

/-- The block that first reached the greatest height. -/
def firstHighest (blocks : List BlockInfo) : Option BlockInfo :=
  blocks.foldl (fun t b => some (higher t b)) none

@[simp] theorem firstHighest_concat (blocks : List BlockInfo) (b : BlockInfo) :
    firstHighest (blocks ++ [b]) = some (higher (firstHighest blocks) b) := by
  unfold firstHighest
  rw [List.foldl_append, List.foldl_cons, List.foldl_nil]

/-- The tip is a block of the greatest number. -/
theorem firstHighest_spec {blocks : List BlockInfo} (h : blocks ≠ []) :
    ∃ t ∈ blocks, firstHighest blocks = some t ∧ ∀ b ∈ blocks, b.number ≤ t.number := by
  induction blocks using List.reverseRecOn with
  | nil => exact absurd rfl h
  | append_singleton blocks b ih =>
    rw [firstHighest_concat]
    by_cases h_nil : blocks = []
    · subst h_nil
      exact ⟨b, by simp, rfl, by simp⟩
    · obtain ⟨t, h_t, h_eq, h_le⟩ := ih h_nil
      rw [h_eq]
      unfold higher
      rw [Option.elim_some]
      -- the new block takes over only if it is higher
      split_ifs with h_lt
      · refine ⟨b, by simp, rfl, fun b' h_b' => ?_⟩
        rcases List.mem_append.mp h_b' with h_b' | h_b'
        · exact (h_le b' h_b').trans h_lt.le
        · rw [List.mem_singleton.mp h_b']
      · refine ⟨t, by simp [h_t], rfl, fun b' h_b' => ?_⟩
        rcases List.mem_append.mp h_b' with h_b' | h_b'
        · exact h_le b' h_b'
        · rw [List.mem_singleton.mp h_b']
          exact not_lt.mp h_lt

section Chain

variable [DecidableEq ι]

/-! ### What is promised -/

/-- The fired blocks form one chain, which ends `c` below the block `t` that first
reached the greatest height and has all of `t`'s ancestors from its start to
there. -/
structure OneConfirmedChain (T : BlockTree) (c : ConfirmationCount) (env : Environment α ι)
    (l : List (Input α ι)) : Prop where
  chain : (Session.after c env l).firedBlocks.IsChain fun x y =>
    y.parentHash = x.hash ∧ y.number = x.number + 1
  nodup : (Session.after c env l).firedBlocks.Nodup
  complete : ∀ t, firstHighest (notified l) = some t →
    ∀ f, (Session.after c env l).firedBlocks.head? = some f →
      ∀ y, T.forest.IsAncestor y t → f.number ≤ y.number → y.number + c ≤ t.number →
        y ∈ (Session.after c env l).firedBlocks
  bounded : ∀ t, firstHighest (notified l) = some t →
    ∀ y ∈ (Session.after c env l).firedBlocks, y.number + c ≤ t.number

/-- The outputs of the call are those of the blocks it fires: for every log of each
of them, one for each listener the log is for. -/
def DeliversFired (c : ConfirmationCount) (env : Environment α ι) (pre : List (Input α ι)) :
    Input α ι → Prop
  | .addEventListener .. => True
  | .newBlock rpc b => ∃ blocks : List BlockInfo,
      (Session.after c env (pre ++ [.newBlock rpc b])).trace = (Session.after c env pre).trace ++
        blocks.flatMap (firedOutputs (Session.after c env pre).pending.eventListeners rpc)

/-! ### What is assumed -/

/-- The node serves the tree and the receipts, and no handler throws; after the
first announcement, the walk up from the block meets a stored block within `c + 7`
links, and a block higher than all before descends from all fired blocks. -/
def Announced (T : BlockTree) (c : ConfirmationCount) (env : Environment α ι)
    (pre : List (Input α ι)) : Input α ι → Prop
  | .addEventListener .. => True
  | .newBlock rpc b =>
    b ∈ T ∧ rpc.Serves T ∧ (∀ y ∈ T, ReceiptsServed rpc y) ∧
      ¬Refused env (Session.after c env (pre ++ [.newBlock rpc b])).trace ∧
      (notified pre ≠ [] →
        (∃ k : ℕ, 0 < k ∧ k ≤ c + 7 ∧ ∃ z ∈ (Session.after c env pre).pending.stored,
          T.forest.up k b = some z) ∧
        ((∀ b' ∈ notified pre, b'.number < b.number) →
          ∀ y ∈ (Session.after c env pre).firedBlocks, T.forest.IsAncestor y b))

/-- `y` falls due with the announcement of `b`: it is an ancestor `c` or more below
`b`, but was not `c` below a block announced before; with the first announcement,
it is no further than the back-fill goes. -/
def FallsDue (T : BlockTree) (c : ConfirmationCount) (before : List BlockInfo)
    (b y : BlockInfo) : Prop :=
  T.forest.IsAncestor y b ∧ y.number + c ≤ b.number ∧
    (∀ b' ∈ before, b'.number < b.number ∧ b'.number < y.number + c) ∧
    (before = [] → b.number ≤ y.number + fetchLimit c)

/-- The condition under which the code keeps the promise: the logs that fall due
have the topics that are read and can be decoded, and where the limit on the
back-fill overflows the parent of an announced block is stored. -/
def Deliverable (T : BlockTree) (c : ConfirmationCount) (env : Environment α ι)
    (pre : List (Input α ι)) : Input α ι → Prop
  | .addEventListener .. => True
  | .newBlock rpc b =>
    (∀ y, FallsDue T c (notified pre) b y → ∀ logEntry ∈ blockLogs rpc y,
      LogShaped (Session.after c env pre).pending.eventListeners logEntry ∧
        Decodes (Session.after c env pre).pending.eventListeners logEntry) ∧
    (notified pre ≠ [] → c.val + 5 < 2 ^ 31 ∨
      ∃ z ∈ (Session.after c env pre).pending.stored, T.forest.parent b = some z)

/-! ### The invariant -/

/-- Between calls, the monitor is an observer that has confirmed the fired blocks. -/
structure Observing (T : BlockTree) (c : ConfirmationCount) (l : List (Input α ι))
    (s : Session α ι) : Prop where
  indexed : Indexed T s.pending
  coherent : Coherent s.pending
  before : notified l = [] → s.pending.stored = ∅ ∧ s.firedBlocks = []
  confirmed : ∀ t, firstHighest (notified l) = some t →
    ∃ base, (∀ f, (notified l).head? = some f → T.forest.IsAncestor base f) ∧
      T.forest.Confirmed c base t s.pending.stored s.firedBlocks

variable {T : BlockTree} {c : ConfirmationCount} {env : Environment α ι} {rpc : EthereumRpc}
  {pre : List (Input α ι)} {s : Session α ι} {b : BlockInfo}

omit [DecidableEq ι] in
/-- Nothing has been observed at the start. -/
theorem observing_init : Observing T c ([] : List (Input α ι)) Session.init where
  indexed := indexed_init T
  coherent := coherent_init
  before := fun _ => ⟨Set.eq_empty_iff_forall_notMem.mpr (fun _ h => nomatch h), rfl⟩
  confirmed := fun _ h => nomatch h

/-- A listener changes nothing that is observed. -/
theorem Observing.addEventListener (h : Observing T c pre (Session.after c env pre))
    (topics : List String) (decodeEvent : LogEntry → Option α) (handler : ι) :
    Observing T c (pre ++ [.addEventListener topics decodeEvent handler])
      (Session.after c env (pre ++ [.addEventListener topics decodeEvent handler])) := by
  obtain ⟨eventListeners, h_after⟩ := after_addEventListener c env pre topics decodeEvent handler
  have h_notified := notified_concat_addEventListener pre topics decodeEvent handler
  rw [h_after]
  -- the indexes do not know of listeners
  refine ⟨?_, ?_, ?_, ?_⟩
  · exact h.indexed.withListeners eventListeners
  · exact h.coherent
  · rw [h_notified]
    exact h.before
  · rw [h_notified]
    exact h.confirmed

/-- The walk up from an announced block meets the window within the limit. -/
theorem meets_within_limit {M : Set BlockInfo}
    (h_meets : ∃ k : ℕ, 0 < k ∧ k ≤ c + 7 ∧ ∃ z ∈ M, T.forest.up k b = some z)
    (h_limit : c.val + 5 < 2 ^ 31 ∨ ∃ z ∈ M, T.forest.parent b = some z) :
    ∃ k ≤ fetchLimit c, ∃ z ∈ M, T.forest.up (k + 1) b = some z := by
  -- where the limit overflows, the parent has to be there
  rcases h_limit with h_c | ⟨z, h_z, h_parent⟩
  · obtain ⟨k, h_k, h_le, z, h_z, h_up⟩ := h_meets
    refine ⟨k - 1, ?_, z, h_z, ?_⟩
    · rw [fetchLimit_eq h_c]
      omega
    · rwa [Nat.sub_add_cancel h_k]
  · refine ⟨0, Nat.zero_le _, z, h_z, ?_⟩
    rw [Forest.up_succ, Forest.up_zero, Option.bind_some, h_parent]

omit [DecidableEq ι] in
/-- What the window would confirm falls due. -/
theorem Observing.fallsDue (h : Observing T c pre s)
    (h_meets : notified pre ≠ [] →
      ∃ k ≤ fetchLimit c, ∃ z ∈ s.pending.stored, T.forest.up (k + 1) b = some z)
    {t y : BlockInfo} (h_t : t ∈ s.imported T c b)
    (h_top : ∀ z ∈ s.imported T c b, z.number ≤ t.number)
    (h_chain : T.forest.OnChain (s.imported T c b) t y) (h_low : y.number + c ≤ t.number) :
    FallsDue T c (notified pre) b y := by
  by_cases h_nil : notified pre = []
  · -- the first announcement: all stored blocks are those of the walk
    obtain ⟨h_empty, -⟩ := h.before h_nil
    have h_walked : ∀ z, z ∈ s.imported T c b ↔ T.forest.Walked ∅ (fetchLimit c) b z := by
      intro z
      unfold Session.imported Forest.imported
      rw [h_empty]
      simp
    have h_t_walked := (h_walked t).mp h_t
    have h_b := h_top b ((h_walked b).mpr (Forest.walked_self _ _))
    obtain rfl : t = b :=
      h_t_walked.isAncestor.eq_of_rank (.refl b) (le_antisymm h_t_walked.isAncestor.rank_le h_b)
    obtain ⟨k, h_k, h_up, -⟩ := (h_walked y).mp h_chain.mem
    have h_rank : t.number = y.number + k := Forest.rank_up h_up
    refine ⟨⟨k, h_up⟩, h_low, ?_, fun _ => by omega⟩
    rw [h_nil]
    simp
  -- a later one: what is confirmed lies above what was confirmed before
  · obtain ⟨t₀, -, h_first, h_max⟩ := firstHighest_spec h_nil
    obtain ⟨base, -, h_conf⟩ := h.confirmed t₀ h_first
    obtain ⟨rfl, h_high, h_window⟩ := h_conf.due_spec (h_meets h_nil) h_t h_top h_chain h_low
    refine ⟨h_chain.isAncestor, h_low, fun b' h_b' => ?_, fun h => absurd h h_nil⟩
    have h_le := h_max b' h_b'
    exact ⟨lt_of_le_of_lt h_le h_high, lt_of_le_of_lt h_le h_window⟩

/-- **The step.** An announcement that connects to the window and does not leave the
fired chain delivers what it fires and keeps the invariant, if the call returns. -/
theorem Observing.returned (h_pos : 0 < c.val) (h_bounded : T.Bounded)
    (h : Observing T c pre (Session.after c env pre)) (h_b : b ∈ T) (h_rpc : rpc.AnswersBy T)
    (h_meets : notified pre ≠ [] → ∃ k ≤ fetchLimit c,
      ∃ z ∈ (Session.after c env pre).pending.stored, T.forest.up (k + 1) b = some z)
    (h_desc : notified pre ≠ [] → (∀ b' ∈ notified pre, b'.number < b.number) →
      ∀ y ∈ (Session.after c env pre).firedBlocks, T.forest.IsAncestor y b)
    {s' : Session α ι} (h_ret : (Session.after c env pre).newBlock c env rpc b = returned s') :
    DeliversFired c env pre (.newBlock rpc b) ∧
      Observing T c (pre ++ [.newBlock rpc b])
        (Session.after c env (pre ++ [.newBlock rpc b])) := by
  obtain ⟨H, D, h_adv, h_trace, h_idx, h_coh, -⟩ :=
    Session.newBlock_advances h_pos h_bounded h_rpc h.indexed h.coherent h_b h_ret
  have h_after : Session.after c env (pre ++ [.newBlock rpc b]) = s' := by
    rw [after_newBlock, h_ret, state_returned]
  have h_fired := firedBlocks_of_trace h_trace
  have h_notified := notified_concat_newBlock pre rpc b
  refine ⟨⟨D, by rw [h_after, h_trace]⟩, ?_⟩
  rw [h_after]
  refine ⟨h_idx, h_coh, fun h_nil => ?_, fun t h_t => ?_⟩
  · rw [h_notified] at h_nil
    simp at h_nil
  rw [h_notified, firstHighest_concat, Option.some.injEq] at h_t
  rw [h_fired, h_notified]
  by_cases h_nil : notified pre = []
  -- the first announcement founds the window
  · obtain ⟨h_empty, h_none⟩ := h.before h_nil
    rw [h_nil] at h_t ⊢
    obtain rfl : b = t := h_t
    unfold Session.imported at h_adv
    rw [h_empty] at h_adv
    obtain ⟨base, h_walked, h_conf⟩ := Forest.Confirmed.first h_pos h_adv
    rw [h_none]
    refine ⟨base, fun f h_f => ?_, h_conf⟩
    obtain rfl : b = f := Option.some.inj h_f
    exact h_walked.isAncestor
  · obtain ⟨t₀, -, h_first, h_max⟩ := firstHighest_spec h_nil
    obtain ⟨base, h_base, h_conf⟩ := h.confirmed t₀ h_first
    rw [← List.head?_append_of_ne_nil _ h_nil] at h_base
    rw [h_first] at h_t
    unfold higher at h_t
    rw [Option.elim_some] at h_t
    -- a higher block moves the window up, any other is only added to it
    split_ifs at h_t with h_lt
    · subst h_t
      have h_b_desc := h_desc h_nil fun b' h_b' => lt_of_le_of_lt (h_max b' h_b') h_lt
      exact ⟨base, h_base, h_conf.step_high h_pos (h_meets h_nil) h_lt h_b_desc h_adv⟩
    · subst h_t
      exact ⟨base, h_base, h_conf.step_low (h_meets h_nil) (not_lt.mp h_lt) h_adv⟩

/-- An announcement that meets the assumptions and the condition returns: what
could throw falls due, and was excluded. -/
theorem Observing.newBlock (h_pos : 0 < c.val) (h_bounded : T.Bounded)
    (h : Observing T c pre (Session.after c env pre))
    (h_ann : Announced T c env pre (.newBlock rpc b))
    (h_del : Deliverable T c env pre (.newBlock rpc b)) :
    DeliversFired c env pre (.newBlock rpc b) ∧
      Observing T c (pre ++ [.newBlock rpc b])
        (Session.after c env (pre ++ [.newBlock rpc b])) := by
  obtain ⟨h_b, h_rpc, h_receipts, h_handlers, h_later⟩ := h_ann
  obtain ⟨h_logs, h_limit⟩ := h_del
  have h_meets : notified pre ≠ [] → ∃ k ≤ fetchLimit c,
      ∃ z ∈ (Session.after c env pre).pending.stored, T.forest.up (k + 1) b = some z :=
    fun h_ne => meets_within_limit (h_later h_ne).1 (h_limit h_ne)
  cases h_s' : (Session.after c env pre).newBlock c env rpc b with
  | returned s' =>
    exact h.returned h_pos h_bounded h_b h_rpc.answersBy h_meets (fun h_ne => (h_later h_ne).2) h_s'
  | threw s' =>
    -- what threw is a due block, whose logs are sound, so it was a handler
    obtain ⟨y, t, h_t, h_top, h_chain, h_low, trace, h_threw⟩ :=
      Session.newBlock_threw h_pos h_bounded h_rpc h.indexed h_b h_s'
    have h_due := h.fallsDue h_meets h_t h_top h_chain h_low
    have h_y : y ∈ T := BlockTree.mem_of_isAncestor h_due.1 h_b
    rw [after_newBlock, h_s', state_threw] at h_handlers
    exact absurd (refused_of_fireBlock (h_receipts y h_y) (h_logs y h_due) h_threw) h_handlers

/-- The invariant holds in every state of a run that meets both. -/
theorem after_observing (h_pos : 0 < c.val) (h_bounded : T.Bounded) (l : List (Input α ι))
    (h : Along (fun pre i => Announced T c env pre i ∧ Deliverable T c env pre i) l) :
    Observing T c l (Session.after c env l) := by
  refine @after_induction _ _ _ c env
    (fun pre i => Announced T c env pre i ∧ Deliverable T c env pre i)
    (fun l s => Observing T c l s) observing_init (fun pre i h_pre h_i => ?_) l h
  cases i with
  | addEventListener topics decodeEvent handler =>
    exact h_pre.addEventListener topics decodeEvent handler
  | newBlock rpc b => exact (h_pre.newBlock h_pos h_bounded h_i.1 h_i.2).2

/-- An observer's fired blocks are one confirmed chain. -/
theorem Observing.oneConfirmedChain {l : List (Input α ι)}
    (h : Observing T c l (Session.after c env l)) : OneConfirmedChain T c env l := by
  -- before the first announcement nothing is delivered
  by_cases h_nil : notified l = []
  · obtain ⟨-, h_none⟩ := h.before h_nil
    refine ⟨?_, ?_, ?_, ?_⟩
    · rw [h_none]
      exact .nil
    · rw [h_none]
      exact List.nodup_nil
    · intro t h_t
      rw [h_nil] at h_t
      cases h_t
    · intro t h_t
      rw [h_nil] at h_t
      cases h_t
  · obtain ⟨t, -, h_first, -⟩ := firstHighest_spec h_nil
    obtain ⟨base, -, h_conf⟩ := h.confirmed t h_first
    have h_mem : ∀ y, y ∈ (Session.after c env l).firedBlocks ↔ T.forest.IsAncestor y t ∧
        base.number ≤ y.number ∧ y.number < t.number + 1 - c := by
      intro y
      -- what is confirmed is a segment of the chain of the tip
      rw [h_conf.confirmed_eq, Forest.mem_segment]
      rfl
    refine ⟨?_, ?_, ?_, ?_⟩
    · rw [h_conf.confirmed_eq]
      apply (Forest.segment_isChain _ _ _).imp
      intro x y h_parent
      exact ⟨(BlockTree.mem_of_forest_parent h_parent).2.2.symm, T.forest.rank_parent h_parent⟩
    · rw [h_conf.confirmed_eq]
      exact Forest.segment_nodup _ _ _
    · intro t' h_t' f h_f y h_y h_le h_low
      rw [h_first, Option.some.injEq] at h_t'
      subst h_t'
      have h_base := ((h_mem f).mp (List.mem_of_head? h_f)).2.1
      exact (h_mem y).mpr ⟨h_y, h_base.trans h_le, by omega⟩
    · intro t' h_t' y h_y
      rw [h_first, Option.some.injEq] at h_t'
      subst h_t'
      have h_low := ((h_mem y).mp h_y).2.2
      omega

/-- **One confirmed chain.** Along every run of announcements that meet the
assumptions, the condition suffices for the promise. -/
theorem delivers_one_confirmed_chain (T : BlockTree) (h_bounded : T.Bounded) (c : ConfirmationCount)
    (h_pos : 0 < c.val) (env : Environment α ι) (l : List (Input α ι))
    (h_ann : Along (Announced T c env) l) (h_del : Along (Deliverable T c env) l) :
    (∀ pre, pre <+: l → OneConfirmedChain T c env pre) ∧ Along (DeliversFired c env) l := by
  have h := h_ann.and h_del
  -- the state at each point of the run, and then each call
  refine ⟨?_, ?_⟩
  · intro pre h_pre
    exact (after_observing h_pos h_bounded pre (h.restrict h_pre)).oneConfirmedChain
  · intro pre i post h_eq
    have h_pre := after_observing h_pos h_bounded pre (h.restrict ⟨i :: post, h_eq.symm⟩)
    obtain ⟨h_i, h_i'⟩ := h pre i post h_eq
    cases i with
    | addEventListener topics decodeEvent handler => trivial
    | newBlock rpc b => exact (h_pre.newBlock h_pos h_bounded h_i h_i').1

end Chain

/-! ### A log without topics -/

/-- What an anonymous event without indexed arguments leaves: no topics. -/
def anonymousLog : LogEntry := ⟨"0xa0", [], ""⟩

/-- The run of this scenario is announced as the condition asks. -/
theorem announced_paymentRun (logs : List LogEntry)
    (h_stored : lineBlock paymentBlocks 0 ∈
      (Session.after oneConfirmation .quiet (paymentRun logs 0)).pending.stored)
    (h_fired : (Session.after oneConfirmation .quiet (paymentRun logs 0)).firedBlocks = []) :
    Along (Announced (.line paymentBlocks) oneConfirmation .quiet) (paymentRun logs 1) := by
  have h_rpc := lineRpc_serves paymentBlocks fun _ => logs
  have h_receipts : ∀ y ∈ BlockTree.line paymentBlocks,
      ReceiptsServed (lineRpc paymentBlocks fun _ => logs) y :=
    fun _ _ _ _ => Option.some_ne_none _
  refine (along_concat (l := paymentRun logs 0)).mpr ⟨?_, ?_⟩
  · refine (along_concat (l := [_])).mpr ⟨(along_concat (l := [])).mpr ⟨along_nil, trivial⟩, ?_⟩
    exact ⟨line_mem _ (by decide), h_rpc, h_receipts, Environment.not_refused_quiet _,
      fun h => absurd rfl h⟩
  -- the second block reconnects with the first, which has not been fired
  · refine ⟨line_mem _ (by decide), h_rpc, h_receipts, Environment.not_refused_quiet _,
      fun _ => ⟨?_, ?_⟩⟩
    · refine ⟨1, one_pos, by decide, _, h_stored, ?_⟩
      rw [Forest.up_succ, Forest.up_zero, Option.bind_some]
      exact line_parent paymentBlocks (by decide)
    · rw [h_fired]
      intro _ y h_y
      cases h_y

theorem deliverable_paymentRun :
    Along (Deliverable (.line paymentBlocks) oneConfirmation .quiet)
      (paymentRun [paymentLog] 1) := by
  have h_logs : ∀ y, ∀ logEntry ∈ blockLogs (lineRpc paymentBlocks fun _ => [paymentLog]) y,
      logEntry = paymentLog := by
    intro y logEntry h_mem
    obtain ⟨transactionHash, -, h_mem⟩ := List.mem_flatMap.mp h_mem
    exact List.mem_singleton.mp h_mem
  have h_sound : ∀ n < 2, LogShaped (Session.after oneConfirmation .quiet
        ((paymentRun [paymentLog] 1).take (n + 1))).pending.eventListeners paymentLog ∧
      Decodes (Session.after oneConfirmation .quiet
        ((paymentRun [paymentLog] 1).take (n + 1))).pending.eventListeners paymentLog := by
    unfold LogShaped Decodes
    decide +kernel
  refine (along_concat (l := paymentRun [paymentLog] 0)).mpr ⟨?_, ?_⟩
  · refine (along_concat (l := [_])).mpr ⟨(along_concat (l := [])).mpr ⟨along_nil, trivial⟩, ?_⟩
    -- no listener, so no log has to be decoded
    refine ⟨fun y _ logEntry h_mem => ?_, fun h => absurd rfl h⟩
    rw [h_logs y logEntry h_mem]
    exact h_sound 0 (by decide)
  · refine ⟨fun y _ logEntry h_mem => ?_, fun _ => Or.inl (by decide)⟩
    rw [h_logs y logEntry h_mem]
    exact h_sound 1 (by decide)

/-- The payment of block 0 is delivered once block 1 is announced. -/
theorem delivers_one_confirmed_chain_payment :
    (∀ pre, pre <+: paymentRun [paymentLog] 1 →
        OneConfirmedChain (.line paymentBlocks) oneConfirmation .quiet pre) ∧
      Along (DeliversFired oneConfirmation .quiet) (paymentRun [paymentLog] 1) :=
  delivers_one_confirmed_chain (.line paymentBlocks) (line_bounded _) oneConfirmation one_pos .quiet
    (paymentRun [paymentLog] 1)
    (announced_paymentRun _ (by unfold stored; decide +kernel) (by decide +kernel))
    deliverable_paymentRun

/-- If a log without topics stands before the payment, the announcement of block 1
throws there, and the payment is not passed on. -/
theorem not_deliversFired_anonymousLog :
    Along (Announced (.line paymentBlocks) oneConfirmation .quiet)
        (paymentRun [anonymousLog, paymentLog] 1) ∧
      ¬Along (DeliversFired oneConfirmation .quiet) (paymentRun [anonymousLog, paymentLog] 1) := by
  refine ⟨announced_paymentRun _ (by unfold stored; decide +kernel) (by decide +kernel), ?_⟩
  intro h
  obtain ⟨blocks, h_trace⟩ := h (paymentRun [anonymousLog, paymentLog] 0) _ [] rfl
  have h_after : (Session.after oneConfirmation .quiet
      (paymentRun [anonymousLog, paymentLog] 1)).trace = [.fired (lineBlock paymentBlocks 0)] := by
    decide +kernel
  have h_before : (Session.after oneConfirmation .quiet
      (paymentRun [anonymousLog, paymentLog] 0)).trace = [] := by
    decide +kernel
  rw [h_before, List.nil_append] at h_trace
  have h_eq := h_after.symm.trans h_trace
  -- the call fired block 0, so these are the outputs of block 0
  obtain rfl : blocks = [lineBlock paymentBlocks 0] := by
    have h_fired := congrArg firedIn h_eq
    rw [firedIn_firedOutputs] at h_fired
    exact h_fired.symm
  exact absurd (congrArg List.length h_eq) (by decide +kernel)

end Ethiso
