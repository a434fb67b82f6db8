import Ethiso.Events.DoubleDelivery
import Ethiso.Events.SkippedBlocks
import Mathlib.Data.List.Chain

/-!
# The poller

The node has a filter, which collects the hashes of the blocks that are mined. `BlockPoller.run`
takes what is in it, asks the node for each of the blocks and announces it to the monitor. An
exception ends the loop, and what was taken from the filter is not asked for again; the answer
with the hashes may also get lost on its way.

A run of the node and the poller is a run of the monitor (`after_session`), which is told of some
of the mined blocks, in their order. If the next block that it is told of is never too far ahead
(`Reconnects`), the blocks whose announcement was lost are imported, and no event is lost
(`lost_polls_lose_nothing`).
-/

namespace Ethiso

open Outcome PendingEvents

variable {α ι : Type*} [DecidableEq ι]

namespace BlockPoller

/-! ### The timer task -/

/-- The body of the loop of `run`: a hash, and the node as it answers when the loop gets there. For
the answer `null`, `newBlock` throws at once. -/
def announce (c : ConfirmationCount) (env : Environment α ι) (s : Session α ι)
    (x : Hash × EthereumRpc) : Outcome (Session α ι) :=
  match x.2.eth_getBlockByHash x.1 with
  | none => .threw s
  | some blockInfo => s.newBlock c env x.2 blockInfo

/-- `run`, where the answer to `eth_getFilterChanges` is `none` if the call throws. What is thrown
is caught. -/
def run (c : ConfirmationCount) (env : Environment α ι)
    (eth_getFilterChanges : Option (List (Hash × EthereumRpc))) (s : Session α ι) : Session α ι :=
  match eth_getFilterChanges with
  | none => s
  | some list => (forEach (announce c env) list s).state

/-! ### The poller and its node -/

/-- What becomes of a call of `eth_getFilterChanges`: it does not reach the node, its answer does
not come back, or the poller gets the hashes and, for each, asks a node. -/
inductive Answer
  | unreachable
  | lost
  | served (rpcAt : ℕ → EthereumRpc)

/-- What happens: the node mines, listeners are added, the timer ticks. -/
inductive Input (α ι : Type*) where
  | mined (blockInfo : BlockInfo)
  | addEventListener (topics : List String) (decodeEvent : LogEntry → Option α) (handler : ι)
  | poll (answer : Answer)

/-- The filter of the node, and the monitor. -/
structure State (α ι : Type*) where
  filter : List Hash
  session : Session α ι

namespace State

/-- An empty filter and a new session. -/
def init : State α ι := ⟨[], Session.init⟩

/-- What the poller gets, if it is served. -/
def changes (rpcAt : ℕ → EthereumRpc) (s : State α ι) : List (Hash × EthereumRpc) :=
  s.filter.zipIdx.map fun x => (x.1, rpcAt x.2)

/-- One step of the node and the poller. -/
def step (c : ConfirmationCount) (env : Environment α ι) (s : State α ι) :
    Input α ι → State α ι
  | .mined blockInfo => { s with filter := s.filter ++ [blockInfo.hash] }
  | .addEventListener topics decodeEvent handler =>
    { s with session := s.session.step c env (.addEventListener topics decodeEvent handler) }
  | .poll .unreachable => { s with session := BlockPoller.run c env none s.session }
  | .poll .lost => ⟨[], BlockPoller.run c env none s.session⟩
  | .poll (.served rpcAt) => ⟨[], BlockPoller.run c env (some (s.changes rpcAt)) s.session⟩

/-- The state after a list of inputs. -/
def after (c : ConfirmationCount) (env : Environment α ι) (l : List (Input α ι)) : State α ι :=
  Ethiso.run (step c env) init l

end State

/-! ### The calls of the monitor -/

/-- The calls that the loop makes. -/
def announcements (c : ConfirmationCount) (env : Environment α ι) :
    List (Hash × EthereumRpc) → Session α ι → List (Ethiso.Input α ι)
  | [], _ => []
  | x :: xs, s =>
    match x.2.eth_getBlockByHash x.1 with
    | none => []
    | some blockInfo => .newBlock x.2 blockInfo ::
      if (s.newBlock c env x.2 blockInfo).isReturned then
        announcements c env xs (s.newBlock c env x.2 blockInfo).state
      else []

/-- The calls of the monitor that a step consists of. -/
def Input.monitorCalls (c : ConfirmationCount) (env : Environment α ι) (s : State α ι) :
    Input α ι → List (Ethiso.Input α ι)
  | .addEventListener topics decodeEvent handler => [.addEventListener topics decodeEvent handler]
  | .poll (.served rpcAt) => announcements c env (s.changes rpcAt) s.session
  | _ => []

/-- The calls of the monitor in a run. -/
def monitorRun (c : ConfirmationCount) (env : Environment α ι) :
    State α ι → List (Input α ι) → List (Ethiso.Input α ι)
  | _, [] => []
  | s, i :: l => i.monitorCalls c env s ++ monitorRun c env (s.step c env i) l

/-- The blocks that are mined in a run. -/
def minedIn (l : List (Input α ι)) : List BlockInfo :=
  l.filterMap fun
    | .mined blockInfo => some blockInfo
    | _ => none

section Refinement

variable {c : ConfirmationCount} {env : Environment α ι}

/-- **A poll** is the run of its announcements. By induction on the changes. -/
theorem run_announcements (xs : List (Hash × EthereumRpc)) (s : Session α ι) :
    Ethiso.run (Session.step c env) s (announcements c env xs s) =
      (forEach (announce c env) xs s).state := by
  induction xs generalizing s with
  | nil => rfl
  | cons x xs ih =>
    rw [forEach_cons, announcements, announce]
    -- a hash that the node no longer knows is passed over
    cases x.2.eth_getBlockByHash x.1 with
    | none => rfl
    | some blockInfo =>
      have h_step : s.step c env (.newBlock x.2 blockInfo) =
          (s.newBlock c env x.2 blockInfo).state := rfl
      unfold Ethiso.run at ih ⊢
      dsimp only
      rw [List.foldl_cons, h_step]
      generalize s.newBlock c env x.2 blockInfo = o
      -- the first announcement that throws ends the poll
      cases o with
      | returned s' => exact ih s'
      | threw s' => rfl

theorem step_session (s : State α ι) (i : Input α ι) :
    (s.step c env i).session =
      Ethiso.run (Session.step c env) s.session (i.monitorCalls c env s) := by
  cases i with
  | mined blockInfo => rfl
  | addEventListener topics decodeEvent handler => rfl
  | poll answer =>
    cases answer with
    | unreachable | lost => rfl
    | served rpcAt => exact (run_announcements _ _).symm

/-- The calls of a run are those of its steps. -/
theorem monitorRun_concat (s : State α ι) (l : List (Input α ι)) (i : Input α ι) :
    monitorRun c env s (l ++ [i]) = monitorRun c env s l ++
      i.monitorCalls c env (Ethiso.run (State.step c env) s l) := by
  induction l generalizing s with
  | nil => exact List.append_nil _
  | cons j l ih =>
    show j.monitorCalls c env s ++ monitorRun c env (s.step c env j) (l ++ [i]) = _
    rw [ih, ← List.append_assoc]
    rfl

/-- **The refinement**: the poller and its node make a run of the monitor. -/
theorem after_session (l : List (Input α ι)) :
    (State.after c env l).session = Session.after c env (monitorRun c env .init l) := by
  induction l using List.reverseRecOn with
  | nil => rfl
  | append_singleton l i ih =>
    unfold State.after Session.after at ih ⊢
    rw [run_concat, step_session, monitorRun_concat, ih]
    exact List.foldl_append.symm

end Refinement

/-! ### Runs over one chain -/

section Statement

variable (T : BlockTree) (c : ConfirmationCount) (env : Environment α ι)

/-- Each mined block is a child of the one before, and the node answers by the tree, or not. -/
def OneChain (pre : List (Input α ι)) : Input α ι → Prop
  | .mined b => b ∈ T ∧ ∀ last, (minedIn pre).getLast? = some last → T.forest.parent b = some last
  | .addEventListener .. => True
  | .poll (.served rpcAt) => ∀ n, (rpcAt n).AnswersBy T
  | .poll _ => True

/-- The first block of a poll that is announced is at most `fetchLimit c` blocks ahead of the
next one to be announced. -/
def Reconnects (pre : List (Input α ι)) : Input α ι → Prop
  | .poll (.served rpcAt) =>
    ∀ last hash b, (notified (monitorRun c env .init pre)).getLast? = some last →
      (State.after c env pre).filter.head? = some hash →
        (rpcAt 0).eth_getBlockByHash hash = some b → b.number ≤ last.number + fetchLimit c + 1
  | _ => True

end Statement

section Run

variable {T : BlockTree} {c : ConfirmationCount} {env : Environment α ι}

/-- `z` is above `y`, on its chain. -/
def Above (T : BlockTree) (y z : BlockInfo) : Prop := T.forest.IsAncestor y z ∧ y.number < z.number

theorem Above.trans {x y z : BlockInfo} (h : Above T x y) (h' : Above T y z) : Above T x z :=
  ⟨h.1.trans h'.1, h.2.trans h'.2⟩

/-- A block is numbered one above its parent. -/
theorem number_of_parent {y z : BlockInfo} (h : T.forest.parent z = some y) :
    z.number = y.number + 1 := T.forest.rank_parent h

theorem above_of_parent {y z : BlockInfo} (h : T.forest.parent z = some y) : Above T y z :=
  ⟨Forest.isAncestor_of_parent h, by rw [number_of_parent h]; exact Nat.lt_succ_self _⟩

/-- Of a chain of blocks, the later ones are above the earlier ones. -/
theorem pairwise_above {blocks : List BlockInfo}
    (h : blocks.IsChain fun y z => T.forest.parent z = some y) : blocks.Pairwise (Above T) := by
  have h_trans : IsTrans BlockInfo (Above T) := ⟨fun _ _ _ h h' => h.trans h'⟩
  exact List.isChain_iff_pairwise.mp (h.imp fun _ _ => above_of_parent)

/-- The calls of the monitor are in order, and none skips too many blocks. -/
abbrev Followed (T : BlockTree) (c : ConfirmationCount) (env : Environment α ι)
    (m : List (Ethiso.Input α ι)) : Prop :=
  Along (fun pre i => InOrder T c env pre i ∧ SkipsAtMost (fetchLimit c) pre i) m

/-- **One poll**: the monitor is told of the first blocks of the chain `blocks`, the first of which
is not too far ahead. -/
theorem announcements_followed {blocks : List (BlockInfo × EthereumRpc)}
    {m : List (Ethiso.Input α ι)} (h_m : Followed T c env m)
    (h_mem : ∀ x ∈ blocks, x.1 ∈ T ∧ x.2.AnswersBy T)
    (h_chain : (blocks.map Prod.fst).IsChain fun y z => T.forest.parent z = some y)
    (h_above : ∀ last, (notified m).getLast? = some last → ∀ x ∈ blocks, Above T last x.1)
    (h_near : ∀ last x, (notified m).getLast? = some last → blocks.head? = some x →
      x.2.eth_getBlockByHash x.1.hash = some x.1 → x.1.number ≤ last.number + fetchLimit c + 1)
    (h_ret : Along (Returns c env) (m ++ announcements c env
      (blocks.map fun x => (x.1.hash, x.2)) (Session.after c env m))) :
    Followed T c env (m ++ announcements c env (blocks.map fun x => (x.1.hash, x.2))
        (Session.after c env m)) ∧
      ∃ told, told <+: blocks.map Prod.fst ∧
        notified (m ++ announcements c env (blocks.map fun x => (x.1.hash, x.2))
          (Session.after c env m)) = notified m ++ told := by
  induction blocks generalizing m with
  | nil =>
    rw [List.map_nil, announcements, List.append_nil]
    exact ⟨h_m, [], List.nil_prefix, (List.append_nil _).symm⟩
  | cons x blocks ih =>
    obtain ⟨b, rpc⟩ := x
    rw [List.forall_mem_cons] at h_mem
    obtain ⟨⟨h_b, h_rpc⟩, h_mem⟩ := h_mem
    rw [List.map_cons, announcements] at h_ret ⊢
    rcases h_rpc b h_b with h_none | h_some
    · -- the node does not answer, so the loop ends here
      dsimp only at h_none ⊢
      rw [h_none, List.append_nil]
      exact ⟨h_m, [], List.nil_prefix, (List.append_nil _).symm⟩
    · dsimp only at h_some h_ret ⊢
      rw [h_some] at h_ret ⊢
      dsimp only at h_ret ⊢
      have h_returns := h_ret m (.newBlock rpc b) _ rfl
      have h_step : Followed T c env (m ++ [.newBlock rpc b]) := by
        refine along_concat.mpr ⟨h_m, ⟨h_b, h_rpc, h_returns, fun last h_last => ?_⟩,
          fun last h_last => ?_⟩
        · exact h_above last h_last _ List.mem_cons_self
        · exact h_near last _ h_last rfl h_some
      have h_isReturned : ((Session.after c env m).newBlock c env rpc b).isReturned = true :=
        h_returns
      rw [if_pos h_isReturned] at h_ret ⊢
      have h_after : ((Session.after c env m).newBlock c env rpc b).state =
          Session.after c env (m ++ [.newBlock rpc b]) := (after_newBlock c env m rpc b).symm
      rw [h_after, List.append_cons] at h_ret ⊢
      -- the blocks that are left are above this one, and the first is its child
      have h_last : (notified (m ++ [.newBlock rpc b])).getLast? = some b := by
        rw [notified_concat_newBlock, List.getLast?_concat]
      have h_rest := ih h_step h_mem (List.isChain_cons.mp h_chain).2
        (fun last h_eq x h_x => ?_) (fun last x h_eq h_x _ => ?_) h_ret
      · obtain ⟨h_followed, told, h_told, h_notified⟩ := h_rest
        refine ⟨h_followed, b :: told, List.cons_prefix_cons.mpr ⟨rfl, h_told⟩, ?_⟩
        rw [h_notified, notified_concat_newBlock, List.append_assoc, List.singleton_append]
      · obtain rfl := Option.some.inj (h_last.symm.trans h_eq)
        exact List.rel_of_pairwise_cons (pairwise_above h_chain) (List.mem_map_of_mem h_x)
      · obtain rfl := Option.some.inj (h_last.symm.trans h_eq)
        obtain ⟨rest, rfl⟩ := List.head?_eq_some_iff.mp h_x
        have h_parent : T.forest.parent x.1 = some b := (List.isChain_cons_cons.mp h_chain).1
        have h_number := number_of_parent h_parent
        omega

/-! ### The invariant -/

/-- The monitor followed the chain of the mined blocks, of which the last are in the filter and
some of the others were announced. -/
structure Polled (T : BlockTree) (c : ConfirmationCount) (env : Environment α ι)
    (l : List (Input α ι)) : Prop where
  followed : Followed T c env (monitorRun c env .init l)
  mem : ∀ b ∈ minedIn l, b ∈ T
  chain : (minedIn l).IsChain fun y z => T.forest.parent z = some y
  filter : ∃ taken queue, minedIn l = taken ++ queue ∧
    (State.after c env l).filter = queue.map BlockInfo.hash ∧
    (notified (monitorRun c env .init l)).Sublist taken

omit [DecidableEq ι] in
/-- What has been mined after one more block. -/
theorem minedIn_mined (l : List (Input α ι)) (b : BlockInfo) :
    minedIn (l ++ [.mined b]) = minedIn l ++ [b] := List.filterMap_append

omit [DecidableEq ι] in
theorem minedIn_addEventListener (l : List (Input α ι)) (topics : List String)
    (decodeEvent : LogEntry → Option α) (handler : ι) :
    minedIn (l ++ [.addEventListener topics decodeEvent handler]) = minedIn l :=
  List.filterMap_append.trans (List.append_nil _)

omit [DecidableEq ι] in
theorem minedIn_poll (l : List (Input α ι)) (answer : Answer) :
    minedIn (l ++ [.poll answer]) = minedIn l :=
  List.filterMap_append.trans (List.append_nil _)

/-- A step without calls leaves the calls as they were. -/
theorem monitorRun_concat_nil {l : List (Input α ι)} {i : Input α ι}
    (h : i.monitorCalls c env (State.after c env l) = []) :
    monitorRun c env .init (l ++ [i]) = monitorRun c env .init l :=
  (monitorRun_concat _ _ _).trans ((congrArg (_ ++ ·) h).trans (List.append_nil _))

theorem after_concat (l : List (Input α ι)) (i : Input α ι) :
    State.after c env (l ++ [i]) = (State.after c env l).step c env i := run_concat l i

theorem polled_nil : Polled T c env ([] : List (Input α ι)) :=
  ⟨along_nil, (fun _ h => nomatch h), List.IsChain.nil, [], [], rfl, rfl, List.Sublist.refl _⟩

/-- A block that is mined is added to what the filter has queued. -/
theorem Polled.mined {pre : List (Input α ι)} (h : Polled T c env pre) {b : BlockInfo}
    (h_b : b ∈ T) (h_parent : ∀ last, (minedIn pre).getLast? = some last →
      T.forest.parent b = some last) : Polled T c env (pre ++ [.mined b]) := by
  obtain ⟨taken, queue, h_mined, h_filter, h_sub⟩ := h.filter
  have h_calls := @monitorRun_concat_nil _ _ _ c env pre (.mined b) rfl
  -- nothing is announced, so the part taken is the same
  refine ⟨h_calls ▸ h.followed, ?_, ?_, taken, queue ++ [b], ?_, ?_, h_calls ▸ h_sub⟩
  · rw [minedIn_mined]
    intro y h_y
    rcases List.mem_append.mp h_y with h_y | h_y
    · exact h.mem y h_y
    · rw [List.mem_singleton.mp h_y]
      exact h_b
  · rw [minedIn_mined]
    refine List.isChain_append.mpr ⟨h.chain, List.IsChain.singleton b, fun last h_last z h_z => ?_⟩
    obtain rfl := Option.some.inj h_z
    exact h_parent last h_last
  · rw [minedIn_mined, h_mined, List.append_assoc]
  · rw [after_concat]
    show (State.after c env pre).filter ++ [b.hash] = _
    rw [h_filter, List.map_append]
    rfl

omit [DecidableEq ι] in
/-- What the poller gets, if the hashes are those of some blocks. -/
theorem changes_eq {rpcAt : ℕ → EthereumRpc} {s : State α ι} {queue : List BlockInfo}
    (h : s.filter = queue.map BlockInfo.hash) :
    s.changes rpcAt =
      (queue.zipIdx.map fun x => (x.1, rpcAt x.2)).map fun x => (x.1.hash, x.2) := by
  unfold State.changes
  rw [h, List.zipIdx_map, List.map_map, List.map_map]
  rfl

/-- **A poll that is served** takes all that is queued. -/
theorem Polled.served {pre : List (Input α ι)} (h : Polled T c env pre) {rpcAt : ℕ → EthereumRpc}
    (h_rpc : ∀ n, (rpcAt n).AnswersBy T) (h_near : Reconnects c env pre (.poll (.served rpcAt)))
    (h_ret : Along (Returns c env) (monitorRun c env .init (pre ++ [.poll (.served rpcAt)]))) :
    Polled T c env (pre ++ [.poll (.served rpcAt)]) := by
  obtain ⟨taken, queue, h_mined, h_filter, h_sub⟩ := h.filter
  have h_chain := h.chain
  have h_pairs := pairwise_above h.chain
  rw [h_mined] at h_chain h_pairs
  have h_calls : monitorRun c env .init (pre ++ [.poll (.served rpcAt)]) =
      monitorRun c env .init pre ++ announcements c env
        ((queue.zipIdx.map fun x => (x.1, rpcAt x.2)).map fun x => (x.1.hash, x.2))
          (Session.after c env (monitorRun c env .init pre)) := by
    -- the changes that the node returns are the queued blocks
    rw [monitorRun_concat, ← after_session, ← changes_eq h_filter]
    rfl
  have h_fst : (queue.zipIdx.map fun x => (x.1, rpcAt x.2)).map Prod.fst = queue := by
    rw [List.map_map]
    exact List.zipIdx_map_fst 0 queue
  rw [h_calls] at h_ret
  have h_poll := announcements_followed h.followed (fun x h_x => ?_)
    (h_fst.symm ▸ (List.isChain_append.mp h_chain).2.1) (fun last h_last x h_x => ?_)
    (fun last x h_last h_x h_some => ?_) h_ret
  · obtain ⟨h_followed, told, h_told, h_notified⟩ := h_poll
    rw [h_fst] at h_told
    refine ⟨h_calls ▸ h_followed, ?_, ?_, taken ++ queue, [], ?_, ?_, ?_⟩
    · rw [minedIn_poll]
      exact h.mem
    · rw [minedIn_poll]
      exact h.chain
    · rw [minedIn_poll, h_mined, List.append_nil]
    · rw [after_concat]
      rfl
    · rw [h_calls, h_notified]
      exact h_sub.append h_told.sublist
  · obtain ⟨y, h_y, rfl⟩ := List.mem_map.mp h_x
    have h_queue : y.1 ∈ queue := (List.zipIdx_map_fst 0 queue) ▸ List.mem_map_of_mem h_y
    exact ⟨h.mem _ (h_mined ▸ List.mem_append_right _ h_queue), h_rpc _⟩
  · have h_queue : x.1 ∈ queue := h_fst ▸ List.mem_map_of_mem h_x
    have h_taken := h_sub.subset (List.mem_of_getLast? h_last)
    exact (List.pairwise_append.mp h_pairs).2.2 last h_taken x.1 h_queue
  -- the first of them reconnects, by assumption; the others stand above it
  · cases queue with
    | nil => cases h_x
    | cons b queue =>
      obtain rfl := Option.some.inj h_x
      refine h_near last b.hash b h_last ?_ h_some
      rw [h_filter]
      rfl

/-- **The step.** -/
theorem Polled.step {pre : List (Input α ι)} (h : Polled T c env pre) {i : Input α ι}
    (h_i : OneChain T pre i) (h_near : Reconnects c env pre i)
    (h_ret : Along (Returns c env) (monitorRun c env .init (pre ++ [i]))) :
    Polled T c env (pre ++ [i]) := by
  cases i with
  | mined b => exact h.mined h_i.1 h_i.2
  | addEventListener topics decodeEvent handler =>
    obtain ⟨taken, queue, h_mined, h_filter, h_sub⟩ := h.filter
    have h_calls : monitorRun c env .init (pre ++ [.addEventListener topics decodeEvent handler]) =
        monitorRun c env .init pre ++ [.addEventListener topics decodeEvent handler] :=
      monitorRun_concat _ _ _
    have h_mined' := minedIn_addEventListener pre topics decodeEvent handler
    refine ⟨?_, h_mined' ▸ h.mem, h_mined' ▸ h.chain, taken, queue, h_mined'.trans h_mined, ?_, ?_⟩
    · rw [h_calls]
      exact along_concat.mpr ⟨h.followed, trivial, trivial⟩
    · rwa [after_concat]
    · rwa [h_calls, notified_concat_addEventListener]
  | poll answer =>
    cases answer with
    | unreachable =>
      obtain ⟨taken, queue, h_mined, h_filter, h_sub⟩ := h.filter
      have h_calls := @monitorRun_concat_nil _ _ _ c env pre (.poll .unreachable) rfl
      have h_mined' := minedIn_poll pre .unreachable
      refine ⟨h_calls ▸ h.followed, h_mined' ▸ h.mem, h_mined' ▸ h.chain, taken, queue,
        h_mined'.trans h_mined, ?_, h_calls ▸ h_sub⟩
      rwa [after_concat]
    | lost =>
      obtain ⟨taken, queue, h_mined, -, h_sub⟩ := h.filter
      have h_calls := @monitorRun_concat_nil _ _ _ c env pre (.poll .lost) rfl
      have h_mined' := minedIn_poll pre .lost
      -- what was in the filter is taken
      refine ⟨h_calls ▸ h.followed, h_mined' ▸ h.mem, h_mined' ▸ h.chain, taken ++ queue, [],
        ?_, ?_, h_calls ▸ h_sub.trans (List.sublist_append_left _ _)⟩
      · rw [h_mined', h_mined, List.append_nil]
      · rw [after_concat]
        rfl
    | served rpcAt => exact h.served h_i h_near h_ret

/-- The calls of a longer run begin with those of a shorter. -/
theorem monitorRun_prefix_chain {l l' : List (Input α ι)} (h : l <+: l') :
    monitorRun c env .init l <+: monitorRun c env .init l' := by
  obtain ⟨t, rfl⟩ := h
  induction t using List.reverseRecOn with
  | nil => exact (List.append_nil l).symm ▸ List.prefix_rfl
  | append_singleton t i ih =>
    rw [← List.append_assoc, monitorRun_concat]
    exact ih.trans (List.prefix_append _ _)

/-- **The invariant of a run** of the poller. -/
theorem after_polled (l : List (Input α ι)) (h_chain : Along (OneChain T) l)
    (h_near : Along (Reconnects c env) l)
    (h_ret : Along (Returns c env) (monitorRun c env .init l)) : Polled T c env l := by
  induction l using List.reverseRecOn with
  | nil => exact polled_nil
  | append_singleton l i ih =>
    obtain ⟨h_l, h_i⟩ := along_concat.mp h_chain
    obtain ⟨h_l', h_i'⟩ := along_concat.mp h_near
    have h_calls := @monitorRun_prefix_chain _ _ _ c env l (l ++ [i]) (List.prefix_append _ _)
    exact (ih h_l h_l' (h_ret.restrict h_calls)).step h_i h_i' h_ret

/-- **Lost polls** lose no event. Let the blocks of one chain be mined in order, and let the poller
be served or not, lose the answers of the filter, or be cut off within its loop, at any time; where
the monitor is called, it returns. Then the monitor is told of some of the mined blocks, in their
order. If it is never cut off from its next block by more than `fetchLimit c` blocks, each block
from the first one it was told of up to `c` below the last one is fired once. -/
theorem lost_polls_lose_nothing (T : BlockTree) (h_bounded : T.Bounded) (c : ConfirmationCount)
    (h_pos : 0 < c.val) (env : Environment α ι) (l : List (Input α ι))
    (h_chain : Along (OneChain T) l) (h_near : Along (Reconnects c env) l)
    (h_ret : Along (Returns c env) (monitorRun c env .init l)) :
    (State.after c env l).session = Session.after c env (monitorRun c env .init l) ∧
      (notified (monitorRun c env .init l)).Sublist (minedIn l) ∧
      AllConfirmedFired T c env (monitorRun c env .init l) ∧
      Along (DeliversFired c env) (monitorRun c env .init l) := by
  have h := after_polled l h_chain h_near h_ret
  -- what has been announced is what was mined, less some lost polls
  obtain ⟨taken, queue, h_mined, -, h_sub⟩ := h.filter
  refine ⟨after_session l, ?_, ?_, fun pre i post h_eq => ?_⟩
  · rw [h_mined]
    exact h_sub.trans (List.sublist_append_left _ _)
  · exact (after_followsChain h_pos h_bounded _ h.followed).allConfirmedFired
  · have h_pre := after_followsChain h_pos h_bounded pre
      (h.followed.restrict ⟨i :: post, h_eq.symm⟩)
    obtain ⟨h_i, h_i'⟩ := h.followed pre i post h_eq
    -- for each announcement, the theorem about one confirmed chain
    cases i with
    | addEventListener topics decodeEvent handler => trivial
    | newBlock rpc b => exact (h_pre.newBlock h_pos h_bounded h_i h_i').1

end Run

/-! ### A lost answer -/

/-- A node with three blocks in a line. -/
def lineNode (_ : ℕ) : EthereumRpc := lineRpc paymentBlocks fun _ => [paymentLog]

/-- Blocks 0, 1 and 2 are mined and polled for; the answer with block 1 is lost. -/
def lossyRun : List (Input String String) :=
  [.mined (lineBlock paymentBlocks 0), .poll (.served lineNode),
    .mined (lineBlock paymentBlocks 1), .poll .lost,
    .mined (lineBlock paymentBlocks 2), .poll (.served lineNode)]

/-- One change is one announcement. -/
theorem announcements_singleton {c : ConfirmationCount} {env : Environment α ι} {s : Session α ι}
    {hash : Hash} {rpc : EthereumRpc} {b : BlockInfo} (h : rpc.eth_getBlockByHash hash = some b) :
    announcements c env [(hash, rpc)] s = [.newBlock rpc b] := by
  rw [announcements]
  dsimp only
  rw [h]
  exact congrArg _ (ite_self _)

/-- The poll that is lost announces nothing; the next one announces both blocks. -/
theorem monitorRun_lossyRun : monitorRun oneConfirmation .quiet .init lossyRun =
    announceRun [paymentLog] [0, 2] := by
  simp only [lossyRun, monitorRun, Input.monitorCalls, List.nil_append, List.append_nil]
  show announcements _ _ [(1, lineNode 0)] _ ++ announcements _ _ [(3, lineNode 0)] _ = _
  rw [announcements_singleton (b := lineBlock paymentBlocks 0) rfl,
    announcements_singleton (b := lineBlock paymentBlocks 2) rfl]
  rfl

/-- Block 1 is fired nevertheless. -/
theorem lost_polls_lose_nothing_lossyRun :
    (State.after oneConfirmation .quiet lossyRun).session =
        Session.after oneConfirmation .quiet (monitorRun oneConfirmation .quiet .init lossyRun) ∧
      (notified (monitorRun oneConfirmation .quiet .init lossyRun)).Sublist (minedIn lossyRun) ∧
      AllConfirmedFired (.line paymentBlocks) oneConfirmation .quiet
        (monitorRun oneConfirmation .quiet .init lossyRun) ∧
      Along (DeliversFired oneConfirmation .quiet)
        (monitorRun oneConfirmation .quiet .init lossyRun) := by
  have h_rpc (n : ℕ) : (lineNode n).AnswersBy (.line paymentBlocks) :=
    (lineRpc_serves paymentBlocks fun _ => [paymentLog]).answersBy
  have h_chain : Along (OneChain (.line paymentBlocks)) lossyRun := by
    -- the blocks of the line are mined in order
    refine along_of_take fun k h_k => ?_
    match k with
    | 0 => exact ⟨line_mem _ (by decide), fun _ h => nomatch h⟩
    | 1 | 5 => exact h_rpc
    | 2 =>
      refine ⟨line_mem _ (by decide), fun last h_last => ?_⟩
      obtain rfl := Option.some.inj h_last
      exact line_parent paymentBlocks (by decide)
    | 3 => exact trivial
    | 4 =>
      refine ⟨line_mem _ (by decide), fun last h_last => ?_⟩
      obtain rfl := Option.some.inj h_last
      exact line_parent paymentBlocks (by decide)
  -- the chain that is announced reconnects with what was seen
  have h_near : Along (Reconnects oneConfirmation .quiet) lossyRun := by
    refine along_of_take fun k h_k => ?_
    match k with
    | 0 | 2 | 3 | 4 => exact trivial
    | 1 => exact fun last hash b h_last => nomatch h_last
    | 5 =>
      intro last hash b _ h_hash h_b
      obtain rfl := Option.some.inj h_hash
      obtain rfl := Option.some.inj h_b
      show 2 ≤ last.number + fetchLimit oneConfirmation + 1
      have h_limit : 1 ≤ fetchLimit oneConfirmation := by decide +kernel
      omega
  -- all calls return, as they do without handlers
  have h_ret : Along (Returns oneConfirmation .quiet)
      (monitorRun oneConfirmation .quiet .init lossyRun) := by
    rw [monitorRun_lossyRun]
    refine along_of_take fun k h_k => ?_
    match k with
    | 0 => exact (by decide +kernel : (Session.init.newBlock oneConfirmation .quiet (lineNode 0)
        (lineBlock paymentBlocks 0) : Outcome (Session String String)).isReturned = true)
    | 1 => exact (by decide +kernel : ((Session.after oneConfirmation .quiet
        (announceRun [paymentLog] [0])).newBlock oneConfirmation .quiet (lineNode 0)
          (lineBlock paymentBlocks 2)).isReturned = true)
  exact lost_polls_lose_nothing (.line paymentBlocks) (line_bounded _) oneConfirmation one_pos
    .quiet lossyRun h_chain h_near h_ret

end BlockPoller

end Ethiso
