import Ethiso.Events.Window

/-!
# Runs of the monitor

A run is a list of calls; what is proved along runs goes by induction on the calls
(`after_induction`). Registrations change nothing but the listeners. Announcements
are read off a run (`notified`), and if they are blocks of a tree, the indexes stay
indexes of the tree (`after_indexed`).

At the end are the runs that the examples are about: the blocks of a chain without
forks are announced, of which block 0 has some logs.
-/

namespace Ethiso

open Outcome PendingEvents

variable {α ι : Type*}

/-- The blocks announced in a run, oldest first. -/
def notified (l : List (Input α ι)) : List BlockInfo :=
  l.filterMap fun
    | .newBlock _ blockInfo => some blockInfo
    | .addEventListener .. => none

theorem notified_concat_newBlock (l : List (Input α ι)) (rpc : EthereumRpc) (b : BlockInfo) :
    notified (l ++ [.newBlock rpc b]) = notified l ++ [b] :=
  List.filterMap_append

theorem notified_concat_addEventListener (l : List (Input α ι)) (topics : List String)
    (decodeEvent : LogEntry → Option α) (handler : ι) :
    notified (l ++ [.addEventListener topics decodeEvent handler]) = notified l :=
  List.filterMap_append.trans (List.append_nil _)

/-- Blocks of the tree are announced, by a node that answers by the tree. -/
def FromTree (T : BlockTree) : Input α ι → Prop
  | .addEventListener .. => True
  | .newBlock rpc b => b ∈ T ∧ rpc.AnswersBy T

/-- Some announcement of the run meets the condition. -/
def AtSomeCall (P : List (Input α ι) → EthereumRpc → BlockInfo → Prop) (l : List (Input α ι)) :
    Prop :=
  ∃ pre rpc b, pre ++ [Input.newBlock rpc b] <+: l ∧ P pre rpc b

section AtSomeCall

variable {P : List (Input α ι) → EthereumRpc → BlockInfo → Prop} {pre : List (Input α ι)}

theorem not_atSomeCall_nil : ¬AtSomeCall P [] := by
  rintro ⟨pre, rpc, b, h_pre, -⟩
  exact absurd (List.prefix_nil.mp h_pre) (by simp)

/-- Some call of a longer run is one of before, or the last. -/
theorem atSomeCall_concat_newBlock {rpc : EthereumRpc} {b : BlockInfo} :
    AtSomeCall P (pre ++ [.newBlock rpc b]) ↔ AtSomeCall P pre ∨ P pre rpc b := by
  refine ⟨?_, ?_⟩
  · rintro ⟨pre', rpc', b', h_pre, h_here⟩
    -- the call is the last one, or an earlier one
    rcases List.prefix_concat_iff.mp h_pre with h_eq | h_pre
    · obtain ⟨rfl, h_last⟩ := List.append_inj' h_eq rfl
      obtain ⟨rfl, rfl⟩ := Input.newBlock.inj (List.singleton_inj.mp h_last)
      exact Or.inr h_here
    · exact Or.inl ⟨pre', rpc', b', h_pre, h_here⟩
  · rintro (⟨pre', rpc', b', h_pre, h_here⟩ | h_here)
    · exact ⟨pre', rpc', b', h_pre.trans (List.prefix_append _ _), h_here⟩
    · exact ⟨pre, rpc, b, List.prefix_rfl, h_here⟩

/-- A listener is no such call. -/
theorem atSomeCall_concat_addEventListener (topics : List String)
    (decodeEvent : LogEntry → Option α) (handler : ι) :
    AtSomeCall P (pre ++ [.addEventListener topics decodeEvent handler]) ↔ AtSomeCall P pre := by
  refine ⟨?_, ?_⟩
  · rintro ⟨pre', rpc', b', h_pre, h_here⟩
    rcases List.prefix_concat_iff.mp h_pre with h_eq | h_pre
    · obtain ⟨-, h_last⟩ := List.append_inj' h_eq rfl
      cases List.singleton_inj.mp h_last
    · exact ⟨pre', rpc', b', h_pre, h_here⟩
  · rintro ⟨pre', rpc', b', h_pre, h_here⟩
    exact ⟨pre', rpc', b', h_pre.trans (List.prefix_append _ _), h_here⟩

end AtSomeCall

section Listeners

variable {T : BlockTree} {p : PendingEvents α ι}

/-- The listeners are not indexed. -/
theorem PendingEvents.Indexed.withListeners (hp : Indexed T p)
    (eventListeners : EventListeners α ι) : Indexed T { p with eventListeners } :=
  ⟨hp.info_block, hp.info_depth, hp.depth_block, hp.nodup, hp.ne_nil⟩

end Listeners

section Run

variable [DecidableEq ι] {T : BlockTree} {c : ConfirmationCount} {env : Environment α ι}

/-- The session after one more input. -/
theorem after_concat (c : ConfirmationCount) (env : Environment α ι) (pre : List (Input α ι))
    (i : Input α ι) :
    Session.after c env (pre ++ [i]) = (Session.after c env pre).step c env i := by
  unfold Session.after
  rw [run_concat]

/-- The session after one more announcement is the outcome of its call. -/
theorem after_newBlock (c : ConfirmationCount) (env : Environment α ι) (pre : List (Input α ι))
    (rpc : EthereumRpc) (b : BlockInfo) :
    Session.after c env (pre ++ [.newBlock rpc b]) =
      ((Session.after c env pre).newBlock c env rpc b).state :=
  after_concat c env pre (.newBlock rpc b)

/-- A registration changes nothing but the listeners. -/
theorem after_addEventListener (c : ConfirmationCount) (env : Environment α ι)
    (pre : List (Input α ι)) (topics : List String) (decodeEvent : LogEntry → Option α)
    (handler : ι) :
    ∃ eventListeners, Session.after c env (pre ++ [.addEventListener topics decodeEvent handler]) =
      ⟨{ (Session.after c env pre).pending with eventListeners }, (Session.after c env pre).trace⟩ := by
  rw [after_concat]
  unfold Session.step Session.call PendingEvents.addEventListener
  cases topics with
  | nil => exact ⟨(Session.after c env pre).pending.eventListeners, rfl⟩
  | cons topic topics => exact ⟨_, rfl⟩

/-- Induction along a run of the monitor. -/
theorem after_induction {C : List (Input α ι) → Input α ι → Prop}
    {Inv : List (Input α ι) → Session α ι → Prop} (h_init : Inv [] Session.init)
    (h_step : ∀ pre i, Inv pre (Session.after c env pre) → C pre i →
      Inv (pre ++ [i]) (Session.after c env (pre ++ [i]))) (l : List (Input α ι))
    (h : Along C l) : Inv l (Session.after c env l) := by
  refine run_induction h_init (fun pre i h_pre h_i => ?_) l h
  have h_next := h_step pre i h_pre h_i
  rwa [after_concat] at h_next

/-- **After every run** the indexes are sound. -/
theorem after_indexed (l : List (Input α ι)) (h : Along (fun _ => FromTree T) l) :
    Indexed T (Session.after c env l).pending := by
  refine @after_induction _ _ _ c env (fun _ => FromTree T) (fun _ s => Indexed T s.pending)
    (indexed_init T) (fun pre i h_pre h_i => ?_) l h
  cases i with
  | addEventListener topics decodeEvent handler =>
    obtain ⟨eventListeners, h_after⟩ := after_addEventListener c env pre topics decodeEvent handler
    rw [h_after]
    exact h_pre.withListeners eventListeners
  | newBlock rpc b =>
    rw [after_newBlock]
    exact (Session.newBlock_fired h_i.2 h_pre h_i.1).1

end Run

/-! ### Runs over a chain without forks -/

/-- A chain whose block 0 has one transaction, the other blocks none. -/
def paymentBlocks (n : ℕ) : List String := if n = 0 then ["t"] else []

/-- A log of the contract. -/
def paymentLog : LogEntry := ⟨"0xc0", ["PaymentMessage"], "10 GBP"⟩

/-- One confirmation. -/
def oneConfirmation : ConfirmationCount := ⟨1, by decide⟩

/-- The blocks of the chain with the given numbers are announced, where the
transaction of block 0 has the given logs. -/
def announceRun (logs : List LogEntry) (numbers : List ℕ) : List (Input String String) :=
  numbers.map fun n => .newBlock (lineRpc paymentBlocks fun _ => logs) (lineBlock paymentBlocks n)

/-- A listener for payments is registered, then the blocks up to `last` are
announced. -/
def paymentRun (logs : List LogEntry) (last : ℕ) : List (Input String String) :=
  .addEventListener ["PaymentMessage"] (fun logEntry => some logEntry.data) "bank" ::
    announceRun logs (List.range (last + 1))

theorem fromTree_announceRun (logs : List LogEntry) {numbers : List ℕ}
    (h : ∀ n ∈ numbers, n < 2 ^ 31) :
    Along (fun _ => FromTree (.line paymentBlocks)) (announceRun logs numbers) := by
  rw [along_forall]
  intro i h_i
  obtain ⟨n, h_n, rfl⟩ := List.mem_map.mp h_i
  exact ⟨line_mem paymentBlocks (h n h_n), (lineRpc_serves paymentBlocks fun _ => logs).answersBy⟩

theorem fromTree_paymentRun (logs : List LogEntry) {last : ℕ} (h : last + 1 < 2 ^ 31) :
    Along (fun _ => FromTree (.line paymentBlocks)) (paymentRun logs last) := by
  have h_announce := @fromTree_announceRun logs (List.range (last + 1)) fun n h_n => by
    rw [List.mem_range] at h_n
    omega
  rw [along_forall] at h_announce ⊢
  intro i h_i
  rcases List.mem_cons.mp h_i with rfl | h_i
  · trivial
  · exact h_announce i h_i

end Ethiso
