import Ethiso.Events.Delivery
import Ethiso.Events.Removal

/-!
# One call of `newBlock`

The loop over the hashes to remove and the loop over the due blocks run in step
(`removeAll_spec`). If nothing throws, all hashes are removed and all due blocks
fired. If firing a block throws, that block and all before it are removed from
`blockInfoMap`, all after it stay, and `blockDepth` is as it was.

With the import before it, this describes a whole call over a block tree
(`newBlock_spec`): either the import has thrown, or it has gone through and the
removal has ended in one of its two ways (`Removed`).
-/

namespace Ethiso

open Outcome

variable {α ι : Type*}

namespace Session

open PendingEvents

variable {T : BlockTree} {c : ConfirmationCount} {env : Environment α ι} {rpc : EthereumRpc}
  {s : Session α ι} {b : BlockInfo}

/-! ### The removal loop -/

section Loop

variable {inC : List Hash} {h : Hash}

/-- A session whose `blockInfoMap` has lost the given hashes. -/
def erased (s : Session α ι) (hashes : List Hash) (trace : List (Output α ι)) : Session α ι :=
  ⟨{ s.pending with blockInfoMap := eraseAll s.pending.blockInfoMap hashes }, trace⟩

section Steps

variable [DecidableEq ι]

/-- A block that is not due is removed without firing. -/
theorem removeBlock_pruned (h_out : h ∉ inC) :
    removeBlock env rpc inC s h = returned (s.erased [h] s.trace) := by
  unfold removeBlock erased
  rw [if_neg h_out, eraseAll_singleton]

/-- A block that is due is fired and then removed. -/
theorem removeBlock_fired (h_in : h ∈ inC) (h_b : s.pending.blockInfoMap h = some b) :
    removeBlock env rpc inC s h =
      (fireBlock env s.pending.eventListeners rpc s.trace b).map (s.erased [h]) := by
  unfold removeBlock erased
  rw [if_pos h_in, h_b, eraseAll_singleton]

end Steps

/-- Removing twice is removing all. -/
theorem erased_erased (hashes hashes' : List Hash) (trace trace' : List (Output α ι)) :
    (s.erased hashes trace).erased hashes' trace' = s.erased (hashes ++ hashes') trace' := by
  unfold erased
  dsimp only
  rw [eraseAll_append]

/-- The blocks due among hashes other than `h` do not depend on the entry of `h`. -/
theorem dueAmong_erased {hashes : List Hash} (h_out : h ∉ hashes) (trace : List (Output α ι)) :
    dueAmong (s.erased [h] trace).pending.blockInfoMap inC hashes =
      dueAmong s.pending.blockInfoMap inC hashes := by
  unfold dueAmong erased
  apply List.filterMap_congr
  intro h' h_mem
  have h_ne : h' ≠ h := fun h_eq => h_out (h_eq ▸ h_mem)
  simp [eraseAll, h_ne]

variable [DecidableEq ι]

/-- How a removal loop ends: with all due blocks fired, or by the exception of the
first due block that throws. -/
inductive RemovalEnd (env : Environment α ι) (rpc : EthereumRpc) (inC hashes : List Hash)
    (s : Session α ι) : Outcome (Session α ι) → Prop where
  | done {trace}
      (h_fired : forEach (fireBlock env s.pending.eventListeners rpc)
        (dueAmong s.pending.blockInfoMap inC hashes) s.trace = returned trace) :
      RemovalEnd env rpc inC hashes s (returned (s.erased hashes trace))
  | failed {before h after b trace₁ trace}
      (h_hashes : hashes = before ++ h :: after) (h_in : h ∈ inC)
      (h_b : s.pending.blockInfoMap h = some b)
      (h_fired : forEach (fireBlock env s.pending.eventListeners rpc)
        (dueAmong s.pending.blockInfoMap inC before) s.trace = returned trace₁)
      (h_threw : fireBlock env s.pending.eventListeners rpc trace₁ b = threw trace) :
      RemovalEnd env rpc inC hashes s (threw (s.erased (before ++ [h]) trace))

/-- A first step that leaves `trace` behind, before a loop over the rest. -/
theorem RemovalEnd.cons {hashes : List Hash} {trace : List (Output α ι)} {o : Outcome (Session α ι)}
    (h_out : h ∉ hashes)
    (h_first : ∀ hs, forEach (fireBlock env s.pending.eventListeners rpc)
        (dueAmong s.pending.blockInfoMap inC (h :: hs)) s.trace =
      forEach (fireBlock env s.pending.eventListeners rpc)
        (dueAmong s.pending.blockInfoMap inC hs) trace)
    (h_end : RemovalEnd env rpc inC hashes (s.erased [h] trace) o) :
    RemovalEnd env rpc inC (h :: hashes) s o := by
  cases h_end with
  | done h_fired =>
    rw [erased_erased]
    rw [dueAmong_erased h_out] at h_fired
    exact .done ((h_first hashes).trans h_fired)
  | @failed before h' after b' _ _ h_hashes h_in h_b h_fired h_threw =>
    -- the first hash does not come again, so its removal changes nothing for the rest
    have h_before : h ∉ before := fun h_mem => h_out (by simp [h_hashes, h_mem])
    have h_ne : h' ≠ h := fun h_eq => h_out (by simp [h_hashes, h_eq])
    rw [erased_erased, List.singleton_append, ← List.cons_append]
    rw [dueAmong_erased h_before] at h_fired
    refine .failed (by rw [h_hashes]; rfl) h_in ?_ ((h_first before).trans h_fired) h_threw
    simpa [erased, eraseAll, h_ne] using h_b

/-- **The removal loop** ends in one of these two ways. -/
theorem removeAll_spec {hashes : List Hash} (h_nodup : hashes.Nodup)
    (h_info : ∀ h ∈ hashes, h ∈ inC → s.pending.blockInfoMap h ≠ none) :
    RemovalEnd env rpc inC hashes s (forEach (removeBlock env rpc inC) hashes s) := by
  induction hashes generalizing s with
  | nil => exact .done rfl
  | cons h hashes ih =>
    obtain ⟨h_out, h_nodup⟩ := List.nodup_cons.mp h_nodup
    have h_info' : ∀ trace, ∀ h' ∈ hashes, h' ∈ inC →
        (s.erased [h] trace).pending.blockInfoMap h' ≠ none := by
      intro trace h' h_mem h_in
      have h_ne : h' ≠ h := fun h_eq => h_out (h_eq ▸ h_mem)
      have h_some := h_info h' (by simp [h_mem]) h_in
      simpa [erased, eraseAll, h_ne] using h_some
    rw [forEach_cons]
    -- a hash on the chain is fired, any other is pruned
    by_cases h_in : h ∈ inC
    · obtain ⟨b, h_b⟩ := Option.ne_none_iff_exists'.mp (h_info h (by simp) h_in)
      rw [removeBlock_fired h_in h_b]
      cases h_fire : fireBlock env s.pending.eventListeners rpc s.trace b with
      | threw trace =>
        exact @RemovalEnd.failed _ _ _ env rpc inC (h :: hashes) s [] h hashes b s.trace trace rfl
          h_in h_b rfl h_fire
      | returned trace =>
        refine RemovalEnd.cons h_out (fun hs => ?_) (ih h_nodup (h_info' trace))
        unfold dueAmong
        rw [List.filterMap_cons_some (by rw [if_pos h_in, h_b]), forEach_cons, h_fire, bind_returned]
    · rw [removeBlock_pruned h_in]
      refine RemovalEnd.cons h_out (fun hs => ?_) (ih h_nodup (h_info' s.trace))
      unfold dueAmong
      rw [List.filterMap_cons, if_neg h_in]

end Loop

/-! ### The whole call -/

/-- The indexes are not empty after an import. -/
theorem exists_lastKey {p : PendingEvents α ι} (hp : Indexed T p) (h_b : b ∈ p.stored) :
    ∃ lastKey, p.blockDepth.lastKey? = some lastKey := by
  rw [← Option.ne_none_iff_exists', Ne, SortedMap.lastKey?_eq_none]
  intro h_none
  have h_at := hp.info_depth h_b
  unfold hashesAt at h_at
  rw [h_none] at h_at
  cases h_at

section Call

variable [DecidableEq ι]

/-- The part of `newBlock` after the import is one loop over the hashes to remove. -/
theorem removeBlocks_eq {lastKey : ℤ} (h_key : s.pending.blockDepth.lastKey? = some lastKey) :
    removeBlocks c env rpc s =
      (forEach (removeBlock env rpc (inChain env s.pending lastKey))
        (hashesToRemove env s.pending (removalBoundry c lastKey)) s).bind fun s =>
          returned (s.clear (removalBoundry c lastKey)) := by
  unfold removeBlocks
  -- both maps of the code are views of the numbers below the boundary
  rw [h_key]
  dsimp only
  split_ifs with h_empty
  · -- nothing to remove, and nothing to clear
    rw [List.isEmpty_iff] at h_empty
    have h_hashes : hashesToRemove env s.pending (removalBoundry c lastKey) = [] := by
      unfold hashesToRemove
      rw [h_empty]
      rfl
    rw [h_hashes, forEach_nil, bind_returned]
    unfold Session.clear
    rw [SortedMap.tailMap_eq_self h_empty]
  · rw [forEach_flatMap]
    rfl

/-- How `removeBlocks` ends when the greatest height is `lastKey`. Either all
below the boundary is removed and all due blocks are fired; or the due block `b`
threw, after the due `blocks`, and the hashes removed so far are `before`. -/
inductive Removed (c : ConfirmationCount) (env : Environment α ι) (rpc : EthereumRpc)
    (s : Session α ι) (lastKey : ℤ) : Outcome (Session α ι) → Prop where
  | done {trace}
      (h_fired : forEach (fireBlock env s.pending.eventListeners rpc)
        (due env s.pending lastKey (removalBoundry c lastKey)) s.trace = returned trace) :
      Removed c env rpc s lastKey
        (returned ⟨removedBelow env s.pending (removalBoundry c lastKey), trace⟩)
  | failed {before after blocks b blocks' trace₁ trace}
      (h_hashes : hashesToRemove env s.pending (removalBoundry c lastKey) = before ++ after)
      (h_due : due env s.pending lastKey (removalBoundry c lastKey) = blocks ++ b :: blocks')
      (h_before : ∀ y ∈ due env s.pending lastKey (removalBoundry c lastKey),
        y.hash ∈ before ↔ y ∈ blocks ++ [b])
      (h_fired : forEach (fireBlock env s.pending.eventListeners rpc) blocks s.trace =
        returned trace₁)
      (h_threw : fireBlock env s.pending.eventListeners rpc trace₁ b = threw trace) :
      Removed c env rpc s lastKey (threw (s.erased before trace))

theorem Removed.listeners {lastKey : ℤ} {o : Outcome (Session α ι)}
    (h : Removed c env rpc s lastKey o) :
    o.state.pending.eventListeners = s.pending.eventListeners := by
  cases h <;> rfl

/-- The outputs are those of the loop over the due blocks. -/
theorem Removed.trace_eq {lastKey : ℤ} {o : Outcome (Session α ι)}
    (h : Removed c env rpc s lastKey o) :
    o.state.trace = (forEach (fireBlock env s.pending.eventListeners rpc)
      (due env s.pending lastKey (removalBoundry c lastKey)) s.trace).state := by
  cases h with
  | done h_fired => rw [h_fired, state_returned, state_returned]
  | failed h_hashes h_due h_before h_fired h_threw =>
    rw [h_due, forEach_append, h_fired, bind_returned, forEach_cons, h_threw]
    rfl

/-- **What `removeBlocks` does.** -/
theorem removeBlocks_spec (hp : Indexed T s.pending) {lastKey : ℤ}
    (h_key : s.pending.blockDepth.lastKey? = some lastKey) :
    Removed c env rpc s lastKey (removeBlocks c env rpc s) := by
  have h_sorted := @Indexed.hashesToRemove_sorted _ _ T s.pending env hp (removalBoundry c lastKey)
  have h_nodup : (hashesToRemove env s.pending (removalBoundry c lastKey)).Nodup :=
    h_sorted.imp fun h => h.1
  have h_end := @removeAll_spec _ _ env rpc s (inChain env s.pending lastKey) _ _ h_nodup
    fun h _ h_in => hp.inChain_info h_in
  rw [removeBlocks_eq h_key]
  generalize forEach (removeBlock env rpc (inChain env s.pending lastKey))
    (hashesToRemove env s.pending (removalBoundry c lastKey)) s = o at h_end ⊢
  cases h_end with
  | done h_fired => exact .done h_fired
  | @failed before h after b trace₁ trace h_hashes h_in h_b h_fired h_threw =>
    obtain ⟨-, h_hash⟩ := hp.stored_of_info h_b
    -- the due blocks are those due before `b`, then `b`, then the others
    have h_due : due env s.pending lastKey (removalBoundry c lastKey) =
        dueAmong s.pending.blockInfoMap (inChain env s.pending lastKey) before ++
          b :: dueAmong s.pending.blockInfoMap (inChain env s.pending lastKey) after := by
      unfold due dueAmong
      rw [h_hashes, List.filterMap_append, List.filterMap_cons_some (by rw [if_pos h_in, h_b])]
    refine @Removed.failed _ _ _ c env rpc s lastKey (before ++ [h]) after _ b _ trace₁ trace
      (by simp [h_hashes]) h_due ?_ h_fired h_threw
    intro y h_y
    obtain ⟨-, h_y_in, h_y_stored⟩ := hp.mem_dueAmong.mp h_y
    rw [List.mem_append, List.mem_append, hp.mem_dueAmong, List.mem_singleton, List.mem_singleton]
    refine or_congr ⟨fun h_mem => ⟨h_mem, h_y_in, h_y_stored⟩, fun h_mem => h_mem.1⟩ ?_
    refine ⟨?_, ?_⟩
    · rintro rfl
      rw [mem_stored.mp h_y_stored] at h_b
      exact Option.some.inj h_b
    · rintro rfl
      exact h_hash

/-- **One call** over a node that answers by the tree: the import throws, or what
is below the boundary of the imported indexes is removed. -/
theorem newBlock_spec (h_rpc : rpc.AnswersBy T) (hp : Indexed T s.pending) (h_b : b ∈ T) :
    ∃ o, Imported T rpc (fetchLimit c) b s.pending o ∧
      ((∃ p, o = threw p ∧ newBlock c env rpc b s = threw { s with pending := p }) ∨
        ∃ p lastKey, o = returned p ∧ p.blockDepth.lastKey? = some lastKey ∧
          Removed c env rpc { s with pending := p } lastKey (newBlock c env rpc b s)) := by
  have h_imp := importBlocks_spec c h_rpc hp h_b
  refine ⟨_, h_imp, ?_⟩
  unfold newBlock
  cases h_o : importBlocks c rpc b s.pending with
  | threw p => exact Or.inl ⟨p, rfl, rfl⟩
  | returned p =>
    rw [h_o] at h_imp
    -- an import that returns has stored `b`, so there is a greatest height
    obtain ⟨lastKey, h_key⟩ := exists_lastKey h_imp.indexed h_imp.mem_stored
    refine Or.inr ⟨p, lastKey, rfl, h_key, ?_⟩
    exact @removeBlocks_spec _ _ T c env rpc { s with pending := p } _ h_imp.indexed _ h_key

/-- A call keeps the listeners. -/
theorem newBlock_listeners (h_rpc : rpc.AnswersBy T) (hp : Indexed T s.pending) (h_b : b ∈ T) :
    (newBlock c env rpc b s).state.pending.eventListeners = s.pending.eventListeners := by
  obtain ⟨o, h_imp, ⟨p, rfl, h_threw⟩ | ⟨p, lastKey, rfl, -, h_removed⟩⟩ :=
    @newBlock_spec _ _ T c env rpc s b _ h_rpc hp h_b
  · rw [h_threw]
    exact h_imp.listeners
  · rw [h_removed.listeners]
    exact h_imp.listeners

end Call

end Session

end Ethiso
