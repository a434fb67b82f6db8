import Ethiso.Events.DoubleDelivery
import Mathlib.Order.Bounds.Basic

/-!
# The two indexes agree and stay bounded

Between calls that return, the hashes of `blockInfoMap` are those of the sets in
`blockDepth`, each in the set of its block's number, and the numbers that have a
set are the highest one and less than `c` others below it (`Agreeing`). So what is
kept does not grow with the length of a run.

The agreement comes from `Quiescent`. The bound on the numbers is set anew by each
call that returns (`Quiescent.newBlock_window`): for `c` confirmations all below
`H - c + 1` is removed, where `H` is the greatest height. For `c = 0` that is `H + 1`,
the least number that may be no `int`, and nothing is kept.

Along such runs two partial operations of `newBlock` are always defined (`Guarded`):
`lastKey` is taken of a map with an entry, and a block on the chain is still in
`blockInfoMap` when the removal loop gets to its hash.
-/

namespace Ethiso

open Outcome PendingEvents

variable {α ι : Type*}

namespace PendingEvents

/-- The numbers that have a set in `blockDepth`. -/
def numbers (p : PendingEvents α ι) : Set ℤ := { n | p.blockDepth.get? n ≠ none }

/-- `blockInfoMap` has exactly the hashes of the sets in `blockDepth`. No two sets
share a hash and none is empty, a hash is in the set of its block's number, and the
numbers are above `max - c`, where `max` is the greatest. -/
structure Agreeing (c : ConfirmationCount) (p : PendingEvents α ι) : Prop where
  keys : ∀ h, p.blockInfoMap h ≠ none ↔ ∃ n ∈ p.numbers, h ∈ p.hashesAt n
  disjoint : ∀ m n h, h ∈ p.hashesAt m → h ∈ p.hashesAt n → m = n
  nodup : ∀ n, (p.hashesAt n).Nodup
  ne_nil : ∀ n ∈ p.numbers, p.hashesAt n ≠ []
  own_number : ∀ n h b, h ∈ p.hashesAt n → p.blockInfoMap h = some b →
    b.hash = h ∧ (b.number : ℤ) = n
  window : ∀ max, IsGreatest p.numbers max → ∀ n ∈ p.numbers, max - c < n ∧ n ≤ max

variable {T : BlockTree} {p : PendingEvents α ι} {c : ConfirmationCount} {n : ℤ} {h : Hash}

/-- A number with a hash is listed. -/
theorem mem_numbers_of_mem (h_at : h ∈ p.hashesAt n) : n ∈ p.numbers := by
  intro h_none
  unfold hashesAt at h_at
  rw [h_none] at h_at
  cases h_at

/-- A number that is listed has a hash. -/
theorem Indexed.hashesAt_ne_nil (hp : Indexed T p) (h_n : n ∈ p.numbers) : p.hashesAt n ≠ [] := by
  obtain ⟨hashes, h_get⟩ := Option.ne_none_iff_exists'.mp h_n
  intro h_nil
  apply hp.ne_nil n
  rw [h_get, ← h_nil]
  unfold hashesAt
  rw [h_get]
  rfl

/-- A hash that is kept is that of a stored block of this height. -/
theorem Indexed.stored_at (hp : Indexed T p) (hc : Coherent p) (h_at : h ∈ p.hashesAt n) :
    ∃ y ∈ p.stored, y.hash = h ∧ javaInt y.number = n := by
  obtain ⟨b, h_b, rfl, h_number⟩ := hp.depth_block h_at
  obtain ⟨y, h_y⟩ := Option.ne_none_iff_exists'.mp (hc n b.hash h_at)
  obtain ⟨h_stored, h_hash⟩ := hp.stored_of_info h_y
  obtain rfl := BlockTree.eq_of_hash (hp.mem_tree h_stored) h_b h_hash
  exact ⟨y, h_stored, rfl, h_number⟩

/-- The numbers of the stored blocks are less than `c` apart. -/
def WithinDepth (c : ConfirmationCount) (p : PendingEvents α ι) : Prop :=
  ∀ y ∈ p.stored, ∀ t ∈ p.stored, t.number < y.number + c

/-- As long as block numbers are `int`s, the two indexes agree. -/
theorem Indexed.agreeing (h_bounded : T.Bounded) (hp : Indexed T p) (hc : Coherent p)
    (hw : WithinDepth c p) : Agreeing c p where
  keys := by
    intro h
    refine ⟨?_, ?_⟩
    · intro h_some
      obtain ⟨b, h_b⟩ := Option.ne_none_iff_exists'.mp h_some
      obtain ⟨h_stored, rfl⟩ := hp.stored_of_info h_b
      have h_at := hp.info_depth h_stored
      exact ⟨_, mem_numbers_of_mem h_at, h_at⟩
    · rintro ⟨n, -, h_at⟩
      exact hc n h h_at
  disjoint _ _ _ := hp.height_unique
  nodup := hp.nodup
  ne_nil _ := hp.hashesAt_ne_nil
  own_number := by
    intro n h b h_at h_b
    obtain ⟨y, h_y, rfl, rfl⟩ := hp.stored_at hc h_at
    obtain rfl := Option.some.inj (h_b.symm.trans h_y)
    exact ⟨rfl, (javaInt_natCast (h_bounded b (hp.mem_tree h_y))).symm⟩
  window := by
    -- every number is that of a stored block, also the greatest
    have h_stored : ∀ n ∈ p.numbers, ∃ y ∈ p.stored, (y.number : ℤ) = n := by
      intro n h_n
      obtain ⟨h, h_at⟩ := List.exists_mem_of_ne_nil _ (hp.hashesAt_ne_nil h_n)
      obtain ⟨y, h_y, -, rfl⟩ := hp.stored_at hc h_at
      exact ⟨y, h_y, (javaInt_natCast (h_bounded y (hp.mem_tree h_y))).symm⟩
    intro max h_max n h_n
    refine ⟨?_, h_max.2 h_n⟩
    obtain ⟨t, h_t, rfl⟩ := h_stored max h_max.1
    obtain ⟨y, h_y, rfl⟩ := h_stored n h_n
    have h_lt := hw y h_y t h_t
    omega

end PendingEvents

/-- The height below which nothing is kept, for any count, if the next number is an
`int` too. -/
theorem removalBoundry_eq_of_succ (c : ConfirmationCount) {H : ℕ} (h : H + 1 < 2 ^ 31) :
    removalBoundry c H = H - c + 1 := by
  have h_c := c.property
  unfold removalBoundry
  rw [@javaInt_eq (c - 1) (by omega) (by omega), javaInt_eq (by omega) (by omega)]
  omega

variable [DecidableEq ι]

/-- What a call of `newBlock` takes for granted: after the import there is a greatest
key, and a hash on the chain has its block when it is its turn to be removed. -/
structure Guarded (c : ConfirmationCount) (env : Environment α ι) (rpc : EthereumRpc)
    (b : BlockInfo) (s : Session α ι) : Prop where
  lastKey : ∀ p, importBlocks c rpc b s.pending = returned p → p.blockDepth.lastKey? ≠ none
  fired : ∀ p lastKey before h after s', importBlocks c rpc b s.pending = returned p →
    p.blockDepth.lastKey? = some lastKey →
    hashesToRemove env p (removalBoundry c lastKey) = before ++ h :: after →
    forEach (Session.removeBlock env rpc (inChain env p lastKey)) before { s with pending := p } =
      returned s' →
    h ∈ inChain env p lastKey → s'.pending.blockInfoMap h ≠ none

section Run

variable {T : BlockTree} {c : ConfirmationCount} {env : Environment α ι} {rpc : EthereumRpc}
  {b : BlockInfo} {s s' : Session α ι}

/-- A removal that returns takes its hash out of `blockInfoMap`, and nothing else. -/
theorem Session.removeBlock_info {inC : List Hash} {h : Hash}
    (h_ret : s.removeBlock env rpc inC h = returned s') :
    s'.pending.blockInfoMap = eraseAll s.pending.blockInfoMap [h] := by
  by_cases h_in : h ∈ inC
  -- the block is due, so its events are fired before it is removed
  · cases h_info : s.pending.blockInfoMap h with
    | none =>
      unfold Session.removeBlock at h_ret
      rw [if_pos h_in, h_info] at h_ret
      cases h_ret
    | some y =>
      rw [Session.removeBlock_fired h_in h_info] at h_ret
      cases h_fire : fireBlock env s.pending.eventListeners rpc s.trace y with
      | threw trace =>
        rw [h_fire] at h_ret
        cases h_ret
      | returned trace =>
        rw [h_fire] at h_ret
        rw [← returned.inj h_ret]
        rfl
  -- the block is not due and is removed without firing
  · rw [Session.removeBlock_pruned h_in] at h_ret
    rw [← returned.inj h_ret]
    rfl

/-- The loop takes the hashes it has been through out of `blockInfoMap`. -/
theorem Session.removeAll_info {inC hashes : List Hash}
    (h_ret : forEach (Session.removeBlock env rpc inC) hashes s = returned s') :
    s'.pending.blockInfoMap = eraseAll s.pending.blockInfoMap hashes := by
  induction hashes generalizing s with
  | nil =>
    rw [← returned.inj h_ret]
    funext h
    rfl
  -- the first hash is removed, or the call does not return
  | cons h hashes ih =>
    rw [forEach_cons] at h_ret
    cases h_first : s.removeBlock env rpc inC h with
    | threw s₁ =>
      rw [h_first] at h_ret
      cases h_ret
    | returned s₁ =>
      rw [h_first, bind_returned] at h_ret
      rw [ih h_ret, Session.removeBlock_info h_first, eraseAll_append, List.singleton_append]

/-- Whether or not it goes through, a call from an indexed state is guarded. -/
theorem guarded (h_rpc : rpc.AnswersBy T) (hp : Indexed T s.pending) (h_b : b ∈ T) :
    Guarded c env rpc b s := by
  have h_imp := importBlocks_spec c h_rpc hp h_b
  refine ⟨?_, ?_⟩
  · intro p h_p
    rw [h_p] at h_imp
    have h_idx : Indexed T p := h_imp.indexed
    obtain ⟨lastKey, h_key⟩ := Session.exists_lastKey h_idx h_imp.mem_stored
    rw [h_key]
    exact Option.some_ne_none lastKey
  · intro p lastKey before h after s' h_p h_key h_hashes h_before h_in
    rw [h_p] at h_imp
    have h_idx : Indexed T p := h_imp.indexed
    have h_sorted := @Indexed.hashesToRemove_sorted _ _ T p env h_idx (removalBoundry c lastKey)
    rw [h_hashes] at h_sorted
    -- no hash comes twice, so the entry of `h` is as it was after the import
    have h_out : h ∉ before := fun h_mem =>
      ((List.pairwise_append.mp h_sorted).2.2 h h_mem h List.mem_cons_self).1 rfl
    rw [Session.removeAll_info h_before]
    unfold eraseAll
    rw [if_neg h_out]
    exact h_idx.inChain_info h_in

/-- **The step.** A call that returns leaves the numbers less than `c` apart. -/
theorem Quiescent.newBlock_window (h_number : ∀ y ∈ T, y.number + 1 < 2 ^ 31)
    (h : Quiescent T s) (h_rpc : rpc.AnswersBy T) (h_b : b ∈ T)
    (h_ret : s.newBlock c env rpc b = returned s') : WithinDepth c s'.pending := by
  obtain ⟨o, h_imp, ⟨p, -, h_threw⟩ | ⟨p, lastKey, rfl, h_key, h_removed⟩⟩ :=
    @Session.newBlock_spec _ _ T c env rpc s b _ h_rpc h.indexed h_b
  · rw [h_threw] at h_ret
    cases h_ret
  have h_idx : Indexed T p := h_imp.indexed
  have h_int : ∀ y ∈ p.stored, javaInt y.number = y.number := fun y h_y =>
    javaInt_natCast (Nat.lt_of_succ_lt (h_number y (h_idx.mem_tree h_y)))
  -- the greatest height is that of a stored block, and the next number is an `int`
  obtain ⟨H, h_H, h_tip⟩ := h_idx.exists_tip (h_imp.coherent h.coherent lastKey) h_key
  rw [h_int H h_H] at h_tip
  subst h_tip
  have h_boundry := removalBoundry_eq_of_succ c (h_number H (h_idx.mem_tree h_H))
  rw [h_ret] at h_removed
  cases h_removed with
  | done h_fired =>
    intro y h_y t h_t
    obtain ⟨h_y, h_low⟩ := h_idx.mem_stored_removedBelow.mp h_y
    obtain ⟨h_t, -⟩ := h_idx.mem_stored_removedBelow.mp h_t
    have h_top := h_idx.le_lastKey h_key h_t
    rw [h_int t h_t] at h_top
    rw [h_boundry, h_int y h_y] at h_low
    omega

/-- **The window stays within its depth** as long as calls return. -/
theorem after_within (h_number : ∀ y ∈ T, y.number + 1 < 2 ^ 31) (l : List (Input α ι))
    (h : Along (fun pre i => FromTree T i ∧ Returns c env pre i) l) :
    WithinDepth c (Session.after c env l).pending := by
  have h_both : Quiescent T (Session.after c env l) ∧
      WithinDepth c (Session.after c env l).pending := by
    refine @after_induction _ _ _ c env (fun pre i => FromTree T i ∧ Returns c env pre i)
      (fun _ s => Quiescent T s ∧ WithinDepth c s.pending)
      ⟨⟨indexed_init T, coherent_init⟩, fun y h_y => nomatch h_y⟩ (fun pre i h_pre h_i => ?_) l h
    -- a listener changes no block
    cases i with
    | addEventListener topics decodeEvent handler =>
      obtain ⟨eventListeners, h_after⟩ :=
        after_addEventListener c env pre topics decodeEvent handler
      rw [h_after]
      exact ⟨⟨h_pre.1.indexed.withListeners eventListeners, h_pre.1.coherent⟩, h_pre.2⟩
    | newBlock rpc b =>
      rw [after_newBlock]
      have h_ret := isReturned_iff.mp h_i.2
      exact ⟨(h_pre.1.newBlock h_i.1.2 h_i.1.1 h_ret).1,
        h_pre.1.newBlock_window h_number h_i.1.2 h_i.1.1 h_ret⟩
  exact h_both.2

/-- **The indexes** agree and stay bounded in every state that is reached by calls that
return, and the next call is guarded. -/
theorem indexes_agree (T : BlockTree) (h_number : ∀ y ∈ T, y.number < 2 ^ 31 - 1)
    (c : ConfirmationCount) (env : Environment α ι) (l : List (Input α ι))
    (h_tree : Along (fun _ => FromTree T) l) (h_ret : Along (Returns c env) l) :
    Agreeing c (Session.after c env l).pending ∧
      ∀ rpc b, b ∈ T → rpc.AnswersBy T → Guarded c env rpc b (Session.after c env l) := by
  have h := h_tree.and h_ret
  have h_quiet := @after_quiescent _ _ _ T c env l h
  refine ⟨?_, ?_⟩
  · have h_bounded : T.Bounded := fun y h_y => (h_number y h_y).trans_le (Nat.sub_le _ 1)
    exact h_quiet.indexed.agreeing h_bounded h_quiet.coherent
      (after_within (fun y h_y => Nat.add_lt_of_lt_sub (h_number y h_y)) l h)
  · intro rpc b h_b h_rpc
    exact guarded h_rpc h_quiet.indexed h_b

end Run

/-! ### A part of the chain without forks -/

/-- The blocks of a tree up to a number. -/
def BlockTree.upTo (T : BlockTree) (last : ℕ) : BlockTree where
  block h := (T.block h).filter fun b => b.number ≤ last
  hash_eq h_b := T.hash_eq (Option.filter_eq_some_iff.mp h_b).1
  parent_served := by
    intro h b h_b
    obtain ⟨h_b, h_le⟩ := Option.filter_eq_some_iff.mp h_b
    rcases T.parent_served h_b with h_zero | ⟨p, h_p, h_number⟩
    · exact Or.inl h_zero
    · refine Or.inr ⟨p, Option.filter_eq_some_iff.mpr ⟨h_p, ?_⟩, h_number⟩
      rw [decide_eq_true_iff] at h_le ⊢
      omega
  no_zero := by
    rw [T.no_zero]
    rfl

/-- The blocks of the tree up to a number. -/
theorem BlockTree.mem_upTo {T : BlockTree} {last : ℕ} {b : BlockInfo} :
    b ∈ T.upTo last ↔ b ∈ T ∧ b.number ≤ last := by
  rw [BlockTree.mem_def, BlockTree.mem_def]
  unfold BlockTree.upTo
  rw [Option.filter_eq_some_iff, decide_eq_true_iff]

omit [DecidableEq ι] in
/-- An announcement up to this number is one from this part of the tree. -/
theorem fromTree_upTo {T : BlockTree} {last : ℕ} {i : Input α ι} (h_i : FromTree T i)
    (h_last : ∀ rpc b, i = .newBlock rpc b → b.number ≤ last) : FromTree (T.upTo last) i := by
  cases i with
  | addEventListener topics decodeEvent handler => trivial
  | newBlock rpc b =>
    refine ⟨BlockTree.mem_upTo.mpr ⟨h_i.1, h_last rpc b rfl⟩, fun y h_y => ?_⟩
    exact h_i.2 y (BlockTree.mem_upTo.mp h_y).1

/-- A block that is announced again does not disturb the indexes. -/
theorem indexes_agree_repeated :
    Agreeing oneConfirmation (Session.after oneConfirmation .quiet
        (announceRun [paymentLog] [0, 2, 1])).pending ∧
      ∀ rpc b, b ∈ (BlockTree.line paymentBlocks).upTo 2 →
        rpc.AnswersBy ((BlockTree.line paymentBlocks).upTo 2) →
        Guarded oneConfirmation .quiet rpc b (Session.after oneConfirmation .quiet
          (announceRun [paymentLog] [0, 2, 1])) := by
  refine indexes_agree ((BlockTree.line paymentBlocks).upTo 2) ?_ oneConfirmation .quiet
    (announceRun [paymentLog] [0, 2, 1]) ?_ ?_
  · intro y h_y
    exact (BlockTree.mem_upTo.mp h_y).2.trans_lt (by decide)
  -- the announced blocks are those of the line
  · have h_line := @fromTree_announceRun [paymentLog] [0, 2, 1] (by decide)
    rw [along_forall] at h_line ⊢
    intro i h_i
    refine fromTree_upTo (h_line i h_i) fun rpc b h_eq => ?_
    obtain ⟨n, h_n, rfl⟩ := List.mem_map.mp h_i
    obtain ⟨-, rfl⟩ := Input.newBlock.inj h_eq
    -- the three blocks that are announced
    simp only [List.mem_cons, List.not_mem_nil, or_false] at h_n
    change n ≤ 2
    omega
  · refine (along_concat (l := announceRun [paymentLog] [0, 2])).mpr
      ⟨(along_concat (l := announceRun [paymentLog] [0])).mpr
        ⟨(along_concat (l := [])).mpr ⟨along_nil, ?_⟩, ?_⟩, ?_⟩ <;>
      (unfold Returns; decide +kernel)

end Ethiso
