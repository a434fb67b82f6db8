import Ethiso.Framework.Traversal

/-!
# Walks by nodes and by keys

Several nodes may have one key, as the names of one file have. A walk by the nodes goes through a
node again that has another name, where a walk by the keys does not. If nodes with one key have
children with the same keys, and no key is below itself, the second walk puts out what the first
does, less what belongs to the nodes that it has left out (`Walks.by_key`).

The two walks are compared along the first. When it gets to a node whose key was visited before,
the first node with this key is complete, as otherwise the key would be below itself. So all that
is found from there has visited keys as well (`Behind.children`).
-/

namespace Ethiso

variable {π ε κ : Type*} [DecidableEq π] {key : π → κ} {items : π → Option (List (ε ⊕ π))}
  {s s' t : Trail π ε} {stack rest : List (π × (ε ⊕ π))} {p q : π} {e : ε}

variable (key items) in
/-- A node with the second key is among the items of one with the first. -/
def KeyChild (a b : κ) : Prop := ∃ p q, key p = a ∧ key q = b ∧ Child items p q

/-- Between two walks, one by the nodes and the other by the keys, which has left out the nodes
with a key that it had visited. What is on the stack of a node that was left out leads to visited
keys only. -/
structure Behind (key : π → κ) (items : π → Option (List (ε ⊕ π)))
    (stack : List (π × (ε ⊕ π))) (s s' : Trail π ε) : Prop where
  out : s'.out = s.out.filter fun x => x.1 ∈ s'.visited
  visited : ∀ x ∈ s'.visited, x ∈ s.visited
  keys : ∀ x ∈ s.visited, key x ∈ s'.visited.map key
  own : ∀ x ∈ s.out, x.1 ∈ s.visited
  owners : ∀ x ∈ stack, x.1 ∈ s.visited
  entries : ∀ p q, (p, Sum.inr q) ∈ stack → Child items p q
  pending : ∀ x ∈ s.visited, ∀ y, Child items x y →
    key y ∈ s'.visited.map key ∨ (x, Sum.inr y) ∈ stack
  below : stack.Pairwise fun x y => Relation.ReflTransGen (KeyChild key items) (key y.1) (key x.1)
  repeated : ∀ p q, (p, Sum.inr q) ∈ stack → p ∉ s'.visited → key q ∈ s'.visited.map key

/-- An entry is taken from the stack, its node if any having a visited key. -/
theorem Behind.pop {i : π × (ε ⊕ π)} (h : Behind key items (i :: stack) s s')
    (h_i : ∀ q, i.2 = .inr q → key q ∈ s'.visited.map key) : Behind key items stack s s' where
  out := h.out
  visited := h.visited
  keys := h.keys
  own := h.own
  owners x h_x := h.owners x (List.mem_cons_of_mem i h_x)
  entries p q h_q := h.entries p q (List.mem_cons_of_mem i h_q)
  pending x h_x y h_y := by
    -- what is put off is still to be done, or the item that was taken
    rcases h.pending x h_x y h_y with h_mem | h_mem
    · exact Or.inl h_mem
    · rcases List.mem_cons.mp h_mem with rfl | h_mem
      · exact Or.inl (h_i y rfl)
      · exact Or.inr h_mem
  below := h.below.of_cons
  repeated p q h_q := h.repeated p q (List.mem_cons_of_mem i h_q)

/-- An item that both put keeps them together. -/
theorem Behind.put (h : Behind key items stack s s') (h_p : p ∈ s'.visited) :
    Behind key items stack (s.put p e) (s'.put p e) :=
  { h with
    out := by
      unfold Trail.put
      rw [List.filter_append, ← h.out, List.filter_cons_of_pos (by simpa using h_p)]
      rfl
    own := by
      intro x h_x
      rcases List.mem_append.mp h_x with h_x | h_x
      · exact h.own x h_x
      · rw [List.mem_singleton.mp h_x]
        exact h.visited p h_p }

/-- A node that only the first has visited may be left out. -/
theorem Behind.leave_out (h : Behind key items stack s s') (h_s : p ∈ s.visited)
    (h_p : p ∉ s'.visited) : Behind key items stack (s.put p e) s' :=
  { h with
    out := by
      unfold Trail.put
      rw [List.filter_append, ← h.out, List.filter_cons_of_neg (by simpa using h_p)]
      exact (List.append_nil _).symm
    own := by
      intro x h_x
      rcases List.mem_append.mp h_x with h_x | h_x
      · exact h.own x h_x
      · rw [List.mem_singleton.mp h_x]
        exact h_s }

section Visit

variable {l : List (ε ⊕ π)}

omit [DecidableEq π] in
/-- What is on the stack is one of the new items or an old one. -/
theorem mem_pushed {x : π × (ε ⊕ π)} (h : x ∈ l.map (Prod.mk q) ++ stack) :
    (x.1 = q ∧ x.2 ∈ l) ∨ x ∈ stack := by
  refine (List.mem_append.mp h).imp_left fun h_x => ?_
  obtain ⟨item, h_item, rfl⟩ := List.mem_map.mp h_x
  exact ⟨rfl, h_item⟩

omit [DecidableEq π] in
theorem mem_visit {x : π} : x ∈ (s.visit q).visited ↔ x ∈ s.visited ∨ x = q := by
  unfold Trail.visit
  rw [List.mem_append, List.mem_singleton]

/-- What is on the stack leads to the node that is on top. -/
theorem Behind.reaches_top (h : Behind key items ((p, .inr q) :: stack) s s') :
    ∀ x ∈ (p, Sum.inr q) :: stack, Relation.TransGen (KeyChild key items) (key x.1) (key q) := by
  have h_last : KeyChild key items (key p) (key q) :=
    ⟨p, q, rfl, rfl, h.entries p q List.mem_cons_self⟩
  intro x h_x
  rcases List.mem_cons.mp h_x with rfl | h_x
  · exact .single h_last
  · exact .tail' (List.rel_of_pairwise_cons h.below h_x) h_last

/-- What is the same whether the key of the node was visited before or not. -/
theorem Behind.push (h : Behind key items ((p, .inr q) :: stack) s s') (h_l : items q = some l) :
    (∀ x ∈ l.map (Prod.mk q) ++ stack, x.1 ∈ (s.visit q).visited) ∧
      (∀ x y, (x, Sum.inr y) ∈ l.map (Prod.mk q) ++ stack → Child items x y) ∧
      (l.map (Prod.mk q) ++ stack).Pairwise fun x y =>
        Relation.ReflTransGen (KeyChild key items) (key y.1) (key x.1) := by
  refine ⟨?_, ?_, ?_⟩
  · intro x h_x
    rw [mem_visit]
    -- the owner of the item is the node or one from before
    rcases mem_pushed h_x with ⟨h_q, -⟩ | h_x
    · exact Or.inr h_q
    · exact Or.inl (h.owners x (List.mem_cons_of_mem _ h_x))
  · intro x y h_mem
    rcases mem_pushed h_mem with ⟨h_eq, h_y⟩ | h_y
    · obtain rfl : x = q := h_eq
      exact ⟨l, h_l, h_y⟩
    · exact h.entries x y (List.mem_cons_of_mem _ h_y)
  -- the items of one node keep their order among themselves
  · have h_owner : ∀ x ∈ l.map (Prod.mk q), x.1 = q := by
      intro x h_x
      obtain ⟨item, -, rfl⟩ := List.mem_map.mp h_x
      rfl
    refine List.pairwise_append.mpr ⟨?_, h.below.of_cons, ?_⟩
    · refine List.pairwise_of_forall_mem_list fun x h_x y h_y => ?_
      rw [h_owner x h_x, h_owner y h_y]
    · intro x h_x y h_y
      rw [h_owner x h_x]
      exact (h.reaches_top y (List.mem_cons_of_mem _ h_y)).to_reflTransGen

/-- A node is visited by both walks. -/
theorem Behind.visit (h : Behind key items ((p, .inr q) :: stack) s s') (h_q : q ∉ s.visited)
    (h_l : items q = some l) :
    Behind key items (l.map (Prod.mk q) ++ stack) (s.visit q) (s'.visit q) where
  out := by
    change s'.out = s.out.filter _
    rw [h.out]
    refine List.filter_congr fun x h_x => ?_
    -- the node has put out nothing before
    have h_ne : x.1 ≠ q := fun h_eq => h_q (h_eq ▸ h.own x h_x)
    simp only [mem_visit, h_ne, or_false]
  visited x h_x := mem_visit.mpr ((mem_visit.mp h_x).imp_left (h.visited x))
  keys x h_x := by
    unfold Trail.visit
    rw [List.map_append, List.mem_append]
    rcases mem_visit.mp h_x with h_x | rfl
    · exact Or.inl (h.keys x h_x)
    · exact Or.inr List.mem_cons_self
  own x h_x := mem_visit.mpr (Or.inl (h.own x h_x))
  owners := (h.push h_l).1
  entries := (h.push h_l).2.1
  pending x h_x y h_y := by
    unfold Trail.visit
    rw [List.map_append]
    rcases mem_visit.mp h_x with h_x | rfl
    · rcases h.pending x h_x y h_y with h_mem | h_mem
      · exact Or.inl (List.mem_append_left _ h_mem)
      · rcases List.mem_cons.mp h_mem with h_eq | h_mem
        · cases h_eq
          exact Or.inl (List.mem_append_right _ List.mem_cons_self)
        · exact Or.inr (List.mem_append_right _ h_mem)
    · obtain ⟨l', h_l', h_y⟩ := h_y
      obtain rfl := Option.some.inj (h_l.symm.trans h_l')
      exact Or.inr (List.mem_append_left _ (List.mem_map_of_mem h_y))
  below := (h.push h_l).2.2
  repeated x y h_mem h_x := by
    rw [mem_visit, not_or] at h_x
    rcases mem_pushed h_mem with ⟨h_eq, -⟩ | h_y
    · exact absurd h_eq h_x.2
    · unfold Trail.visit
      rw [List.map_append]
      exact List.mem_append_left _ (h.repeated x y (List.mem_cons_of_mem _ h_y) h_x.1)

/-- A node is visited by the walk by the nodes only, as its key was visited before. -/
theorem Behind.revisit (h : Behind key items ((p, .inr q) :: stack) s s')
    (h_l : items q = some l) (h_key : key q ∈ s'.visited.map key)
    (h_children : ∀ y, Sum.inr y ∈ l → key y ∈ s'.visited.map key) :
    Behind key items (l.map (Prod.mk q) ++ stack) (s.visit q) s' where
  out := h.out
  visited x h_x := mem_visit.mpr (Or.inl (h.visited x h_x))
  keys x h_x := by
    -- the node itself is visited now
    rcases mem_visit.mp h_x with h_x | rfl
    · exact h.keys x h_x
    · exact h_key
  own x h_x := mem_visit.mpr (Or.inl (h.own x h_x))
  owners := (h.push h_l).1
  entries := (h.push h_l).2.1
  pending x h_x y h_y := by
    rcases mem_visit.mp h_x with h_x | rfl
    · have h_rest := (h.pop fun y h_y => Sum.inr.inj h_y ▸ h_key).pending x h_x y h_y
      exact h_rest.imp_right (List.mem_append_right _)
    · obtain ⟨l', h_l', h_y⟩ := h_y
      obtain rfl := Option.some.inj (h_l.symm.trans h_l')
      exact Or.inl (h_children y h_y)
  below := (h.push h_l).2.2
  repeated x y h_mem h_x := by
    -- the items are repeated, or they were there before
    rcases mem_pushed h_mem with ⟨-, h_y⟩ | h_y
    · exact h_children y h_y
    · exact h.repeated x y (List.mem_cons_of_mem _ h_y) h_x

/-- The keys of its children were visited with that of a node, as no key is below itself. -/
theorem Behind.children (h : Behind key items ((p, .inr q) :: stack) s s')
    (h_same : ∀ x x' y, key x = key x' → Child items x y → ∃ y', Child items x' y' ∧ key y' = key y)
    (h_acyclic : ∀ a, ¬Relation.TransGen (KeyChild key items) a a)
    (h_l : items q = some l) (h_key : key q ∈ s'.visited.map key) :
    ∀ y, Sum.inr y ∈ l → key y ∈ s'.visited.map key := by
  intro y h_y
  obtain ⟨x, h_x, h_eq⟩ := List.mem_map.mp h_key
  obtain ⟨y', h_y', h_eq'⟩ := h_same q x y h_eq.symm ⟨l, h_l, h_y⟩
  rw [← h_eq']
  refine (h.pending x (h.visited x h_x) y' h_y').resolve_right fun h_mem => ?_
  -- the node is still on the stack, so its key is below itself
  have h_cycle := h.reaches_top _ h_mem
  rw [h_eq] at h_cycle
  exact h_acyclic _ h_cycle

end Visit

omit [DecidableEq π] in
/-- An entry whose key was visited may be there or not. -/
theorem Walks.filter_cons {f : π × (ε ⊕ π) → Bool} (h : Walks key items (rest.filter f) s t)
    (h_q : key q ∈ s.visited.map key) :
    Walks key items (((p, .inr q) :: rest).filter f) s t := by
  rw [List.filter_cons]
  split_ifs
  · exact .skip h_q h
  · exact h

/-- A walk by the nodes takes one by the keys along. -/
theorem Walks.behind [DecidableEq κ] (h : Walks id items stack s t)
    (h_same : ∀ x x' y, key x = key x' → Child items x y → ∃ y', Child items x' y' ∧ key y' = key y)
    (h_acyclic : ∀ a, ¬Relation.TransGen (KeyChild key items) a a)
    (h_behind : Behind key items stack s s') :
    ∃ t', Walks key items (stack.filter fun x => x.1 ∈ s'.visited) s' t' ∧
      t'.out = t.out.filter fun x => x.1 ∈ t'.visited := by
  induction h generalizing s' with
  | done => exact ⟨s', .done, h_behind.out⟩
  | @own p e rest s t _ ih =>
    have h_pop := h_behind.pop fun q h_q => nomatch h_q
    by_cases h_p : p ∈ s'.visited
    · obtain ⟨t', h_t', h_out⟩ := ih (h_pop.put h_p)
      rw [List.filter_cons_of_pos (by simpa using h_p)]
      exact ⟨t', .own h_t', h_out⟩
    · rw [List.filter_cons_of_neg (by simpa using h_p)]
      exact ih (h_pop.leave_out (h_behind.owners _ List.mem_cons_self) h_p)
  | @skip p q rest s t h_q _ ih =>
    rw [List.map_id] at h_q
    have h_key := h_behind.keys q h_q
    obtain ⟨t', h_t', h_out⟩ := ih (h_behind.pop fun y h_y => Sum.inr.inj h_y ▸ h_key)
    exact ⟨t', h_t'.filter_cons h_key, h_out⟩
  | @visit p q l rest s t h_q h_l _ ih =>
    rw [List.map_id] at h_q
    change q ∉ s.visited at h_q
    by_cases h_key : key q ∈ s'.visited.map key
    -- the walk by the keys leaves the node out
    · obtain ⟨t', h_t', h_out⟩ := ih (h_behind.revisit h_l h_key
        (h_behind.children h_same h_acyclic h_l h_key))
      have h_left : (l.map (Prod.mk q)).filter (fun x => x.1 ∈ s'.visited) = [] := by
        rw [List.filter_eq_nil_iff]
        intro x h_x
        obtain ⟨item, -, rfl⟩ := List.mem_map.mp h_x
        simpa using fun h_mem => h_q (h_behind.visited q h_mem)
      rw [List.filter_append, h_left, List.nil_append] at h_t'
      exact ⟨t', h_t'.filter_cons h_key, h_out⟩
    -- the walks visit the node together
    · have h_p : p ∈ s'.visited := by
        by_contra h_p
        exact h_key (h_behind.repeated p q List.mem_cons_self h_p)
      obtain ⟨t', h_t', h_out⟩ := ih (h_behind.visit h_q h_l)
      refine ⟨t', ?_, h_out⟩
      rw [List.filter_cons_of_pos (by simpa using h_p)]
      refine .visit h_key h_l ?_
      have h_pushed : (l.map (Prod.mk q)).filter (fun x => x.1 ∈ (s'.visit q).visited) =
          l.map (Prod.mk q) := by
        rw [List.filter_eq_self]
        intro x h_x
        obtain ⟨item, -, rfl⟩ := List.mem_map.mp h_x
        simpa using mem_visit.mpr (Or.inr rfl)
      have h_rest : rest.filter (fun x => x.1 ∈ (s'.visit q).visited) =
          rest.filter fun x => x.1 ∈ s'.visited := by
        refine List.filter_congr fun x h_x => ?_
        have h_ne : x.1 ≠ q := fun h_eq =>
          h_q (h_eq ▸ h_behind.owners x (List.mem_cons_of_mem _ h_x))
        simp only [mem_visit, h_ne, or_false]
      rwa [List.filter_append, h_pushed, h_rest] at h_t'

/-- **By nodes and by keys.** The walk from a node by the keys puts out what the walk by the nodes
does, less what is of nodes that it has left out. -/
theorem Walks.by_key [DecidableEq κ] {r : π}
    (h : Walks id items [(r, .inr r)] Trail.empty t)
    (h_same : ∀ x x' y, key x = key x' → Child items x y → ∃ y', Child items x' y' ∧ key y' = key y)
    (h_acyclic : ∀ a, ¬Relation.TransGen (KeyChild key items) a a) :
    ∃ t', Walks key items [(r, .inr r)] Trail.empty t' ∧
      t'.out = t.out.filter fun x => x.1 ∈ t'.visited := by
  cases h with
  | skip h_r => cases h_r
  -- the first node is visited in both walks
  | @visit _ _ l _ _ _ h_r h_l h =>
    have h_behind : Behind key items (l.map (Prod.mk r) ++ []) (Trail.empty.visit r)
        (Trail.empty.visit r) := by
      have h_owner : ∀ x ∈ l.map (Prod.mk r) ++ [], x.1 = r ∧ x.2 ∈ l := fun x h_x =>
        (mem_pushed h_x).resolve_right (List.not_mem_nil)
      exact {
        out := rfl
        visited := fun x h_x => h_x
        keys := fun x h_x => List.mem_map_of_mem h_x
        own := fun x h_x => nomatch h_x
        owners := fun x h_x => mem_visit.mpr (Or.inr (h_owner x h_x).1)
        entries := by
          intro x y h_mem
          obtain ⟨h_eq, h_y⟩ := h_owner _ h_mem
          obtain rfl : x = r := h_eq
          exact ⟨l, h_l, h_y⟩
        pending := by
          rintro x h_x y ⟨l', h_l', h_y⟩
          obtain rfl : x = r := List.mem_singleton.mp h_x
          obtain rfl := Option.some.inj (h_l.symm.trans h_l')
          exact Or.inr (List.mem_append_left _ (List.mem_map_of_mem h_y))
        below := List.pairwise_of_forall_mem_list fun x h_x y h_y => by
          rw [(h_owner x h_x).1, (h_owner y h_y).1]
        repeated := fun x y h_y h_x => absurd (mem_visit.mpr (Or.inr (h_owner _ h_y).1)) h_x }
    obtain ⟨t', h_t', h_out⟩ := h.behind h_same h_acyclic h_behind
    refine ⟨t', .visit (by simp [Trail.empty]) h_l ?_, h_out⟩
    -- no item is left out but those that are behind
    have h_all := List.filter_eq_self.mpr fun x h_x => decide_eq_true (h_behind.owners x h_x)
    rwa [h_all] at h_t'

end Ethiso
