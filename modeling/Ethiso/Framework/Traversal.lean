import Mathlib.Data.Finset.Card
import Mathlib.Data.List.Perm.Basic
import Mathlib.Logic.Relation

/-!
# Depth-first walks

A node has items, in an order: things of its own, and other nodes. A walk from a node goes
through its items and puts out what is its own, with the node; where an item is a node, it walks
from there first, unless a node with the same key was visited before. A node may have no items
at all, in which case the walk fails, as it does if it gets too deep (`walk`).

What a walk does to its list of outputs does not depend on how the recursion is done. `Walks` says
it with a stack of the items that are still to come. The two agree (`walks_iff`), and facts about
walks go by induction on `Walks`: a walk visits what is reachable, each key once, and puts out the
things of the nodes it visits (`Walks.spec`). It ends if finitely many nodes are reachable
(`exists_walks`).
-/

namespace Ethiso

variable {π ε κ : Type*}

/-- Why a walk fails. -/
inductive Stop (π : Type*) where
  | tooDeep
  | missing (p : π)
deriving DecidableEq

/-- What a walk has put out, and the nodes it has visited. -/
structure Trail (π ε : Type*) where
  out : List (π × ε)
  visited : List π

namespace Trail

/-- The walk before its start. -/
def empty : Trail π ε := ⟨[], []⟩

/-- Puts an item out. -/
def put (s : Trail π ε) (p : π) (e : ε) : Trail π ε := { s with out := s.out ++ [(p, e)] }

/-- Notes a visit. -/
def visit (s : Trail π ε) (p : π) : Trail π ε := { s with visited := s.visited ++ [p] }

end Trail

section Walk

variable [DecidableEq κ] (key : π → κ) (items : π → Option (List (ε ⊕ π)))

/-- A walk from a node, at most so many nodes deep. -/
def walk : ℕ → Trail π ε → π → Except (Stop π) (Trail π ε)
  | 0, _, _ => .error .tooDeep
  | n + 1, s, p =>
    if key p ∈ s.visited.map key then .ok s
    else
      match items p with
      | none => .error (.missing p)
      | some l =>
        l.foldlM (fun s item =>
          match item with
          | .inl e => .ok (s.put p e)
          | .inr q => walk n s q) (s.visit p)

/-- Goes through an item of a node. -/
def handleItem (n : ℕ) (s : Trail π ε) : π × (ε ⊕ π) → Except (Stop π) (Trail π ε)
  | (p, .inl e) => .ok (s.put p e)
  | (_, .inr q) => walk key items n s q

variable {key items}

theorem walk_visited {n : ℕ} {s : Trail π ε} {p : π} (h : key p ∈ s.visited.map key) :
    walk key items (n + 1) s p = .ok s := by
  unfold walk
  rw [if_pos h]

theorem walk_missing {n : ℕ} {s : Trail π ε} {p : π} (h : key p ∉ s.visited.map key)
    (h_none : items p = none) : walk key items (n + 1) s p = .error (.missing p) := by
  rw [walk, if_neg h, h_none]

/-- A new node is visited and its items are handled. -/
theorem walk_new {n : ℕ} {s : Trail π ε} {p : π} {l : List (ε ⊕ π)}
    (h : key p ∉ s.visited.map key) (h_l : items p = some l) :
    walk key items (n + 1) s p =
      (l.map (Prod.mk p)).foldlM (handleItem key items n) (s.visit p) := by
  rw [walk, if_neg h, h_l, List.foldlM_map]
  dsimp only
  congr 1
  funext s item
  cases item <;> rfl

variable (key items) in
/-- Goes through all the items on a stack, and what is found on the way. -/
inductive Walks : List (π × (ε ⊕ π)) → Trail π ε → Trail π ε → Prop where
  | done {s} : Walks [] s s
  | own {p e rest s t} (h : Walks rest (s.put p e) t) : Walks ((p, .inl e) :: rest) s t
  | skip {p q rest s t} (h_q : key q ∈ s.visited.map key) (h : Walks rest s t) :
      Walks ((p, .inr q) :: rest) s t
  | visit {p q l rest s t} (h_q : key q ∉ s.visited.map key) (h_l : items q = some l)
      (h : Walks (l.map (Prod.mk q) ++ rest) (s.visit q) t) : Walks ((p, .inr q) :: rest) s t

/-! ### Walks and recursion -/

section Recursion

variable {n : ℕ} {s t : Trail π ε} {stack rest : List (π × (ε ⊕ π))} {q : π}

/-- The first round and then the others. -/
theorem foldlM_cons_ok {σ β : Type*} {f : σ → β → Except (Stop π) σ} {x : β} {xs : List β}
    {s t : σ} : (x :: xs).foldlM f s = .ok t ↔ ∃ r, f s x = .ok r ∧ xs.foldlM f r = .ok t := by
  rw [List.foldlM_cons]
  cases h : f s x with
  -- if the first round fails, so does the loop
  | error e =>
    refine iff_of_false ?_ ?_
    · rintro ⟨⟩
    · rintro ⟨r, ⟨⟩, -⟩
  | ok r =>
    refine ⟨?_, ?_⟩
    · intro h_eq
      exact ⟨r, rfl, h_eq⟩
    · rintro ⟨r', h_r', h_eq⟩
      obtain rfl := Except.ok.inj h_r'
      exact h_eq

theorem foldlM_append_ok {σ β : Type*} {f : σ → β → Except (Stop π) σ} {xs ys : List β}
    {s t : σ} :
    (xs ++ ys).foldlM f s = .ok t ↔ ∃ r, xs.foldlM f s = .ok r ∧ ys.foldlM f r = .ok t := by
  induction xs generalizing s with
  | nil =>
    refine ⟨?_, ?_⟩
    · intro h
      exact ⟨s, rfl, h⟩
    · rintro ⟨r, h_r, h⟩
      obtain rfl := Except.ok.inj h_r
      exact h
  | cons x xs ih =>
    rw [List.cons_append, foldlM_cons_ok]
    simp only [ih, foldlM_cons_ok]
    refine ⟨?_, ?_⟩
    · rintro ⟨r, h_r, r', h_r', h⟩
      exact ⟨r', ⟨r, h_r, h_r'⟩, h⟩
    · rintro ⟨r', ⟨r, h_r, h_r'⟩, h⟩
      exact ⟨r, h_r, r', h_r', h⟩

/-- A walk that ends does not get different by being allowed to go deeper. -/
theorem handleItem_succ {i : π × (ε ⊕ π)} (h : handleItem key items n s i = .ok t) :
    handleItem key items (n + 1) s i = .ok t := by
  induction n generalizing s t i with
  | zero =>
    obtain ⟨p, e | q⟩ := i
    · exact h
    · cases h
  | succ n ih =>
    obtain ⟨p, e | q⟩ := i
    · exact h
    · by_cases h_q : key q ∈ s.visited.map key
      · change walk key items (n + 1) s q = _ at h
        change walk key items (n + 1 + 1) s q = _
        rw [walk_visited h_q] at h ⊢
        exact h
      · change walk key items (n + 1) s q = _ at h
        change walk key items (n + 1 + 1) s q = _
        cases h_l : items q with
        | none =>
          rw [walk_missing h_q h_l] at h
          cases h
        | some l =>
          rw [walk_new h_q h_l] at h ⊢
          -- the same for all the items of the node
          generalize l.map (Prod.mk q) = l' at h ⊢
          generalize s.visit q = r at h ⊢
          induction l' generalizing r with
          | nil => exact h
          | cons i l' ih' =>
            obtain ⟨r', h_r', h⟩ := foldlM_cons_ok.mp h
            exact foldlM_cons_ok.mpr ⟨r', ih h_r', ih' r' h⟩

/-- More fuel changes nothing that has been found. -/
theorem foldlM_handleItem_mono {m : ℕ} (h_le : n ≤ m)
    (h : stack.foldlM (handleItem key items n) s = .ok t) :
    stack.foldlM (handleItem key items m) s = .ok t := by
  induction m, h_le using Nat.le_induction with
  | base => exact h
  | succ m _ ih =>
    clear h
    induction stack generalizing s with
    | nil => exact ih
    | cons i stack ih' =>
      obtain ⟨r, h_r, h⟩ := foldlM_cons_ok.mp ih
      exact foldlM_cons_ok.mpr ⟨r, handleItem_succ h_r, ih' h⟩

omit [DecidableEq κ] in
/-- Walks follow each other. -/
theorem Walks.trans (h : Walks key items stack s t) {u : Trail π ε}
    (h' : Walks key items rest t u) : Walks key items (stack ++ rest) s u := by
  induction h with
  | done => exact h'
  | own _ ih => exact .own (ih h')
  | skip h_q _ ih => exact .skip h_q (ih h')
  | visit h_q h_l _ ih =>
    refine .visit h_q h_l ?_
    have h_all := ih h'
    rwa [List.append_assoc] at h_all

/-- **What the code returns is a walk.** By induction on the fuel, and on the stack. -/
theorem walks_of_foldlM (h : stack.foldlM (handleItem key items n) s = .ok t) :
    Walks key items stack s t := by
  induction n generalizing stack s t with
  | zero =>
    induction stack generalizing s with
    | nil =>
      obtain rfl := Except.ok.inj h
      exact .done
    | cons i stack ih =>
      obtain ⟨r, h_r, h_rest⟩ := foldlM_cons_ok.mp h
      obtain ⟨p, e | q⟩ := i
      · obtain rfl := Except.ok.inj h_r
        exact .own (ih h_rest)
      · cases h_r
  | succ n ih =>
    induction stack generalizing s with
    | nil =>
      obtain rfl := Except.ok.inj h
      exact .done
    | cons i stack ih' =>
      obtain ⟨r, h_r, h_rest⟩ := foldlM_cons_ok.mp h
      obtain ⟨p, e | q⟩ := i
      · obtain rfl := Except.ok.inj h_r
        exact .own (ih' h_rest)
      · change walk key items (n + 1) s q = _ at h_r
        -- the node was visited before, or is visited now
        by_cases h_q : key q ∈ s.visited.map key
        · rw [walk_visited h_q] at h_r
          obtain rfl := Except.ok.inj h_r
          exact .skip h_q (ih' h_rest)
        · cases h_l : items q with
          | none =>
            rw [walk_missing h_q h_l] at h_r
            cases h_r
          | some l =>
            rw [walk_new h_q h_l] at h_r
            exact .visit h_q h_l ((ih h_r).trans (ih' h_rest))

/-- **Walks** are what the recursion does, if it may go deep enough. -/
theorem walks_iff : Walks key items stack s t ↔
    ∃ n, stack.foldlM (handleItem key items n) s = .ok t := by
  refine ⟨?_, ?_⟩
  · intro h
    induction h with
    | done => exact ⟨0, rfl⟩
    | own _ ih =>
      obtain ⟨n, h_n⟩ := ih
      exact ⟨n, foldlM_cons_ok.mpr ⟨_, rfl, h_n⟩⟩
    | skip h_q _ ih =>
      obtain ⟨n, h_n⟩ := ih
      exact ⟨n + 1, foldlM_cons_ok.mpr ⟨_, walk_visited h_q,
        foldlM_handleItem_mono (Nat.le_succ n) h_n⟩⟩
    | visit h_q h_l _ ih =>
      -- the walk from the node is one deeper than those from its items
      obtain ⟨n, h_n⟩ := ih
      obtain ⟨r, h_r, h_n⟩ := foldlM_append_ok.mp h_n
      exact ⟨n + 1, foldlM_cons_ok.mpr ⟨r, (walk_new h_q h_l).trans h_r,
        foldlM_handleItem_mono (Nat.le_succ n) h_n⟩⟩
  · rintro ⟨n, h⟩
    exact walks_of_foldlM h

/-- The walk from one node. -/
theorem walks_singleton {p : π} : Walks key items [(p, .inr q)] s t ↔
    ∃ n, walk key items n s q = .ok t := by
  rw [walks_iff]
  refine exists_congr fun n => ?_
  rw [foldlM_cons_ok]
  refine ⟨?_, ?_⟩
  · rintro ⟨r, h_r, h⟩
    obtain rfl := Except.ok.inj h
    exact h_r
  · intro h
    exact ⟨t, h, rfl⟩

/-- More fuel, for one node. -/
theorem walk_mono {m : ℕ} (h_le : n ≤ m) (h : walk key items n s q = .ok t) :
    walk key items m s q = .ok t := by
  induction m, h_le using Nat.le_induction with
  | base => exact h
  | succ m _ ih => exact @handleItem_succ _ _ _ _ _ _ _ _ _ (q, .inr q) ih

/-- There is one way to go. -/
theorem Walks.unique {t' : Trail π ε} (h : Walks key items stack s t)
    (h' : Walks key items stack s t') : t = t' := by
  obtain ⟨n, h_n⟩ := walks_iff.mp h
  obtain ⟨m, h_m⟩ := walks_iff.mp h'
  have h_n' := foldlM_handleItem_mono (le_max_left n m) h_n
  have h_m' := foldlM_handleItem_mono (le_max_right n m) h_m
  exact Except.ok.inj (h_n'.symm.trans h_m')

end Recursion

end Walk

/-! ### What a walk visits and puts out -/

section Spec

variable {key : π → κ} {items : π → Option (List (ε ⊕ π))} {s t : Trail π ε}
  {stack : List (π × (ε ⊕ π))} {p q : π}

variable (items) in
/-- The second node is among the items of the first. -/
def Child (p q : π) : Prop := ∃ l, items p = some l ∧ Sum.inr q ∈ l

/-- What is put out for an item. -/
def ownOf : π × (ε ⊕ π) → Option (π × ε)
  | (p, .inl e) => some (p, e)
  | (_, .inr _) => none

@[simp] theorem filterMap_ownOf_own (p : π) (e : ε) (rest : List (π × (ε ⊕ π))) :
    ((p, .inl e) :: rest).filterMap ownOf = (p, e) :: rest.filterMap ownOf := rfl

@[simp] theorem filterMap_ownOf_node (p q : π) (rest : List (π × (ε ⊕ π))) :
    ((p, .inr q) :: rest).filterMap ownOf = rest.filterMap ownOf := rfl

variable (items) in
/-- What is put out for the items of a node. -/
def ownItems (p : π) : List (π × ε) :=
  ((items p).getD []).filterMap fun item => ownOf (p, item)

/-- The own items of a node are those among its items. -/
theorem ownItems_eq {l : List (ε ⊕ π)} (h : items p = some l) :
    ownItems items p = (l.map (Prod.mk p)).filterMap ownOf := by
  unfold ownItems
  rw [h, Option.getD_some, List.filterMap_map]
  rfl

/-- What a walk has done when it ends: it has visited nodes `new` that are reachable, with all
their children, each key once, and put out what is their own. -/
structure Toured (key : π → κ) (items : π → Option (List (ε ⊕ π)))
    (stack : List (π × (ε ⊕ π))) (s t : Trail π ε) (new : List π) (d : List (π × ε)) :
    Prop where
  visited : t.visited = s.visited ++ new
  out : t.out = s.out ++ d
  nodup : (s.visited.map key).Nodup → (t.visited.map key).Nodup
  reached : ∀ x ∈ new, ∃ p q, (p, Sum.inr q) ∈ stack ∧ Relation.ReflTransGen (Child items) q x
  targets : ∀ p q, (p, Sum.inr q) ∈ stack → key q ∈ t.visited.map key
  children : ∀ x ∈ new, items x ≠ none ∧
    ∀ y, Child items x y → key y ∈ t.visited.map key
  perm : d.Perm (stack.filterMap ownOf ++ new.flatMap (ownItems items))

section Toured

variable {e : ε} {l : List (ε ⊕ π)} {rest : List (π × (ε ⊕ π))} {new : List π} {d : List (π × ε)}

/-- Nothing is toured. -/
theorem toured_done : Toured key items [] s s [] [] where
  visited := (List.append_nil _).symm
  out := (List.append_nil _).symm
  nodup h := h
  reached _ h_x := nomatch h_x
  targets _ _ h_q := nomatch h_q
  children _ h_x := nomatch h_x
  perm := .refl _

/-- Something of its own is put out first. -/
theorem Toured.own (h : Toured key items rest (s.put p e) t new d) :
    Toured key items ((p, .inl e) :: rest) s t new ((p, e) :: d) where
  visited := h.visited
  out := by
    -- the item is put out before the rest
    rw [h.out]
    unfold Trail.put
    simp
  nodup := h.nodup
  reached x h_x := by
    obtain ⟨p', q, h_q, h_reach⟩ := h.reached x h_x
    exact ⟨p', q, List.mem_cons_of_mem _ h_q, h_reach⟩
  targets p' q h_q := by
    rcases List.mem_cons.mp h_q with h_eq | h_q
    · cases h_eq
    · exact h.targets p' q h_q
  children := h.children
  perm := by
    rw [filterMap_ownOf_own]
    exact h.perm.cons _

/-- A node with a visited key is passed over. -/
theorem Toured.skip (h : Toured key items rest s t new d) (h_q : key q ∈ s.visited.map key) :
    Toured key items ((p, .inr q) :: rest) s t new d where
  visited := h.visited
  out := h.out
  nodup := h.nodup
  reached x h_x := by
    obtain ⟨p', q', h_q', h_reach⟩ := h.reached x h_x
    exact ⟨p', q', List.mem_cons_of_mem _ h_q', h_reach⟩
  targets p' q' h_q' := by
    rcases List.mem_cons.mp h_q' with h_eq | h_q'
    · cases h_eq
      -- the node is visited before
      rw [h.visited, List.map_append]
      exact List.mem_append_left _ h_q
    · exact h.targets p' q' h_q'
  children := h.children
  perm := by
    rw [filterMap_ownOf_node]
    exact h.perm

/-- A node is visited before all others, and its items come next. -/
theorem Toured.visit (h : Toured key items (l.map (Prod.mk q) ++ rest) (s.visit q) t new d)
    (h_q : key q ∉ s.visited.map key) (h_l : items q = some l) :
    Toured key items ((p, .inr q) :: rest) s t (q :: new) d := by
  have h_visited : t.visited = s.visited ++ (q :: new) := by
    rw [h.visited]
    unfold Trail.visit
    simp
  refine ⟨h_visited, h.out, ?_, ?_, ?_, ?_, ?_⟩
  · intro h_nodup
    apply h.nodup
    unfold Trail.visit
    rw [List.map_append, List.map_singleton, ← List.concat_eq_append]
    exact h_nodup.concat h_q
  · intro x h_x
    rcases List.mem_cons.mp h_x with rfl | h_x
    · exact ⟨p, x, List.mem_cons_self, .refl⟩
    · obtain ⟨p', q', h_q', h_reach⟩ := h.reached x h_x
      rcases List.mem_append.mp h_q' with h_item | h_rest
      -- reached from an item of the node
      · obtain ⟨item, h_item, h_eq⟩ := List.mem_map.mp h_item
        obtain ⟨rfl, rfl⟩ := Prod.mk.inj h_eq
        exact ⟨p, q, List.mem_cons_self, .head ⟨l, h_l, h_item⟩ h_reach⟩
      · exact ⟨p', q', List.mem_cons_of_mem _ h_rest, h_reach⟩
  · intro p' q' h_q'
    rcases List.mem_cons.mp h_q' with h_eq | h_q'
    · cases h_eq
      rw [h_visited]
      simp
    · exact h.targets p' q' (List.mem_append_right _ h_q')
  · intro x h_x
    rcases List.mem_cons.mp h_x with rfl | h_x
    · refine ⟨by simp [h_l], ?_⟩
      rintro y ⟨l', h_l', h_y⟩
      obtain rfl := Option.some.inj (h_l.symm.trans h_l')
      exact h.targets x y (List.mem_append_left _ (List.mem_map_of_mem h_y))
    · exact h.children x h_x
  · refine h.perm.trans ?_
    rw [List.filterMap_append, filterMap_ownOf_node, List.flatMap_cons,
      ← ownItems_eq h_l, List.append_assoc]
    exact List.perm_append_comm_assoc _ _ _

end Toured

/-- **The walk.** -/
theorem Walks.spec (h : Walks key items stack s t) : ∃ new d, Toured key items stack s t new d := by
  induction h with
  | done => exact ⟨[], [], toured_done⟩
  | own _ ih =>
    obtain ⟨new, d, h_d⟩ := ih
    exact ⟨new, _, h_d.own⟩
  | skip h_q _ ih =>
    obtain ⟨new, d, h_d⟩ := ih
    exact ⟨new, d, h_d.skip h_q⟩
  | visit h_q h_l _ ih =>
    obtain ⟨new, d, h_d⟩ := ih
    exact ⟨_, d, h_d.visit h_q h_l⟩

/-- A walk from a node visits everything that is reachable, if it goes by the nodes. -/
theorem Toured.mem_of_reaches [DecidableEq π] {new : List π} {d : List (π × ε)}
    (h : Toured id items stack Trail.empty t new d) (h_q : (p, Sum.inr q) ∈ stack) {x : π}
    (h_reach : Relation.ReflTransGen (Child items) q x) : x ∈ new := by
  have h_visited : t.visited = new := h.visited
  induction h_reach with
  | refl =>
    have h_mem := h.targets p q h_q
    rwa [List.map_id, h_visited] at h_mem
  | tail _ h_last ih =>
    have h_mem := (h.children _ ih).2 _ h_last
    rwa [List.map_id, h_visited] at h_mem

/-- The nodes whose keys are not visited yet. -/
def unvisited [DecidableEq κ] (key : π → κ) (nodes : Finset π) (s : Trail π ε) : Finset π :=
  nodes.filter fun x => key x ∉ s.visited.map key

/-- **A visit leaves fewer nodes to visit.** -/
theorem card_unvisited_visit [DecidableEq κ] {nodes : Finset π} (h_mem : q ∈ nodes)
    (h_q : key q ∉ s.visited.map key) :
    (unvisited key nodes (s.visit q)).card < (unvisited key nodes s).card := by
  apply Finset.card_lt_card
  rw [Finset.ssubset_iff_of_subset]
  -- the node itself is no longer among them
  · refine ⟨q, Finset.mem_filter.mpr ⟨h_mem, h_q⟩, ?_⟩
    intro h_in
    apply (Finset.mem_filter.mp h_in).2
    unfold Trail.visit
    simp
  -- the others were there before
  · intro x h_x
    obtain ⟨h_x, h_out⟩ := Finset.mem_filter.mp h_x
    refine Finset.mem_filter.mpr ⟨h_x, fun h_in => h_out ?_⟩
    unfold Trail.visit
    rw [List.map_append]
    exact List.mem_append_left _ h_in

/-- **Termination.** A walk ends if it stays among finitely many nodes, which all have items. -/
theorem exists_walks [DecidableEq κ] (nodes : Finset π)
    (h_items : ∀ x ∈ nodes, ∃ l, items x = some l ∧ ∀ y, Sum.inr y ∈ l → y ∈ nodes)
    (s : Trail π ε) (h_stack : ∀ p q, (p, Sum.inr q) ∈ stack → q ∈ nodes) :
    ∃ t, Walks key items stack s t := by
  -- the number of nodes that are not visited falls, or else the stack gets shorter
  induction h_n : (unvisited key nodes s).card using Nat.strong_induction_on
    generalizing stack s with
  | _ n ih =>
    induction stack generalizing s with
    | nil => exact ⟨s, .done⟩
    | cons i stack ih_stack =>
      have h_rest : ∀ p q, (p, Sum.inr q) ∈ stack → q ∈ nodes := fun p q h_q =>
        h_stack p q (List.mem_cons_of_mem _ h_q)
      obtain ⟨p, e | q⟩ := i
      · obtain ⟨t, h_t⟩ := ih_stack (s.put p e) h_rest h_n
        exact ⟨t, .own h_t⟩
      · by_cases h_q : key q ∈ s.visited.map key
        · obtain ⟨t, h_t⟩ := ih_stack s h_rest h_n
          exact ⟨t, .skip h_q h_t⟩
        · have h_mem := h_stack p q List.mem_cons_self
          obtain ⟨l, h_l, h_children⟩ := h_items q h_mem
          have h_less := card_unvisited_visit h_mem h_q
          rw [h_n] at h_less
          have h_next : ∀ p' q', (p', Sum.inr q') ∈ l.map (Prod.mk q) ++ stack → q' ∈ nodes := by
            intro p' q' h_q'
            rcases List.mem_append.mp h_q' with h_item | h_in
            · obtain ⟨item, h_item, h_eq⟩ := List.mem_map.mp h_item
              obtain ⟨rfl, rfl⟩ := Prod.mk.inj h_eq
              exact h_children q' h_item
            · exact h_rest p' q' h_in
          obtain ⟨t, h_t⟩ := ih _ h_less (s.visit q) h_next rfl
          exact ⟨t, .visit h_q h_l h_t⟩

end Spec

end Ethiso
