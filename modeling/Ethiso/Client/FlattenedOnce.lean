import Ethiso.Client.ReadContract
import Mathlib.Algebra.Order.BigOperators.Group.List
import Mathlib.Algebra.Order.Group.Nat
import Mathlib.Data.Finset.Prod

/-!
# Is every file included once?

The contracts of a directory import each other as `"Name.sol"` or as `"./Name.sol"`, and a lookup
takes both for the same file. The paths that `readContractInto` puts together differ, though:
each import with a dot leaves a `./` in the path of what is imported, and in all that is imported
from there (`newContractResource_spelled`). So the paths of a file are as many as there are
numbers of such imports in the chains from the root to the file (`Chain`).

The method returns if and only if these numbers are bounded, that is, if no import with a dot is
on a cycle. The lines of a file are then appended once for each number
(`flattens_once`).
-/

namespace Ethiso.Ethereum

/-- The name of a file in a directory. -/
abbrev Name := List Char

/-- The lines that are appended when a file is read, with their numbers. -/
def ownLines (root : Bool) (text : List Char) : List (ℕ × Line) :=
  (readLines text).zipIdx.filterMap fun (line, i) =>
    if matchesPragma line then if root then some (i, line) else none
    else if matchesImport line then none
    else some (i, line)

/-- `./`, so many times. -/
def dots (k : ℕ) : List Char := (List.replicate k ['.', '/']).flatten

/-- A finite set of files in one directory, which import each other with or without a dot. The
path of the directory ends with a slash, unless it is empty. -/
structure Directory where
  path : Resource
  path_ends : path = [] ∨ ∃ d, path = d ++ ['/']
  names : Finset Name
  no_slash : ∀ n ∈ names, '/' ∉ n
  content : Name → List Char
  imports_known : ∀ n ∈ names, ∀ line ∈ readLines (content n), ¬matchesPragma line = true →
    matchesImport line = true → ∃ m ∈ names, ∃ k ≤ 1, importContract line = dots k ++ m

namespace Directory

variable (D : Directory)

/-- A path of the file, with so many dots. -/
def spelled (k : ℕ) (n : Name) : Resource := D.path ++ dots k ++ n

/-- The lookup takes a dot for the directory itself. -/
def Serves (getResourceAsStream : Resource → Option (List Char)) : Prop :=
  ∀ k, ∀ n ∈ D.names, getResourceAsStream (D.spelled k n) = some (D.content n)

/-- The file has a line that imports the other one, with so many dots. -/
def Imports (n : Name) (k : ℕ) (m : Name) : Prop :=
  m ∈ D.names ∧ ∃ line ∈ readLines (D.content n), ¬matchesPragma line = true ∧
    matchesImport line = true ∧ importContract line = dots k ++ m

/-- A chain of imports from the root to the file has so many dots. -/
inductive Chain (root : Name) : ℕ → Name → Prop
  | root : Chain root 0 root
  | step {k j n m} (h : Chain root k n) (h_m : D.Imports n j m) : Chain root (k + j) m

/-- The name of the file that a path leads to. -/
def fileName (p : Resource) : Name := (p.reverse.takeWhile (· ≠ '/')).reverse

/-- What was appended of the file. -/
def contributed (s : ReadState) (n : Name) : List (ℕ × Line) :=
  (s.stringBuilder.filter fun a => fileName a.1 = n).map Prod.snd

/-- The method returns if it has enough room on the stack, and each file that can be reached
contributes its lines once: all but the imports, and for the root the pragmas too. -/
def FlattensOnce (getResourceAsStream : Resource → Option (List Char)) (root : Name) : Prop :=
  ∃ s, (∃ depth₀, ∀ depth ≥ depth₀,
      readContractInto getResourceAsStream depth .empty (D.spelled 0 root) true = .ok s) ∧
    ∀ k n, D.Chain root k n →
      (contributed s n).Perm (ownLines (n = root) (D.content n))

/-- The chains from the root have boundedly many dots, and all chains to a file that has lines
to contribute have the same number of them. -/
def DotsAgree (root : Name) : Prop :=
  (∃ b, ∀ k n, D.Chain root k n → k ≤ b) ∧
    ∀ n, ownLines false (D.content n) ≠ [] → ∀ k k', D.Chain root k n → D.Chain root k' n → k = k'

/-! ### Paths -/

section Paths

theorem dots_add (k j : ℕ) : dots (k + j) = dots k ++ dots j := by
  unfold dots
  rw [← List.replicate_append_replicate, List.flatten_append]

/-- Dots end in a slash. -/
theorem dots_ends (k : ℕ) : dots k = [] ∨ ∃ d, dots k = d ++ ['/'] := by
  cases k with
  | zero => exact Or.inl rfl
  | succ k =>
    refine Or.inr ⟨dots k ++ ['.'], ?_⟩
    rw [dots_add]
    simp [dots]

/-- Each `./` has one slash. -/
theorem count_dots (k : ℕ) : (dots k).count '/' = k := by
  induction k with
  | zero => rfl
  | succ k ih =>
    rw [dots_add, List.count_append, ih]
    rfl

variable {D} {k : ℕ} {n m : Name}

theorem folder_ends (k : ℕ) : D.path ++ dots k = [] ∨ ∃ d, D.path ++ dots k = d ++ ['/'] := by
  rcases dots_ends k with h | ⟨d, h⟩
  · rw [h, List.append_nil]
    exact D.path_ends
  · refine Or.inr ⟨D.path ++ d, ?_⟩
    rw [h, List.append_assoc]

/-- A name without a slash, in front of which there is nothing or a slash. -/
theorem dropWhile_reverse {folder : List Char} (h_folder : folder = [] ∨ ∃ d, folder = d ++ ['/'])
    (h_n : '/' ∉ n) :
    (folder ++ n).reverse.dropWhile (· ≠ '/') = folder.reverse ∧
      (folder ++ n).reverse.takeWhile (· ≠ '/') = n.reverse := by
  have h_all : ∀ c ∈ n.reverse, decide (c ≠ '/') = true := by
    intro c h_c
    rw [decide_eq_true_iff]
    rintro rfl
    exact h_n (List.mem_reverse.mp h_c)
  rw [List.reverse_append, List.dropWhile_append_of_pos h_all, List.takeWhile_append_of_pos h_all]
  rcases h_folder with rfl | ⟨d, rfl⟩
  · simp
  · simp

/-- What is imported is looked for in the folder of the importing path. -/
theorem newContractResource_spelled (h_n : '/' ∉ n) (j : ℕ) :
    newContractResource (D.spelled k n) (dots j ++ m) = D.spelled (k + j) m := by
  have h_drop := (dropWhile_reverse (@folder_ends D k) h_n).1
  unfold newContractResource spelled
  rw [dots_add]
  split_ifs with h_slash
  · rw [h_drop, List.reverse_reverse]
    simp only [List.append_assoc]
  · -- without a slash, there is no folder
    rcases @folder_ends D k with h_nil | ⟨d, h_d⟩
    -- an empty folder is no directory at all
    · obtain ⟨h_path, h_dots⟩ := List.append_eq_nil_iff.mp h_nil
      rw [h_path, h_dots]
      rfl
    · rw [h_d] at h_slash
      exact absurd (by simp) h_slash

/-- The file name of a spelling does not depend on the dots. -/
theorem fileName_spelled (h_n : '/' ∉ n) : fileName (D.spelled k n) = n := by
  unfold fileName spelled
  rw [(dropWhile_reverse (@folder_ends D k) h_n).2, List.reverse_reverse]

/-- The path tells the dots. -/
theorem spelled_inj {k' : ℕ} (h_n : '/' ∉ n) (h_m : '/' ∉ m)
    (h : D.spelled k n = D.spelled k' m) : k = k' ∧ n = m := by
  refine ⟨?_, ?_⟩
  · have h_count := congrArg (List.count '/') h
    unfold spelled at h_count
    simp only [List.count_append, count_dots, List.count_eq_zero_of_not_mem h_n,
      List.count_eq_zero_of_not_mem h_m] at h_count
    omega
  · have h_name := congrArg fileName h
    rwa [fileName_spelled h_n, fileName_spelled h_m] at h_name

/-- A spelling is at least as long as its dots. -/
theorem le_length_spelled : k ≤ (D.spelled k n).length := by
  have h_le := (D.spelled k n).count_le_length (a := '/')
  unfold spelled at h_le ⊢
  rw [List.count_append, List.count_append, count_dots] at h_le
  omega

end Paths

/-! ### The import graph -/

section Graph

variable {D} {root : Name} {getResourceAsStream : Resource → Option (List Char)} {k : ℕ} {n : Name}

/-- What a chain of imports reaches is in the directory. -/
theorem Chain.mem_names (h_root : root ∈ D.names) (h : D.Chain root k n) : n ∈ D.names := by
  cases h with
  | root => exact h_root
  | step _ h_m => exact h_m.1

/-- What a file has, under one of its paths. -/
theorem items_spelled (h_serves : D.Serves getResourceAsStream) (h_n : n ∈ D.names)
    (r : Resource) :
    items getResourceAsStream r (D.spelled k n) =
      some ((readLines (D.content n)).zipIdx.filterMap
        (lineItem (D.spelled k n = r) (D.spelled k n))) := by
  unfold items
  rw [h_serves k n h_n]
  rfl

/-- What a path imports: the imported files, with the dots of the path and of the import. -/
theorem child_spelled (h_serves : D.Serves getResourceAsStream) (h_n : n ∈ D.names)
    {r q : Resource} :
    Child (items getResourceAsStream r) (D.spelled k n) q ↔
      ∃ j m, D.Imports n j m ∧ q = D.spelled (k + j) m := by
  have h_slash := D.no_slash n h_n
  rw [child_items_iff, h_serves k n h_n]
  refine ⟨?_, ?_⟩
  -- an import of the code is one of the directory, since each file is known
  · rintro ⟨text, h_text, line, h_line, h_pragma, h_import, rfl⟩
    obtain rfl := Option.some.inj h_text
    obtain ⟨m, h_m, j, -, h_eq⟩ := D.imports_known n h_n line h_line h_pragma h_import
    refine ⟨j, m, ⟨h_m, line, h_line, h_pragma, h_import, h_eq⟩, ?_⟩
    rw [h_eq, newContractResource_spelled h_slash]
  · rintro ⟨j, m, ⟨h_m, line, h_line, h_pragma, h_import, h_eq⟩, rfl⟩
    refine ⟨_, rfl, line, h_line, h_pragma, h_import, ?_⟩
    rw [h_eq, newContractResource_spelled h_slash]

/-- The paths that are reached from the root are those of the chains. -/
theorem reaches_spelled (h_serves : D.Serves getResourceAsStream) (h_root : root ∈ D.names)
    {q : Resource} :
    Relation.ReflTransGen (Child (items getResourceAsStream (D.spelled 0 root)))
        (D.spelled 0 root) q ↔
      ∃ k n, D.Chain root k n ∧ q = D.spelled k n := by
  refine ⟨?_, ?_⟩
  · intro h
    induction h with
    | refl => exact ⟨0, root, .root, rfl⟩
    | tail _ h_last ih =>
      -- the chain so far, and one import more
      obtain ⟨k, n, h_chain, rfl⟩ := ih
      obtain ⟨j, m, h_m, rfl⟩ := (child_spelled h_serves (h_chain.mem_names h_root)).mp h_last
      exact ⟨k + j, m, h_chain.step h_m, rfl⟩
  · rintro ⟨k, n, h_chain, rfl⟩
    induction h_chain with
    | root => exact .refl
    | step h_chain h_m ih =>
      exact ih.tail ((child_spelled h_serves (h_chain.mem_names h_root)).mpr ⟨_, _, h_m, rfl⟩)

/-- What a path adds to the builder are the lines of its file, with the pragmas only for the
root itself. -/
theorem ownItems_spelled (h_serves : D.Serves getResourceAsStream) (h_n : n ∈ D.names)
    (r : Resource) :
    ownItems (items getResourceAsStream r) (D.spelled k n) =
      (ownLines (D.spelled k n = r) (D.content n)).map (Prod.mk (D.spelled k n)) := by
  unfold ownItems ownLines
  rw [items_spelled h_serves h_n, Option.getD_some, List.filterMap_filterMap, List.map_filterMap]
  apply List.filterMap_congr
  rintro ⟨line, i⟩ -
  dsimp only
  by_cases h_pragma : matchesPragma line = true
  -- a pragma is kept in the file that is asked for and dropped in the others
  · rw [lineItem_pragma h_pragma, if_pos h_pragma]
    split_ifs <;> rfl
  · rw [if_neg h_pragma]
    by_cases h_import : matchesImport line = true
    · rw [lineItem_import h_pragma h_import, if_pos h_import]
      rfl
    · rw [lineItem_own h_pragma h_import, if_neg h_import]
      rfl

/-- The only spelling of the file that is asked for is its own, without dots. -/
theorem spelled_eq_root (h_root : root ∈ D.names) (h_n : n ∈ D.names) :
    D.spelled k n = D.spelled 0 root ↔ k = 0 ∧ n = root := by
  refine ⟨spelled_inj (D.no_slash n h_n) (D.no_slash root h_root), ?_⟩
  rintro ⟨rfl, rfl⟩
  rfl

end Graph

/-! ### What is read -/

section Lists

variable {β γ : Type*} [DecidableEq β] {f : β → List γ} {l : List β} {a b : β}

/-- If only one member contributes, its part is the whole. -/
theorem flatMap_perm_of_others (h_nodup : l.Nodup) (h_a : a ∈ l)
    (h_others : ∀ x ∈ l, x ≠ a → f x = []) : (l.flatMap f).Perm (f a) := by
  refine ((List.perm_cons_erase h_a).flatMap_right f).trans ?_
  have h_nil : (l.erase a).flatMap f = [] := by
    rw [List.flatMap_eq_nil_iff]
    intro x h_x
    obtain ⟨h_ne, h_mem⟩ := (h_nodup.mem_erase_iff).mp h_x
    exact h_others x h_mem h_ne
  rw [List.flatMap_cons, h_nil, List.append_nil]

/-- Two members contribute at least what is theirs. -/
theorem length_add_le_flatMap (h_a : a ∈ l) (h_b : b ∈ l) (h_ne : a ≠ b) :
    (f a).length + (f b).length ≤ (l.flatMap f).length := by
  have h_b' : b ∈ l.erase a := (List.mem_erase_of_ne h_ne.symm).mpr h_b
  have h_perm := ((List.perm_cons_erase h_a).trans
    ((List.perm_cons_erase h_b').cons a)).flatMap_right f
  rw [h_perm.length_eq]
  simp only [List.flatMap_cons, List.length_append]
  omega

end Lists

section Read

variable {D} {root : Name} {getResourceAsStream : Resource → Option (List Char)} {k : ℕ} {n : Name}
  {s : ReadState}

/-- What the method has read when it returns: all paths of the chains, each once, and it has
appended their lines. -/
structure Read (D : Directory) (root : Name) (s : ReadState) : Prop where
  nodup : s.resources.Nodup
  mem_iff : ∀ {q}, q ∈ s.resources ↔ ∃ k n, D.Chain root k n ∧ q = D.spelled k n
  perm : s.stringBuilder.Perm (s.resources.flatMap fun q =>
    (ownLines (q = D.spelled 0 root) (D.content (fileName q))).map (Prod.mk q))

/-- **What a call has read**: all that is reachable, each path once. -/
theorem read_of_ok (h_serves : D.Serves getResourceAsStream) (h_root : root ∈ D.names) {depth : ℕ}
    (h : readContractInto getResourceAsStream depth .empty (D.spelled 0 root) true = .ok s) :
    Read D root s := by
  have h_walks := (walks_singleton (p := D.spelled 0 root)).mpr
    ⟨depth, readContractInto_ok_iff.mp h⟩
  obtain ⟨new, d, h_d⟩ := h_walks.spec
  have h_new : s.resources = new := h_d.visited
  have h_out : s.stringBuilder = d := h_d.out
  -- the paths that are read are those that are reached
  have h_mem : ∀ {q}, q ∈ new ↔ ∃ k n, D.Chain root k n ∧ q = D.spelled k n := by
    intro q
    rw [← reaches_spelled h_serves h_root]
    refine ⟨?_, ?_⟩
    · intro h_q
      obtain ⟨p, q', h_q', h_reach⟩ := h_d.reached q h_q
      obtain ⟨-, h_eq⟩ := Prod.mk.inj (List.mem_singleton.mp h_q')
      obtain rfl := Sum.inr.inj h_eq
      exact h_reach
    · exact h_d.mem_of_reaches (List.mem_singleton.mpr rfl)
  refine ⟨?_, ?_, ?_⟩
  · have h_nodup := h_d.nodup List.nodup_nil
    rwa [List.map_id] at h_nodup
  · rw [h_new]
    exact h_mem
  · rw [h_new, h_out]
    refine h_d.perm.trans ?_
    rw [filterMap_ownOf_node, List.filterMap_nil, List.nil_append]
    refine List.Perm.of_eq (List.flatMap_congr fun q h_q => ?_)
    obtain ⟨k, n, h_chain, rfl⟩ := h_mem.mp h_q
    have h_n := h_chain.mem_names h_root
    rw [ownItems_spelled h_serves h_n, fileName_spelled (D.no_slash n h_n)]

/-- The paths of a file that were read. -/
def pathsOf (s : ReadState) (n : Name) : List Resource :=
  s.resources.filter fun q => fileName q = n

/-- The paths of a file are the spellings of its chains. -/
theorem Read.mem_pathsOf (h : Read D root s) (h_root : root ∈ D.names) {q : Resource} :
    q ∈ pathsOf s n ↔ ∃ k, D.Chain root k n ∧ q = D.spelled k n := by
  unfold pathsOf
  rw [List.mem_filter, h.mem_iff, decide_eq_true_iff]
  refine ⟨?_, ?_⟩
  · rintro ⟨⟨k, m, h_chain, rfl⟩, h_name⟩
    rw [fileName_spelled (D.no_slash m (h_chain.mem_names h_root))] at h_name
    subst h_name
    exact ⟨k, h_chain, rfl⟩
  · rintro ⟨k, h_chain, rfl⟩
    exact ⟨⟨k, n, h_chain, rfl⟩, fileName_spelled (D.no_slash n (h_chain.mem_names h_root))⟩

/-- A file contributes its lines for each of its paths. -/
theorem Read.contributed_perm (h : Read D root s) (n : Name) :
    (contributed s n).Perm ((pathsOf s n).flatMap fun q =>
      ownLines (q = D.spelled 0 root) (D.content n)) := by
  unfold contributed
  refine ((h.perm.filter _).map Prod.snd).trans (List.Perm.of_eq ?_)
  unfold pathsOf
  generalize s.resources = paths
  induction paths with
  | nil => rfl
  | cons q paths ih =>
    rw [List.flatMap_cons, List.filter_append, List.map_append, ih, List.filter_map,
      List.map_map]
    -- the path is one of the file, or it adds nothing to it
    by_cases h_q : fileName q = n
    · rw [List.filter_cons_of_pos (by simpa using h_q), List.flatMap_cons, h_q]
      congr 1
      rw [List.filter_eq_self.mpr fun e _ => by simpa using h_q]
      exact List.map_id _
    · rw [List.filter_cons_of_neg (by simpa using h_q),
        List.filter_eq_nil_iff.mpr fun e _ => by simpa using h_q]
      rfl

/-- One of the paths of a file that can be reached gives just what the file is to contribute. -/
theorem Read.exists_path (h : Read D root s) (h_root : root ∈ D.names)
    (h_chain : D.Chain root k n) : ∃ q ∈ pathsOf s n,
      ownLines (q = D.spelled 0 root) (D.content n) = ownLines (n = root) (D.content n) ∧
        ∀ x ∈ pathsOf s n, x ≠ q → x ≠ D.spelled 0 root := by
  have h_n := h_chain.mem_names h_root
  by_cases h_eq : n = root
  · subst h_eq
    exact ⟨D.spelled 0 n, (h.mem_pathsOf h_root).mpr ⟨0, .root, rfl⟩, by simp, fun _ _ => id⟩
  · -- no path of another file is that of the root
    have h_ne : ∀ {j}, D.spelled j n ≠ D.spelled 0 root := fun {j} h_path =>
      h_eq ((spelled_eq_root h_root h_n).mp h_path).2
    refine ⟨D.spelled k n, (h.mem_pathsOf h_root).mpr ⟨k, h_chain, rfl⟩, ?_, ?_⟩
    · simp only [h_ne, h_eq]
    · intro x h_x _
      obtain ⟨j, -, rfl⟩ := (h.mem_pathsOf h_root).mp h_x
      exact h_ne

/-- **Once.** A file contributes its lines once if and only if it has no lines, or one path. -/
theorem Read.contributed_once (h : Read D root s) (h_root : root ∈ D.names)
    (h_chain : D.Chain root k n) :
    (contributed s n).Perm (ownLines (n = root) (D.content n)) ↔
      (ownLines false (D.content n) ≠ [] → ∀ j j', D.Chain root j n → D.Chain root j' n →
        j = j') := by
  have h_n := h_chain.mem_names h_root
  obtain ⟨q, h_q, h_own, h_others⟩ := h.exists_path h_root h_chain
  have h_plain : ∀ x ∈ pathsOf s n, x ≠ q →
      ownLines (x = D.spelled 0 root) (D.content n) = ownLines false (D.content n) := by
    intro x h_x h_ne
    rw [decide_eq_false (h_others x h_x h_ne)]
  refine ⟨?_, ?_⟩
  · intro h_perm h_lines j j' h_j h_j'
    by_contra h_ne
    -- one of the two paths is another than `q`, and brings the lines once more
    have h_two : ∃ x ∈ pathsOf s n, x ≠ q := by
      by_contra h_all
      push Not at h_all
      have h_path := h_all _ ((h.mem_pathsOf h_root).mpr ⟨j, h_j, rfl⟩)
      have h_path' := h_all _ ((h.mem_pathsOf h_root).mpr ⟨j', h_j', rfl⟩)
      have h_slash := D.no_slash n h_n
      exact h_ne (spelled_inj h_slash h_slash (h_path.trans h_path'.symm)).1
    obtain ⟨x, h_x, h_x_ne⟩ := h_two
    have h_le := length_add_le_flatMap
      (f := fun q => ownLines (q = D.spelled 0 root) (D.content n)) h_q h_x h_x_ne.symm
    rw [← (h.contributed_perm n).length_eq, h_perm.length_eq, h_own, h_plain x h_x h_x_ne] at h_le
    have h_pos := List.length_pos_iff.mpr h_lines
    omega
  · intro h_once
    rw [← h_own]
    refine (h.contributed_perm n).trans (flatMap_perm_of_others
      (f := fun q => ownLines (q = D.spelled 0 root) (D.content n)) (h.nodup.filter _) h_q ?_)
    intro x h_x h_ne
    rw [h_plain x h_x h_ne]
    by_contra h_lines
    obtain ⟨j, h_j, rfl⟩ := (h.mem_pathsOf h_root).mp h_x
    obtain ⟨j', h_j', rfl⟩ := (h.mem_pathsOf h_root).mp h_q
    exact h_ne (by rw [h_once h_lines j j' h_j h_j'])

/-- **Termination.** The method returns if and only if the chains have boundedly many dots. -/
theorem returns_iff (h_serves : D.Serves getResourceAsStream) (h_root : root ∈ D.names) :
    (∃ s, ∃ depth₀, ∀ depth ≥ depth₀,
        readContractInto getResourceAsStream depth .empty (D.spelled 0 root) true = .ok s) ↔
      ∃ b, ∀ k n, D.Chain root k n → k ≤ b := by
  refine ⟨?_, ?_⟩
  · rintro ⟨s, depth₀, h⟩
    have h_read := read_of_ok h_serves h_root (h depth₀ le_rfl)
    -- a path is longer than the number of its dots
    refine ⟨(s.resources.map List.length).sum, fun k n h_chain => ?_⟩
    have h_mem := h_read.mem_iff.mpr ⟨k, n, h_chain, rfl⟩
    exact le_length_spelled.trans
      (List.single_le_sum (fun x _ => Nat.zero_le x) _ (List.mem_map_of_mem h_mem))
  · rintro ⟨b, h_b⟩
    classical
    -- the paths of the chains are finitely many
    let nodes : Finset Resource :=
      (((Finset.range (b + 1)) ×ˢ D.names).image fun x => D.spelled x.1 x.2).filter fun q =>
        ∃ k n, D.Chain root k n ∧ q = D.spelled k n
    have h_nodes : ∀ {q}, q ∈ nodes ↔ ∃ k n, D.Chain root k n ∧ q = D.spelled k n := by
      intro q
      rw [Finset.mem_filter, and_iff_right_iff_imp]
      rintro ⟨k, n, h_chain, rfl⟩
      refine Finset.mem_image.mpr ⟨(k, n), Finset.mem_product.mpr ⟨?_, ?_⟩, rfl⟩
      · exact Finset.mem_range.mpr (Nat.lt_succ_of_le (h_b k n h_chain))
      · exact h_chain.mem_names h_root
    have h_items : ∀ x ∈ nodes, ∃ l, items getResourceAsStream (D.spelled 0 root) x = some l ∧
        ∀ y, Sum.inr y ∈ l → y ∈ nodes := by
      intro x h_x
      obtain ⟨k, n, h_chain, rfl⟩ := h_nodes.mp h_x
      have h_n := h_chain.mem_names h_root
      refine ⟨_, items_spelled h_serves h_n _, fun y h_y => ?_⟩
      obtain ⟨j, m, h_m, rfl⟩ :=
        (child_spelled h_serves h_n).mp ⟨_, items_spelled h_serves h_n _, h_y⟩
      exact h_nodes.mpr ⟨k + j, m, h_chain.step h_m, rfl⟩
    have h_stack : ∀ p q, (p, Sum.inr q) ∈ [(D.spelled 0 root,
        (Sum.inr (D.spelled 0 root) : (ℕ × Line) ⊕ Resource))] → q ∈ nodes := by
      intro p q h_q
      obtain ⟨-, h_eq⟩ := Prod.mk.inj (List.mem_singleton.mp h_q)
      rw [Sum.inr.inj h_eq]
      exact h_nodes.mpr ⟨0, root, .root, rfl⟩
    obtain ⟨t, h_t⟩ := @exists_walks _ _ _ id _ _ _ nodes h_items Trail.empty h_stack
    obtain ⟨depth₀, h_walk⟩ := walks_singleton.mp h_t
    refine ⟨⟨t.out, t.visited⟩, depth₀, fun depth h_le => ?_⟩
    exact readContractInto_ok_iff.mpr (walk_mono h_le h_walk)

end Read

/-- **Flattening.** On any directory and root, the method returns and every file that can be
reached contributes its lines once if and only if the dots agree. -/
theorem flattens_once (D : Directory) (getResourceAsStream : Resource → Option (List Char))
    (h_serves : D.Serves getResourceAsStream) (root : Name) (h_root : root ∈ D.names) :
    D.FlattensOnce getResourceAsStream root ↔ D.DotsAgree root := by
  unfold FlattensOnce DotsAgree
  rw [← returns_iff h_serves h_root]
  refine ⟨?_, ?_⟩
  · rintro ⟨s, h_s, h_once⟩
    refine ⟨⟨s, h_s⟩, fun n h_lines k k' h_chain => ?_⟩
    obtain ⟨depth₀, h_depth⟩ := h_s
    have h_read := read_of_ok h_serves h_root (h_depth depth₀ le_rfl)
    exact (h_read.contributed_once h_root h_chain).mp (h_once k n h_chain) h_lines k k' h_chain
  · rintro ⟨⟨s, depth₀, h_depth⟩, h_once⟩
    refine ⟨s, ⟨depth₀, h_depth⟩, fun k n h_chain => ?_⟩
    have h_read := read_of_ok h_serves h_root (h_depth depth₀ le_rfl)
    exact (h_read.contributed_once h_root h_chain).mpr (h_once n)

/-! ### Two contracts -/

/-- A lookup that takes a path for the file it ends with. -/
def lookup (D : Directory) (p : Resource) : Option (List Char) :=
  if fileName p ∈ D.names then some (D.content (fileName p)) else none

theorem lookup_serves (D : Directory) : D.Serves D.lookup := by
  intro k n h_n
  unfold lookup
  rw [fileName_spelled (D.no_slash n h_n), if_pos h_n]

/-- `import "./M";` -/
def importLine (m : Name) : Line :=
  ['i', 'm', 'p', 'o', 'r', 't', ' ', '"', '.', '/'] ++ m ++ ['"', ';']

/-- One import reaches one file. -/
theorem dots_eq {j : ℕ} {m m' : Name} (h_m : '/' ∉ m) (h_m' : '/' ∉ m')
    (h : dots 1 ++ m' = dots j ++ m) : j = 1 ∧ m = m' := by
  have h_count := congrArg (List.count '/') h
  rw [List.count_append, List.count_append, count_dots, count_dots,
    List.count_eq_zero_of_not_mem h_m, List.count_eq_zero_of_not_mem h_m'] at h_count
  obtain rfl : 1 = j := h_count
  exact ⟨rfl, (List.append_cancel_left h).symm⟩

/-- Contract `A` imports contract `B`, which has one line. -/
def oneImport : Directory where
  path := ['/']
  path_ends := Or.inr ⟨[], rfl⟩
  names := {['A'], ['B']}
  no_slash := by decide
  content n := if n = ['A'] then importLine ['B'] ++ ['\n', 'a'] else ['b']
  imports_known := by decide

/-- Both contracts import each other. -/
def importEachOther : Directory where
  path := ['/']
  path_ends := Or.inr ⟨[], rfl⟩
  names := {['A'], ['B']}
  no_slash := by decide
  content n := if n = ['A'] then importLine ['B'] else importLine ['A']
  imports_known := by decide

/-- The chains of this directory. -/
theorem oneImport_chain {k : ℕ} {n : Name} (h : oneImport.Chain ['A'] k n) :
    (k = 0 ∧ n = ['A']) ∨ (k = 1 ∧ n = ['B']) := by
  induction h with
  | root => exact Or.inl ⟨rfl, rfl⟩
  | @step k j n m _ h_m ih =>
    obtain ⟨h_mem, line, h_line, -, h_import, h_eq⟩ := h_m
    rcases ih with ⟨rfl, rfl⟩ | ⟨rfl, rfl⟩
    -- the two lines of the file
    · have h_lines : line = importLine ['B'] ∨ line = ['a'] := by
        rw [show readLines (oneImport.content ['A']) = [importLine ['B'], ['a']] by decide]
          at h_line
        simpa using h_line
      rcases h_lines with rfl | rfl
      · rw [show importContract (importLine ['B']) = dots 1 ++ ['B'] by decide] at h_eq
        obtain ⟨rfl, rfl⟩ := dots_eq (oneImport.no_slash m h_mem) (by decide) h_eq
        exact Or.inr ⟨rfl, rfl⟩
      · exact absurd h_import (by decide)
    · rw [show readLines (oneImport.content ['B']) = [['b']] by decide, List.mem_singleton]
        at h_line
      subst h_line
      exact absurd h_import (by decide)

/-- In this directory each file is flattened once. -/
theorem flattens_once_oneImport : oneImport.FlattensOnce oneImport.lookup ['A'] := by
  refine (flattens_once oneImport oneImport.lookup oneImport.lookup_serves ['A']
    (by decide)).mpr ⟨⟨1, ?_⟩, ?_⟩
  · intro k n h_chain
    -- two chains lead to each file at most once
    rcases oneImport_chain h_chain with ⟨rfl, -⟩ | ⟨rfl, -⟩
    · exact Nat.zero_le 1
    · exact le_rfl
  · intro n _ k k' h_chain h_chain'
    rcases oneImport_chain h_chain with ⟨rfl, rfl⟩ | ⟨rfl, rfl⟩ <;>
      rcases oneImport_chain h_chain' with ⟨rfl, h_n⟩ | ⟨rfl, h_n⟩
    · rfl
    · exact absurd h_n (by decide)
    · exact absurd h_n (by decide)
    · rfl

/-- Two contracts that import each other with a dot: no stack is large enough. -/
theorem not_flattensOnce_importEachOther :
    importEachOther.Serves importEachOther.lookup ∧
      ¬importEachOther.FlattensOnce importEachOther.lookup ['A'] := by
  refine ⟨importEachOther.lookup_serves, ?_⟩
  rintro ⟨s, h_s, -⟩
  obtain ⟨b, h_b⟩ := (returns_iff importEachOther.lookup_serves (by decide)).mp ⟨s, h_s⟩
  have h_imports : importEachOther.Imports ['A'] 1 ['B'] ∧
      importEachOther.Imports ['B'] 1 ['A'] := by
    refine ⟨⟨by decide, importLine ['B'], by decide, by decide, by decide, by decide⟩,
      ⟨by decide, importLine ['A'], by decide, by decide, by decide, by decide⟩⟩
  -- every round adds two dots
  have h_round : ∀ k, importEachOther.Chain ['A'] (2 * k) ['A'] := by
    intro k
    induction k with
    | zero => exact .root
    | succ k ih => exact (ih.step h_imports.1).step h_imports.2
  have h_le := h_b _ _ (h_round (b + 1))
  omega

end Directory

end Ethiso.Ethereum
