import Ethiso.Framework.Traversal

/-!
# Reading a contract with its imports

`Ethereum.compileContract` hands one text to the compiler. `readContractInto` makes it from a
resource: it appends the lines to a `StringBuilder`, without the line breaks, reads the imported
resources in the place of import lines, and keeps pragma lines of the root only. A resource is
read once; it is known by its path, which for an imported resource is put together from that of
the importing one and the text between the quotes.

The lines of a builder are kept apart here, each with its resource and its number there; the text
is what they are joined to. The Java stack has a depth that is a parameter: a method that would
call itself for ever throws `StackOverflowError` at every depth. Reading a line does not fail.

As an algorithm, this is a depth-first walk over the import graph whose keys are the paths
(`readContractInto_agrees`).
-/

namespace Ethiso.Ethereum

/-- A line of a contract, without its line break. -/
abbrev Line := List Char

/-- The path of a resource. -/
abbrev Resource := List Char

/-! ### Lines -/

/-- The lines that `BufferedReader.readLine` returns. -/
def readLines : List Char → List Line
  | [] => []
  | '\n' :: text => [] :: readLines text
  | '\r' :: '\n' :: text => [] :: readLines text
  | '\r' :: text => [] :: readLines text
  | c :: text =>
    match readLines text with
    | [] => [[c]]
    | line :: lines => (c :: line) :: lines

example : readLines ['a', '\r', '\n', '\n', 'b', 'c'] = [['a'], [], ['b', 'c']] := by decide

/-- `\s` -/
def isSpace (c : Char) : Bool :=
  c = ' ' || c = '\t' || c = '\n' || c = '\x0b' || c = '\x0c' || c = '\r'

/-- What `.` does not match. -/
def isTerminator (c : Char) : Bool :=
  c = '\n' || c = '\r' || c = '\u0085' || c = '\u2028' || c = '\u2029'

/-- What follows the prefix. -/
def afterPrefix : List Char → List Char → Option (List Char)
  | [], text => some text
  | _ :: _, [] => none
  | p :: ps, c :: text => if p = c then afterPrefix ps text else none

/-- `[^"]*"` -/
def afterQuote (text : List Char) : Option (List Char) :=
  match text.dropWhile (· ≠ '"') with
  | [] => none
  | _ :: rest => some rest

/-- `line.matches("\\s*pragma.*")` -/
def matchesPragma (line : Line) : Bool :=
  match afterPrefix ['p', 'r', 'a', 'g', 'm', 'a'] (line.dropWhile isSpace) with
  | none => false
  | some rest => rest.all fun c => !isTerminator c

/-- `line.matches("\\s*import[^\"]*\"[^\"]*\".*")` -/
def matchesImport (line : Line) : Bool :=
  match ((afterPrefix ['i', 'm', 'p', 'o', 'r', 't'] (line.dropWhile isSpace)).bind
      afterQuote).bind afterQuote with
  | none => false
  | some rest => rest.all fun c => !isTerminator c

/-- `line.substring(line.indexOf('"') + 1, line.lastIndexOf('"'))`, for a line with two quotes. -/
def importContract (line : Line) : List Char :=
  let rest := (line.dropWhile (· ≠ '"')).drop 1
  ((rest.reverse.dropWhile (· ≠ '"')).drop 1).reverse

/-- The path up to its last slash, and the import. -/
def newContractResource (contractResource : Resource) (importContract : List Char) : Resource :=
  if '/' ∈ contractResource then
    (contractResource.reverse.dropWhile (· ≠ '/')).reverse ++ importContract
  else importContract

/-! ### Reading -/

/-- A line that was appended, with its resource and its number there. -/
abbrev Appended := Resource × ℕ × Line

/-- What is passed along: the text so far and the resources read. -/
structure ReadState where
  stringBuilder : List Appended
  resources : List Resource

/-- How reading can fail. -/
inductive ReadFailure
  | stackOverflow
  | fileNotFound (message : List Char)
deriving DecidableEq

/-- The message of the exception. -/
def fileNotFoundMessage (contractResource : Resource) : List Char :=
  contractResource ++ " (via getResourceAsStream())".toList

namespace ReadState

/-- `new StringBuilder()` and `new HashSet<>()` -/
def empty : ReadState := ⟨[], []⟩

/-- Appends a line; where it is from is kept for the proofs. -/
def append (s : ReadState) (contractResource : Resource) (i : ℕ) (line : Line) : ReadState :=
  { s with stringBuilder := s.stringBuilder ++ [(contractResource, i, line)] }

/-- Notes that a resource has been read. -/
def add (s : ReadState) (contractResource : Resource) : ReadState :=
  { s with resources := s.resources ++ [contractResource] }

/-- The text of the builder, which `compileContract` hands to `eth_compileSolidity`. -/
def text (s : ReadState) : List Char := s.stringBuilder.flatMap fun a => a.2.2

end ReadState

/-- The method, with room for so many calls on the stack. -/
def readContractInto (getResourceAsStream : Resource → Option (List Char)) :
    ℕ → ReadState → Resource → Bool → Except ReadFailure ReadState
  | 0, _, _, _ => .error .stackOverflow
  | depth + 1, s, contractResource, root =>
    if contractResource ∈ s.resources then .ok s
    else
      match getResourceAsStream contractResource with
      | none => .error (.fileNotFound (fileNotFoundMessage contractResource))
      | some text =>
        (readLines text).zipIdx.foldlM (fun s (line, i) =>
          if matchesPragma line then
            .ok (if root then s.append contractResource i line else s)
          else if matchesImport line then
            readContractInto getResourceAsStream depth s
              (newContractResource contractResource (importContract line)) false
          else .ok (s.append contractResource i line)) (s.add contractResource)

/-! ### The walk over the import graph -/

/-- What a line is to the resource it is in: a line of its own, an import, or nothing if it is
a pragma of an imported resource. -/
def lineItem (root : Bool) (contractResource : Resource) :
    Line × ℕ → Option ((ℕ × Line) ⊕ Resource)
  | (line, i) =>
    if matchesPragma line then if root then some (.inl (i, line)) else none
    else if matchesImport line then
      some (.inr (newContractResource contractResource (importContract line)))
    else some (.inl (i, line))

section LineItem

variable {root : Bool} {p : Resource} {line : Line} {i : ℕ}

/-- A pragma is appended in the file that is asked for only. -/
theorem lineItem_pragma (h : matchesPragma line = true) :
    lineItem root p (line, i) = if root then some (.inl (i, line)) else none :=
  if_pos h

/-- An import is followed. -/
theorem lineItem_import (h_pragma : ¬matchesPragma line = true)
    (h_import : matchesImport line = true) :
    lineItem root p (line, i) =
      some (.inr (newContractResource p (importContract line))) :=
  (if_neg h_pragma).trans (if_pos h_import)

theorem lineItem_own (h_pragma : ¬matchesPragma line = true)
    (h_import : ¬matchesImport line = true) :
    lineItem root p (line, i) = some (.inl (i, line)) :=
  (if_neg h_pragma).trans (if_neg h_import)

end LineItem

/-- The import graph: what a resource has of its own, and what it imports. -/
def items (getResourceAsStream : Resource → Option (List Char)) (root contractResource : Resource) :
    Option (List ((ℕ × Line) ⊕ Resource)) :=
  (getResourceAsStream contractResource).map fun text =>
    (readLines text).zipIdx.filterMap (lineItem (contractResource = root) contractResource)

/-- The children of a resource are what its import lines lead to. -/
theorem child_items_iff {getResourceAsStream : Resource → Option (List Char)}
    {r p q : Resource} : Child (items getResourceAsStream r) p q ↔
      ∃ text, getResourceAsStream p = some text ∧ ∃ line ∈ readLines text,
        ¬matchesPragma line = true ∧ matchesImport line = true ∧
          newContractResource p (importContract line) = q := by
  unfold Child items
  refine ⟨?_, ?_⟩
  · rintro ⟨l, h_l, h_q⟩
    obtain ⟨text, h_text, rfl⟩ := Option.map_eq_some_iff.mp h_l
    obtain ⟨⟨line, i⟩, h_line, h_item⟩ := List.mem_filterMap.mp h_q
    have h_mem : line ∈ readLines text := List.fst_mem_of_mem_zipIdx h_line
    refine ⟨text, h_text, line, h_mem, ?_⟩
    -- of the three kinds of lines only the imports give a path
    by_cases h_pragma : matchesPragma line = true
    · rw [lineItem_pragma h_pragma] at h_item
      split_ifs at h_item
      cases Option.some.inj h_item
    · by_cases h_import : matchesImport line = true
      · rw [lineItem_import h_pragma h_import] at h_item
        exact ⟨h_pragma, h_import, Sum.inr.inj (Option.some.inj h_item)⟩
      · rw [lineItem_own h_pragma h_import] at h_item
        cases Option.some.inj h_item
  · rintro ⟨text, h_text, line, h_line, h_pragma, h_import, rfl⟩
    refine ⟨_, by rw [h_text]; rfl, ?_⟩
    obtain ⟨i, h_i⟩ := List.mem_iff_getElem?.mp h_line
    exact List.mem_filterMap.mpr ⟨(line, i), List.mk_mem_zipIdx_iff_getElem?.mpr h_i,
      lineItem_import h_pragma h_import⟩

/-- The state as a trail of the walk. -/
def ReadState.trail (s : ReadState) : Trail Resource (ℕ × Line) :=
  ⟨s.stringBuilder, s.resources⟩

/-- The method and the walk end in the same way, the root being among the resources. -/
inductive Agrees (root : Resource) :
    Except ReadFailure ReadState → Except (Stop Resource) (Trail Resource (ℕ × Line)) → Prop
  | ok {s : ReadState} (h_root : root ∈ s.resources) : Agrees root (.ok s) (.ok s.trail)
  | stackOverflow : Agrees root (.error .stackOverflow) (.error .tooDeep)
  | fileNotFound (p : Resource) :
      Agrees root (.error (.fileNotFound (fileNotFoundMessage p))) (.error (.missing p))

section Walk

variable {getResourceAsStream : Resource → Option (List Char)} {r : Resource}

/-- The loop over the lines of a resource. -/
theorem foldlM_agrees {read : ReadState → Resource → Except ReadFailure ReadState} {depth : ℕ}
    (h_read : ∀ s p, r ∈ s.resources →
      Agrees r (read s p) (walk id (items getResourceAsStream r) depth s.trail p))
    (root : Bool) (p : Resource) (lines : List (Line × ℕ)) {s : ReadState}
    (h_s : r ∈ s.resources) :
    Agrees r
      (lines.foldlM (fun s (line, i) =>
        if matchesPragma line then .ok (if root then s.append p i line else s)
        else if matchesImport line then
          read s (newContractResource p (importContract line))
        else .ok (s.append p i line)) s)
      (((lines.filterMap (lineItem root p)).map (Prod.mk p)).foldlM
        (handleItem id (items getResourceAsStream r) depth) s.trail) := by
  induction lines generalizing s with
  | nil => exact .ok h_s
  | cons x lines ih =>
    obtain ⟨line, i⟩ := x
    rw [List.foldlM_cons]
    dsimp only
    by_cases h_pragma : matchesPragma line = true
    · rw [if_pos h_pragma]
      cases root with
      | true =>
        rw [List.filterMap_cons_some (lineItem_pragma h_pragma), List.map_cons]
        exact @ih (s.append p i line) h_s
      | false =>
        rw [List.filterMap_cons_none (lineItem_pragma h_pragma)]
        exact ih h_s
    · rw [if_neg h_pragma]
      by_cases h_import : matchesImport line = true
      · rw [if_pos h_import, List.filterMap_cons_some (lineItem_import h_pragma h_import),
          List.map_cons, List.foldlM_cons]
        unfold handleItem
        dsimp only
        -- a failure of the call ends both loops
        have h_call := h_read s (newContractResource p (importContract line)) h_s
        generalize read s (newContractResource p (importContract line)) = o at h_call ⊢
        generalize walk id (items getResourceAsStream r) depth s.trail
          (newContractResource p (importContract line)) = o' at h_call ⊢
        cases h_call with
        | ok h_root => exact ih h_root
        | stackOverflow => exact .stackOverflow
        | fileNotFound q => exact .fileNotFound q
      · rw [if_neg h_import, List.filterMap_cons_some (lineItem_own h_pragma h_import),
          List.map_cons]
        exact @ih (s.append p i line) h_s

/-- **The method is a walk** over the import graph, keyed by the paths. -/
theorem readContractInto_agrees (depth : ℕ) {s : ReadState} {p : Resource} {root : Bool}
    (h : (root = true ∧ p = r) ∨ (root = false ∧ r ∈ s.resources)) :
    Agrees r (readContractInto getResourceAsStream depth s p root)
      (walk id (items getResourceAsStream r) depth s.trail p) := by
  induction depth generalizing s p root with
  | zero => exact .stackOverflow
  | succ depth ih =>
    unfold readContractInto
    have h_visited : s.trail.visited.map id = s.resources := List.map_id _
    by_cases h_p : p ∈ s.resources
    · rw [if_pos h_p, walk_visited (by rwa [h_visited])]
      refine .ok ?_
      rcases h with ⟨-, rfl⟩ | ⟨-, h_r⟩
      · exact h_p
      · exact h_r
    · rw [if_neg h_p]
      have h_new : id p ∉ s.trail.visited.map id := by rwa [h_visited]
      cases h_text : getResourceAsStream p with
      | none =>
        have h_items : items getResourceAsStream r p = none := by
          unfold items
          rw [h_text]
          rfl
        rw [walk_missing h_new h_items]
        exact .fileNotFound p
      | some text =>
        -- only the root is read with its pragmas
        have h_root : decide (p = r) = root := by
          rcases h with ⟨rfl, rfl⟩ | ⟨rfl, h_r⟩
          · simp
          · rw [decide_eq_false_iff_not]
            rintro rfl
            exact h_p h_r
        have h_add : r ∈ (s.add p).resources := by
          unfold ReadState.add
          rcases h with ⟨-, rfl⟩ | ⟨-, h_r⟩
          · exact List.mem_append_right _ List.mem_cons_self
          · exact List.mem_append_left _ h_r
        have h_items : items getResourceAsStream r p =
            some ((readLines text).zipIdx.filterMap (lineItem root p)) := by
          unfold items
          rw [h_text, h_root]
          rfl
        rw [walk_new h_new h_items]
        exact foldlM_agrees (fun s' q h_r => ih (Or.inr ⟨rfl, h_r⟩)) root p
          (readLines text).zipIdx h_add

/-- The method returns if and only if the walk ends, with the same lines. -/
theorem readContractInto_ok_iff {depth : ℕ} {s' : ReadState} :
    readContractInto getResourceAsStream depth .empty r true = .ok s' ↔
      walk id (items getResourceAsStream r) depth .empty r = .ok s'.trail := by
  have h := @readContractInto_agrees getResourceAsStream r depth .empty r true (Or.inl ⟨rfl, rfl⟩)
  change Agrees r _ (walk id (items getResourceAsStream r) depth Trail.empty r) at h
  generalize readContractInto getResourceAsStream depth .empty r true = o at h ⊢
  generalize walk id (items getResourceAsStream r) depth .empty r = o' at h ⊢
  -- reading returns the state at which the walk ends, or does not end
  cases h with
  | @ok s h_root =>
    refine ⟨?_, ?_⟩
    · intro h_eq
      rw [Except.ok.inj h_eq]
    · intro h_eq
      obtain ⟨h_out, h_visited⟩ := Trail.mk.inj (Except.ok.inj h_eq)
      obtain ⟨stringBuilder, resources⟩ := s
      obtain ⟨stringBuilder', resources'⟩ := s'
      obtain rfl : stringBuilder = stringBuilder' := h_out
      obtain rfl : resources = resources' := h_visited
      rfl
  | stackOverflow => exact iff_of_false (fun h_eq => nomatch h_eq) (fun h_eq => nomatch h_eq)
  | fileNotFound p => exact iff_of_false (fun h_eq => nomatch h_eq) (fun h_eq => nomatch h_eq)

end Walk

end Ethiso.Ethereum
