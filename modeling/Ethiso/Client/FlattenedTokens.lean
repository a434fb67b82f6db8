import Ethiso.Client.ReadContract
import Ethiso.Client.SolidityTokens
import Ethiso.Framework.Aliases

/-!
# Does the text keep the tokens of the contracts?

What the compiler should get is a program of lines: those of the root, with the imported files in
the place of import lines, each the first time only. What it gets is one text, in which the lines
are joined without line breaks, and in which a file is read again if it is imported under another
path.

Characters are taken here with the lines they stand in, and so are tokens. The text has the tokens
of the program if and only if the lines can be joined, in the order of the imports
(`preservesTokens_iff`). A comment to the end of its line is enough to lose all that follows.
-/

namespace Ethiso.Ethereum

/-! ### Lines with places -/

/-- A character, with its resource and the number of its line there. -/
abbrev Placed := (Resource × ℕ) × Char

/-- The characters of a line, each with the place of its line. -/
def placed (a : Appended) : List Placed := a.2.2.map (Prod.mk (a.1, a.2.1))

theorem map_snd_placed (a : Appended) : (placed a).map Prod.snd = a.2.2 := by
  unfold placed
  rw [List.map_map]
  exact List.map_id _

/-- Each of them has the file of the line. -/
theorem fst_of_mem_placed {a : Appended} {c : Placed} (h : c ∈ placed a) : c.1.1 = a.1 := by
  obtain ⟨_, -, rfl⟩ := List.mem_map.mp h
  rfl

/-- Solidity, of characters with places. -/
def placedScanner : Scanner Placed Solidity.Element := Solidity.scanner.comap Prod.snd

/-- The tokens of lines; each carries the places of its characters. -/
def tokens : List (List Placed) → List (Token Placed Solidity.Element) := placedScanner.scan none

/-- Without the places, these are the tokens of the lines. -/
theorem map_tokens (lines : List (List Placed)) :
    (tokens lines).map (Scanner.mapToken Prod.snd) =
      Solidity.scanner.scan none (lines.map (List.map Prod.snd)) :=
  Scanner.comap_scan lines

/-! ### Files -/

/-- The files that paths lead to. Where an import leads depends on the file it is in, and not on
the path of the file. -/
structure ContractFiles (φ : Type*) where
  file : Resource → φ
  content : φ → Option (List Char)
  relative : ∀ p q i, file p = file q →
    file (newContractResource p i) = file (newContractResource q i)

namespace ContractFiles

variable {φ : Type*} (F : ContractFiles φ)

/-- The content that a path leads to. -/
def getResourceAsStream (p : Resource) : Option (List Char) := F.content (F.file p)

/-- The file has a line that imports the other one. -/
def Imports (a b : φ) : Prop :=
  ∃ p, F.file p = a ∧ ∃ text, F.content a = some text ∧ ∃ line ∈ readLines text,
    ¬matchesPragma line = true ∧ matchesImport line = true ∧
      F.file (newContractResource p (importContract line)) = b

/-- No file imports itself, directly or through others. -/
def Acyclic : Prop := ∀ a, ¬Relation.TransGen F.Imports a a

/-- The program: the import graph from the root, each file once. -/
def IsProgram (root : Resource) (t : Trail Resource (ℕ × Line)) : Prop :=
  Walks F.file (items F.getResourceAsStream root) [(root, .inr root)] .empty t

/-- The text has the tokens of the program. -/
def PreservesTokens (root : Resource) (s : ReadState) : Prop :=
  ∃ t, F.IsProgram root t ∧ tokens [s.stringBuilder.flatMap placed] = tokens (t.out.map placed)

/-- A line, with whether its path is one that the program has. -/
def marked (t : Trail Resource (ℕ × Line)) (a : Appended) : Bool × List Placed :=
  (t.visited.contains a.1, placed a)

/-- The lines, in the order in which the imports reach the paths, can be joined; those of a path
whose file was there before are repeated. -/
def Joinable (root : Resource) : Prop :=
  ∃ u t, Walks id (items F.getResourceAsStream root) [(root, .inr root)] .empty u ∧
    F.IsProgram root t ∧
    placedScanner.Joins none (u.out.map (marked t))

variable {F} {root p q : Resource}

/-- The paths of a file import the same files. -/
theorem child_same {p' : Resource} (h_file : F.file p = F.file p')
    (h : Child (items F.getResourceAsStream root) p q) :
    ∃ q', Child (items F.getResourceAsStream root) p' q' ∧ F.file q' = F.file q := by
  obtain ⟨text, h_text, line, h_line, h_pragma, h_import, rfl⟩ := child_items_iff.mp h
  have h_text' : F.getResourceAsStream p' = some text := by
    unfold getResourceAsStream
    rw [← h_file]
    exact h_text
  exact ⟨_, child_items_iff.mpr ⟨text, h_text', line, h_line, h_pragma, h_import, rfl⟩,
    (F.relative p p' _ h_file).symm⟩

/-- What the walk descends to is imported. -/
theorem imports_of_keyChild {a b : φ}
    (h : KeyChild F.file (items F.getResourceAsStream root) a b) : F.Imports a b := by
  obtain ⟨p, q, rfl, rfl, h_child⟩ := h
  obtain ⟨text, h_text, line, h_line, h_pragma, h_import, rfl⟩ := child_items_iff.mp h_child
  exact ⟨p, rfl, text, h_text, line, h_line, h_pragma, h_import, rfl⟩

/-- The text of all lines is their concatenation. -/
theorem text_marked (t : Trail Resource (ℕ × Line)) (lines : List Appended) :
    Scanner.text (lines.map (marked t)) = lines.flatMap placed := by
  unfold Scanner.text
  rw [List.flatMap_map]
  rfl

/-- The program has the lines of the files that are read. -/
theorem program_marked (t : Trail Resource (ℕ × Line)) (lines : List Appended) :
    Scanner.program (lines.map (marked t)) =
      (lines.filter fun a => t.visited.contains a.1).map placed := by
  unfold Scanner.program
  rw [List.filter_map, List.map_map]
  rfl

/-- The text has the tokens of its lines, one after the other. -/
theorem PreservesTokens.text {s : ReadState} (h : F.PreservesTokens root s) :
    ∃ t, F.IsProgram root t ∧
      Solidity.scanner.scan none [s.text] =
        Solidity.scanner.scan none (t.out.map fun a => a.2.2) := by
  obtain ⟨t, h_t, h_tokens⟩ := h
  refine ⟨t, h_t, ?_⟩
  have h_map := congrArg (List.map (Scanner.mapToken Prod.snd)) h_tokens
  rw [map_tokens, map_tokens, List.map_singleton, List.map_flatMap, List.map_map] at h_map
  simp only [map_snd_placed, Function.comp_def] at h_map
  exact h_map

/-- **Tokens.** For any files without cyclic imports, when the method returns, the text has the
tokens of the program if and only if the lines can be joined. -/
theorem preservesTokens_iff (F : ContractFiles φ) (h_acyclic : F.Acyclic) (root : Resource)
    (depth : ℕ) (s : ReadState)
    (h : readContractInto F.getResourceAsStream depth .empty root true = .ok s) :
    F.PreservesTokens root s ↔ F.Joinable root := by
  classical
  have h_u := (walks_singleton (p := root)).mpr ⟨depth, readContractInto_ok_iff.mp h⟩
  obtain ⟨t, h_t, h_out⟩ := h_u.by_key (fun _ _ _ => child_same) fun a h_cycle =>
    h_acyclic a (h_cycle.lift id fun _ _ => imports_of_keyChild)
  have h_join := @Scanner.scan_join_iff _ _ placedScanner (s.stringBuilder.map (marked t))
    (fun c => c.1.1 ∈ t.visited) ?_
  -- the lines of the visited files are the output of the walk
  · rw [text_marked, program_marked] at h_join
    have h_program : s.stringBuilder.filter (fun a => t.visited.contains a.1) = t.out := by
      rw [h_out]
      exact List.filter_congr fun a _ => Bool.eq_iff_iff.mpr (by simp)
    rw [h_program] at h_join
    refine ⟨?_, ?_⟩
    -- the walk by files is the one that the property speaks of
    · rintro ⟨t', h_t', h_tokens⟩
      obtain rfl := h_t.unique h_t'
      exact ⟨s.trail, t, h_u, h_t, h_join.mp h_tokens⟩
    · rintro ⟨u, t', h_u', h_t', h_joins⟩
      obtain rfl := h_t.unique h_t'
      obtain rfl := h_u.unique h_u'
      exact ⟨t, h_t, h_join.mpr h_joins⟩
  · intro x h_x c h_c
    -- every line that is appended comes from a file that is read
    obtain ⟨a, -, rfl⟩ := List.mem_map.mp h_x
    rw [fst_of_mem_placed h_c]
    exact List.contains_iff_mem.symm

/-! ### Two programs -/

/-- Each path leads to a file of its own. -/
def ofContent (content : Resource → Option (List Char)) : ContractFiles Resource where
  file := id
  content := content
  relative _ _ i h := congrArg (newContractResource · i) h

/-- Contract `A` imports contract `B`, which ends with a space. -/
def withSpace : ContractFiles Resource := ofContent fun p =>
  if p = ['A'] then some (['i', 'm', 'p', 'o', 'r', 't', '"', 'B', '"', ';'] ++ ['\n', 'a'])
  else if p = ['B'] then some ['b', ' ']
  else none

/-- A comment in front of a contract. -/
def withComment : ContractFiles Resource := ofContent fun p =>
  if p = ['A'] then
    some (['/', '/'] ++ '\n' :: ['c', 'o', 'n', 't', 'r', 'a', 'c', 't', ' ', 'A', '\x7b', '\x7d'])
  else none

/-- The one import of these files. -/
theorem withSpace_imports {a b : Resource} (h : withSpace.Imports a b) : a = ['A'] ∧ b = ['B'] := by
  obtain ⟨p, rfl, text, h_text, line, h_line, -, h_import, rfl⟩ := h
  change (if p = ['A'] then _ else _) = some text at h_text
  -- the path is that of the first file, of the second, or of none
  split_ifs at h_text with h_A h_B
  · subst h_A
    obtain rfl := Option.some.inj h_text
    rw [show readLines (['i', 'm', 'p', 'o', 'r', 't', '"', 'B', '"', ';'] ++ ['\n', 'a']) =
      [['i', 'm', 'p', 'o', 'r', 't', '"', 'B', '"', ';'], ['a']] by decide] at h_line
    rcases List.mem_pair.mp h_line with rfl | rfl
    · exact ⟨rfl, by decide⟩
    · exact absurd h_import (by decide)
  · subst h_B
    obtain rfl := Option.some.inj h_text
    rw [show readLines ['b', ' '] = [['b', ' ']] by decide, List.mem_singleton] at h_line
    subst h_line
    exact absurd h_import (by decide)

theorem withSpace_acyclic : withSpace.Acyclic := by
  intro a h
  obtain ⟨b, h_first, -⟩ := Relation.TransGen.head'_iff.mp h
  obtain ⟨c, -, h_last⟩ := Relation.TransGen.tail'_iff.mp h
  have h_eq := (withSpace_imports h_first).1.symm.trans (withSpace_imports h_last).2
  exact absurd h_eq (by decide)

/-- What a call appends for the first file. -/
def spaced : Trail Resource (ℕ × Line) :=
  ⟨[(['B'], 0, ['b', ' ']), (['A'], 1, ['a'])], [['A'], ['B']]⟩

theorem withSpace_walks : Walks id (items withSpace.getResourceAsStream ['A'])
    [(['A'], .inr ['A'])] .empty spaced :=
  walks_singleton.mpr ⟨2, rfl⟩

/-- The tokens stay: a blank stands between the lines. -/
theorem preservesTokens_withSpace :
    withSpace.PreservesTokens ['A'] ⟨spaced.out, spaced.visited⟩ := by
  refine (preservesTokens_iff withSpace withSpace_acyclic ['A'] 2 ⟨spaced.out, spaced.visited⟩
    rfl).mpr ⟨spaced, spaced, withSpace_walks, withSpace_walks, ?_⟩
  exact .line trivial (.line rfl .nil)

theorem withComment_imports {a b : Resource} : ¬withComment.Imports a b := by
  rintro ⟨p, rfl, text, h_text, line, h_line, -, h_import, rfl⟩
  change (if p = ['A'] then _ else _) = some text at h_text
  split_ifs at h_text with h_A
  obtain rfl := Option.some.inj h_text
  rw [show readLines _ = [['/', '/'],
    ['c', 'o', 'n', 't', 'r', 'a', 'c', 't', ' ', 'A', '\x7b', '\x7d']] by decide] at h_line
  rcases List.mem_pair.mp h_line with rfl | rfl
  · exact absurd h_import (by decide)
  · exact absurd h_import (by decide)

/-- What is appended for it: the line break behind the comment is lost. -/
def commented : Trail Resource (ℕ × Line) :=
  ⟨[(['A'], 0, ['/', '/']),
    (['A'], 1, ['c', 'o', 'n', 't', 'r', 'a', 'c', 't', ' ', 'A', '\x7b', '\x7d'])], [['A']]⟩

/-- The text is `//contract A{}`, which has no tokens. -/
theorem not_preservesTokens_withComment : withComment.Acyclic ∧
    ∃ s, readContractInto withComment.getResourceAsStream 1 .empty ['A'] true = .ok s ∧
      Solidity.scanner.scan none [s.text] = [] ∧ ¬withComment.PreservesTokens ['A'] s := by
  refine ⟨?_, ⟨commented.out, commented.visited⟩, rfl, by decide, ?_⟩
  · intro a h
    obtain ⟨b, h_first, -⟩ := Relation.TransGen.head'_iff.mp h
    exact withComment_imports h_first
  · intro h
    obtain ⟨t, h_t, h_tokens⟩ := h.text
    have h_commented : withComment.IsProgram ['A'] commented := walks_singleton.mpr ⟨1, rfl⟩
    obtain rfl := h_t.unique h_commented
    exact absurd h_tokens (by decide)

end ContractFiles

end Ethiso.Ethereum
