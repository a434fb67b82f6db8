import Mathlib.Data.List.Basic
import Mathlib.Tactic.Common

/-!
# Scanners, and lines that are joined

A scanner splits a text into elements by one character of lookahead: an element is open, and the
next character continues it or starts another one. Some elements are kept, as tokens, others are
dropped, as white space and comments are. At the end of a line the open element ends, or goes on
in the next line.

If lines are joined to one text, without line breaks, the text has other elements: an element may
be continued by the next line, and a comment that should end with its line goes on to the end of
the text. `Joins` says when this does no harm; some of the lines may be repetitions, which should
not be there at all. The text has the tokens of the lines if and only if they can be joined in
this sense (`scan_join_iff`).
-/

namespace Ethiso

/-- The elements of a language, by the states in which they are open. A dropped element is a
single character, or goes on to the end of its line whatever comes (`dropped`). An element that
was continued is one that is dropped in this way, or is kept (`settled`). An element that goes on
over the end of a line is kept (`goes_on`), and is continued as it would be without the end of
the line, or else ends there and not here (`line_end`). -/
structure Scanner (χ σ : Type*) where
  start : χ → σ
  next : σ → χ → Option σ
  lineEnd : σ → Option σ
  kept : σ → Bool
  dropped : ∀ s, kept s = false →
    lineEnd s = none ∧ ((∀ c, next s c = none) ∨ ∀ c, next s c = some s)
  settled : ∀ s c s', next s c = some s' →
    (kept s' = true ∧ ∀ c' s'', next s' c' = some s'' → kept s'' = true) ∨
      (kept s' = false ∧ ∀ c', next s' c' = some s')
  goes_on : ∀ s s', lineEnd s = some s' → lineEnd s' = some s' ∧
    ∀ c, ∃ y, next s c = some y ∧ kept y = true ∧ (lineEnd y = none → ∀ c', next y c' = none)
  line_end : ∀ s s', lineEnd s = some s' → ∀ c, next s c = next s' c ∨
    ∃ y y', next s c = some y ∧ next s' c = some y' ∧ lineEnd y = none ∧ lineEnd y' = some y'

variable {χ σ : Type*}

/-- A token is its state at the end and its characters. -/
abbrev Token (χ σ : Type*) := σ × List χ

namespace Scanner

variable (M : Scanner χ σ)

/-! ### Scanning -/

/-- The element that is open is a token, if it ends here. -/
def close : Option (Token χ σ) → List (Token χ σ)
  | none => []
  | some (s, w) => if M.kept s then [(s, w)] else []

/-- A character: what ends in front of it, and what is open then. -/
def feed : Option (Token χ σ) → χ → List (Token χ σ) × Option (Token χ σ)
  | none, c => ([], some (M.start c, [c]))
  | some (s, w), c =>
    match M.next s c with
    | some s' => ([], some (s', w ++ [c]))
    | none => (M.close (some (s, w)), some (M.start c, [c]))

/-- The characters of a line, without its end. -/
def read (o : Option (Token χ σ)) : List χ → List (Token χ σ) × Option (Token χ σ)
  | [] => ([], o)
  | c :: t => ((M.feed o c).1 ++ (read (M.feed o c).2 t).1, (read (M.feed o c).2 t).2)

/-- The end of a line. -/
def endLine : Option (Token χ σ) → List (Token χ σ) × Option (Token χ σ)
  | none => ([], none)
  | some (s, w) =>
    match M.lineEnd s with
    | some s' => ([], some (s', w))
    | none => (M.close (some (s, w)), none)

/-- The tokens of the lines, an element being open. -/
def scan (o : Option (Token χ σ)) : List (List χ) → List (Token χ σ)
  | [] => M.close o
  | line :: lines =>
    (M.read o line).1 ++ ((M.endLine (M.read o line).2).1 ++
      scan (M.endLine (M.read o line).2).2 lines)

/-- The lines as one, each with whether it is no repetition. -/
def text (lines : List (Bool × List χ)) : List χ := lines.flatMap Prod.snd

/-- The lines that are no repetitions. -/
def program (lines : List (Bool × List χ)) : List (List χ) :=
  (lines.filter Prod.fst).map Prod.snd

/-! ### Joining lines -/

/-- The open element meets the next line of the program as it does over the end of the line. -/
def Meets : Option (Token χ σ) → χ → Prop
  | none, _ => True
  | some (s, _), c =>
    match M.lineEnd s with
    | none => M.next s c = none
    | some s' => M.next s c = M.next s' c

/-- The open element ends here, and at the end of the line. -/
def Ends : Option (Token χ σ) → χ → Prop
  | none, _ => True
  | some (s, _), c => M.lineEnd s = none ∧ M.next s c = none

/-- The element goes on to the end of the text. -/
def Swallows (s : σ) : Prop := M.kept s = false ∧ ∀ c, M.next s c = some s

/-- The lines can be joined, when an element is open. -/
inductive Joins : Option (Token χ σ) → List (Bool × List χ) → Prop
  | nil {o} : Joins o []
  | empty {o b rest} (h : Joins o rest) : Joins o ((b, []) :: rest)
  /-- A line of the program. -/
  | line {o c t rest} (h_o : M.Meets o c) (h : Joins (M.read o (c :: t)).2 rest) :
      Joins o ((true, c :: t) :: rest)
  /-- After an open comment there are no tokens. -/
  | comment {s w rest} (h_s : M.Swallows s) (h : M.scan none (program rest) = []) :
      Joins (some (s, w)) rest
  /-- A line that is repeated has no tokens. -/
  | repeated {o c t rest} (h_o : M.Ends o c) (h_none : (M.read none (c :: t)).1 = [])
      (h_open : ∀ s w, (M.read none (c :: t)).2 = some (s, w) → M.kept s = false)
      (h : Joins (M.read none (c :: t)).2 rest) : Joins o ((false, c :: t) :: rest)
  /-- Such a line ends with what starts a comment, together with what follows. -/
  | commentMark {o c t rest s w c' t' s'} (h_o : M.Ends o c)
      (h_none : (M.read none (c :: t)).1 = []) (h_open : (M.read none (c :: t)).2 = some (s, w))
      (h_rest : text rest = c' :: t') (h_s' : M.next s c' = some s') (h_comment : M.Swallows s')
      (h : M.scan none (program rest) = []) : Joins o ((false, c :: t) :: rest)

variable {M} {o : Option (Token χ σ)} {s s' : σ} {w : List χ} {c : χ} {t t' : List χ}
  {lines : List (List χ)} {rest : List (Bool × List χ)}

/-! ### Reading -/

/-- Reading one character and then the others. -/
theorem read_cons : M.read o (c :: t) =
    ((M.feed o c).1 ++ (M.read (M.feed o c).2 t).1, (M.read (M.feed o c).2 t).2) := rfl

/-- Reading one text and then another. -/
theorem read_append : M.read o (t ++ t') =
    ((M.read o t).1 ++ (M.read (M.read o t).2 t').1, (M.read (M.read o t).2 t').2) := by
  induction t generalizing o with
  | nil => rfl
  | cons c t ih => rw [List.cons_append, read_cons, read_cons, ih, List.append_assoc]

theorem feed_next (h : M.next s c = some s') :
    M.feed (some (s, w)) c = ([], some (s', w ++ [c])) := by
  simp only [feed, h]

/-- The element ends before the character. -/
theorem feed_end (h : M.next s c = none) :
    M.feed (some (s, w)) c = (M.close (some (s, w)), some (M.start c, [c])) := by
  simp only [feed, h]

/-- The element goes on behind the end of the line. -/
theorem endLine_goes_on (h : M.lineEnd s = some s') :
    M.endLine (some (s, w)) = ([], some (s', w)) := by
  simp only [endLine, h]

theorem endLine_ends (h : M.lineEnd s = none) :
    M.endLine (some (s, w)) = (M.close (some (s, w)), none) := by
  simp only [endLine, h]

theorem close_kept (h : M.kept s = true) : M.close (some (s, w)) = [(s, w)] := if_pos h

theorem close_dropped (h : M.kept s = false) : M.close (some (s, w)) = [] :=
  if_neg (Bool.eq_false_iff.mp h)

/-- What goes on over the end of a line is kept. -/
theorem kept_of_lineEnd (h : M.lineEnd s = some s') : M.kept s = true := by
  by_contra h_kept
  rw [Bool.not_eq_true] at h_kept
  rw [(M.dropped s h_kept).1] at h
  cases h

/-- The end of an empty line does nothing. -/
theorem endLine_endLine (o : Option (Token χ σ)) :
    M.endLine (M.endLine o).2 = ([], (M.endLine o).2) := by
  match o with
  | none => rfl
  | some (s, w) =>
    cases h : M.lineEnd s with
    | none =>
      rw [endLine_ends h]
      rfl
    | some s' =>
      rw [endLine_goes_on h]
      exact endLine_goes_on (M.goes_on s s' h).1

/-- Scanning one line and then the others. -/
theorem scan_cons (line : List χ) : M.scan o (line :: lines) =
    (M.read o line).1 ++ ((M.endLine (M.read o line).2).1 ++
      M.scan (M.endLine (M.read o line).2).2 lines) := rfl

/-- A line in two parts. -/
theorem scan_append : M.scan o [t ++ t'] = (M.read o t).1 ++ M.scan (M.read o t).2 [t'] := by
  rw [scan_cons, scan_cons, read_append, List.append_assoc]

/-- An empty line changes nothing at the end of a line. -/
theorem scan_empty :
    M.scan (M.endLine o).2 ([] :: lines) = M.scan (M.endLine o).2 lines := by
  rw [scan_cons]
  change [] ++ ((M.endLine (M.endLine o).2).1 ++ M.scan (M.endLine (M.endLine o).2).2 lines) = _
  rw [endLine_endLine]
  rfl

/-- A comment goes on to the end of the text. -/
theorem read_swallows (h : M.Swallows s) (w t : List χ) :
    ∃ w', M.read (some (s, w)) t = ([], some (s, w')) := by
  induction t generalizing w with
  | nil => exact ⟨w, rfl⟩
  | cons c t ih =>
    obtain ⟨w', h_w'⟩ := ih (w ++ [c])
    refine ⟨w', ?_⟩
    rw [read_cons, feed_next (h.2 c), h_w']
    rfl

/-- The end of the line drops an element that swallows the rest of it. -/
theorem endLine_swallows (h : M.Swallows s) : M.endLine (some (s, w)) = ([], none) := by
  rw [endLine_ends (M.dropped s h.1).1, close_dropped h.1]

theorem scan_swallows (h : M.Swallows s) (w t : List χ) : M.scan (some (s, w)) [t] = [] := by
  obtain ⟨w', h_w'⟩ := read_swallows h w t
  rw [scan_cons, h_w']
  dsimp only
  rw [endLine_swallows h]
  rfl

/-! ### What becomes of an element -/

variable (M) in
/-- The element is a token, whatever comes. -/
def Settled (s : σ) : Prop := M.kept s = true ∧ ∀ c s', M.next s c = some s' → M.kept s' = true

/-- An element that has gone on is settled, or it swallows the line. -/
theorem settled_or_swallows (h : M.next s c = some s') : M.Settled s' ∨ M.Swallows s' :=
  M.settled s c s' h

theorem Settled.next (h : M.Settled s) (h_next : M.next s c = some s') : M.Settled s' := by
  refine (settled_or_swallows h_next).resolve_right fun h_s' => ?_
  exact Bool.eq_false_iff.mp h_s'.1 (h.2 c s' h_next)

/-- What goes on behind the line is settled. -/
theorem settled_of_lineEnd (h : M.lineEnd s = some s') : M.Settled s := by
  refine ⟨kept_of_lineEnd h, fun c y h_y => ?_⟩
  obtain ⟨y', h_y', h_kept, -⟩ := (M.goes_on s s' h).2 c
  rwa [← Option.some.inj (h_y'.symm.trans h_y)]

/-- What is dropped is closed, or goes on to the end of the text. -/
theorem swallows_of_next (h : M.kept s = false) (h_next : M.next s c = some s') :
    M.Swallows s := by
  rcases (M.dropped s h).2 with h_closed | h_swallows
  · rw [h_closed c] at h_next
    cases h_next
  · exact ⟨h, h_swallows⟩

/-- What goes on and swallows nothing is kept. -/
theorem kept_of_next (h : ¬M.Swallows s) (h_next : M.next s c = some s') : M.kept s = true := by
  by_contra h_kept
  rw [Bool.not_eq_true] at h_kept
  exact h (swallows_of_next h_kept h_next)

theorem scan_next (h : M.next s c = some s') :
    M.scan (some (s, w)) ((c :: t) :: lines) = M.scan (some (s', w ++ [c])) (t :: lines) := by
  rw [scan_cons, scan_cons, read_cons, feed_next h]
  rfl

/-- **A settled element** is read to its end, which may be that of the text. By induction on the
text. -/
theorem read_settled (h : M.Settled s) (w t : List χ) :
    (∃ s' w', M.read (some (s, w)) t = ([], some (s', w')) ∧ M.Settled s' ∧ w <+: w') ∨
      ∃ s' w' ts o, M.read (some (s, w)) t = ((s', w') :: ts, o) ∧ w <+: w' := by
  induction t generalizing s w with
  | nil => exact Or.inl ⟨s, w, rfl, h, List.prefix_rfl⟩
  | cons c t ih =>
    rw [read_cons]
    cases h_next : M.next s c with
    -- it ends here and is the first token
    | none =>
      rw [feed_end h_next, close_kept h.1]
      exact Or.inr ⟨s, w, _, _, rfl, List.prefix_rfl⟩
    | some s' =>
      rw [feed_next h_next]
      -- it goes on
      have h_w : w <+: w ++ [c] := List.prefix_append w [c]
      rcases ih (h.next h_next) (w ++ [c]) with ⟨x, w', h_read, h_x, h_w'⟩ |
        ⟨x, w', ts, o, h_read, h_w'⟩
      · exact Or.inl ⟨x, w', by rw [h_read]; rfl, h_x, h_w.trans h_w'⟩
      · exact Or.inr ⟨x, w', ts, o, by rw [h_read]; rfl, h_w.trans h_w'⟩

/-- A settled element is the start of the first token. -/
theorem scan_settled (h : M.Settled s) (w : List χ) (lines : List (List χ)) :
    ∃ s' w' ts, M.scan (some (s, w)) lines = (s', w') :: ts ∧ w <+: w' := by
  induction lines generalizing s w with
  | nil => exact ⟨s, w, [], close_kept h.1, List.prefix_rfl⟩
  | cons line lines ih =>
    rw [scan_cons]
    rcases read_settled h w line with ⟨s', w', h_read, h_s', h_w'⟩ |
      ⟨s', w', ts, o, h_read, h_w'⟩
    · rw [h_read]
      dsimp only
      cases h_end : M.lineEnd s' with
      -- the line ends it
      | none =>
        rw [endLine_ends h_end, close_kept h_s'.1]
        exact ⟨s', w', _, rfl, h_w'⟩
      | some y =>
        -- the next line goes on with it
        rw [endLine_goes_on h_end]
        obtain ⟨x, v, ts, h_scan, h_v⟩ := ih (settled_of_lineEnd (M.goes_on s' y h_end).1) w'
        exact ⟨x, v, ts, h_scan, h_w'.trans h_v⟩
    · rw [h_read]
      exact ⟨s', w', _, rfl, h_w'⟩

/-- An element that goes on over the ends of lines has its state when it ends, or is longer. -/
theorem scan_goes_on (h : M.lineEnd s = some s) (w : List χ) (lines : List (List χ)) :
    ∃ s' w' ts, M.scan (some (s, w)) lines = (s', w') :: ts ∧ w <+: w' ∧ (w' = w → s' = s) := by
  induction lines with
  | nil => exact ⟨s, w, [], close_kept (kept_of_lineEnd h), List.prefix_rfl, fun _ => rfl⟩
  | cons line lines ih =>
    cases line with
    | nil =>
      rw [scan_cons]
      change ∃ s' w' ts, [] ++ ((M.endLine (some (s, w))).1 ++
        M.scan (M.endLine (some (s, w))).2 lines) = (s', w') :: ts ∧ _
      rw [endLine_goes_on h]
      exact ih
    | cons c t =>
      obtain ⟨y, h_y, h_kept, -⟩ := (M.goes_on s s h).2 c
      rw [scan_next h_y]
      obtain ⟨s', w', ts, h_scan, h_w'⟩ :=
        scan_settled ((settled_of_lineEnd h).next h_y) (w ++ [c]) (t :: lines)
      -- the token has become longer, unless nothing followed
      refine ⟨s', w', ts, h_scan, (List.prefix_append w [c]).trans h_w', fun h_eq => ?_⟩
      have h_length := h_w'.length_le
      rw [h_eq, List.length_append, List.length_singleton] at h_length
      omega

/-- An element that was continued is the start of the first token, or there are none. -/
theorem scan_continued (h : M.next s c = some s') (w t : List χ) :
    M.scan (some (s, w)) [c :: t] = [] ∨
      ∃ x w' ts, M.scan (some (s, w)) [c :: t] = (x, w') :: ts ∧ w ++ [c] <+: w' := by
  rw [scan_next h]
  rcases settled_or_swallows h with h_s' | h_s'
  · exact Or.inr (scan_settled h_s' (w ++ [c]) [t])
  · exact Or.inl (scan_swallows h_s' (w ++ [c]) t)

/-- An element that the next character ends is the first token. -/
theorem scan_ends (h : M.kept s = true) (h_next : M.next s c = none) (w t : List χ) :
    ∃ ts, M.scan (some (s, w)) [c :: t] = (s, w) :: ts := by
  rw [scan_cons, read_cons, feed_end h_next, close_kept h]
  exact ⟨_, rfl⟩

/-- An element that is not continued is the first token. -/
theorem scan_closed (h : M.kept s = true) (h_end : M.lineEnd s = none)
    (h_next : ∀ c, M.next s c = none) (w t : List χ) :
    ∃ ts, M.scan (some (s, w)) [t] = (s, w) :: ts := by
  cases t with
  | nil =>
    rw [scan_cons]
    change ∃ ts, [] ++ ((M.endLine (some (s, w))).1 ++ M.scan (M.endLine (some (s, w))).2 []) = _
    rw [endLine_ends h_end, close_kept h]
    exact ⟨_, rfl⟩
  | cons c t => exact scan_ends h (h_next c) w t

theorem scan_empty_line (h : M.kept s = true) (w : List χ) :
    ∃ x ts, M.scan (some (s, w)) [[]] = (x, w) :: ts := by
  rw [scan_cons]
  change ∃ x ts, [] ++ ((M.endLine (some (s, w))).1 ++ M.close (M.endLine (some (s, w))).2) = _
  cases h_end : M.lineEnd s with
  | none =>
    rw [endLine_ends h_end, close_kept h]
    exact ⟨s, _, rfl⟩
  | some s' =>
    rw [endLine_goes_on h_end, close_kept (kept_of_lineEnd (M.goes_on s s' h_end).1)]
    exact ⟨s', _, rfl⟩

/-! ### Whose characters are in a token -/

/-- Some characters of one sort. -/
def Consists (P : χ → Prop) (w : List χ) : Prop := w ≠ [] ∧ ∀ c ∈ w, P c

section Consists

variable {P : χ → Prop}

theorem consists_singleton (h : P c) : Consists P [c] := by
  refine ⟨List.cons_ne_nil c [], fun x h_x => ?_⟩
  rwa [List.mem_singleton.mp h_x]

theorem Consists.concat (h : Consists P w) (h_c : P c) : Consists P (w ++ [c]) := by
  refine ⟨List.append_ne_nil_of_left_ne_nil h.1 [c], fun x h_x => ?_⟩
  rcases List.mem_append.mp h_x with h_x | h_x
  · exact h.2 x h_x
  · rwa [List.mem_singleton.mp h_x]

/-- A word with the others in front is none of the sort. -/
theorem Consists.not_start {w' : List χ} (h : Consists (fun c => ¬P c) w) (h_w : w <+: w') :
    ¬Consists P w' := by
  intro h'
  obtain ⟨c, w, rfl⟩ := List.exists_cons_of_ne_nil h.1
  have h_c : c ∈ c :: w := List.mem_cons_self
  exact h.2 c h_c (h'.2 c (h_w.subset h_c))

variable (M) in
/-- What is kept of an open element is of the sort. -/
def KeptOf (P : χ → Prop) (o : Option (Token χ σ)) : Prop :=
  ∀ s w, o = some (s, w) → M.kept s = true → Consists P w

theorem keptOf_none : M.KeptOf P none := by
  intro s w h
  cases h

/-- What is closed consists of such characters. -/
theorem KeptOf.close (h : M.KeptOf P o) : ∀ x ∈ M.close o, Consists P x.2 := by
  intro x h_x
  match o with
  | none => cases h_x
  | some (s, w) =>
    by_cases h_s : M.kept s = true
    · rw [close_kept h_s] at h_x
      rw [List.mem_singleton.mp h_x]
      exact h s w rfl h_s
    · rw [Bool.not_eq_true] at h_s
      rw [close_dropped h_s] at h_x
      cases h_x

/-- Feeding such a character keeps them so. -/
theorem KeptOf.feed (h : M.KeptOf P o) (h_c : P c) :
    (∀ x ∈ (M.feed o c).1, Consists P x.2) ∧ M.KeptOf P (M.feed o c).2 := by
  have h_start : M.KeptOf P (some (M.start c, [c])) := by
    rintro s w ⟨⟩ -
    exact consists_singleton h_c
  match o with
  | none => exact ⟨fun x h_x => (nomatch h_x), h_start⟩
  | some (s, w) =>
    cases h_next : M.next s c with
    | none =>
      rw [feed_end h_next]
      exact ⟨h.close, h_start⟩
    | some s' =>
      rw [feed_next h_next]
      refine ⟨fun x h_x => (nomatch h_x), ?_⟩
      rintro x v ⟨⟩ h_kept
      -- what is dropped is not kept later
      have h_s : M.kept s = true := by
        by_contra h_s
        rw [Bool.not_eq_true] at h_s
        have h_swallows := swallows_of_next h_s h_next
        rw [← Option.some.inj ((h_swallows.2 c).symm.trans h_next), h_s] at h_kept
        cases h_kept
      exact (h s w rfl h_s).concat h_c

theorem KeptOf.read (h : M.KeptOf P o) (h_t : ∀ c ∈ t, P c) :
    (∀ x ∈ (M.read o t).1, Consists P x.2) ∧ M.KeptOf P (M.read o t).2 := by
  induction t generalizing o with
  | nil => exact ⟨fun x h_x => (nomatch h_x), h⟩
  | cons c t ih =>
    rw [read_cons]
    obtain ⟨h_feed, h_next⟩ := h.feed (h_t c List.mem_cons_self)
    obtain ⟨h_read, h_open⟩ := ih h_next fun x h_x => h_t x (List.mem_cons_of_mem c h_x)
    refine ⟨fun x h_x => ?_, h_open⟩
    exact (List.mem_append.mp h_x).elim (h_feed x) (h_read x)

theorem KeptOf.endLine (h : M.KeptOf P o) :
    (∀ x ∈ (M.endLine o).1, Consists P x.2) ∧ M.KeptOf P (M.endLine o).2 := by
  match o with
  | none => exact ⟨fun x h_x => (nomatch h_x), keptOf_none⟩
  | some (s, w) =>
    cases h_end : M.lineEnd s with
    | none =>
      rw [endLine_ends h_end]
      exact ⟨h.close, keptOf_none⟩
    | some s' =>
      rw [endLine_goes_on h_end]
      refine ⟨fun x h_x => (nomatch h_x), ?_⟩
      rintro x v ⟨⟩ -
      exact h s w rfl (kept_of_lineEnd h_end)

/-- **All tokens** of such lines consist of such characters. By induction on the lines. -/
theorem KeptOf.scan (h : M.KeptOf P o) (h_lines : ∀ line ∈ lines, ∀ c ∈ line, P c) :
    ∀ x ∈ M.scan o lines, Consists P x.2 := by
  induction lines generalizing o with
  | nil => exact h.close
  | cons line lines ih =>
    rw [scan_cons]
    obtain ⟨h_read, h_open⟩ := h.read (h_lines line List.mem_cons_self)
    obtain ⟨h_end, h_next⟩ := h_open.endLine
    intro x h_x
    -- tokens of this line, at its end, or of the lines behind
    rcases List.mem_append.mp h_x with h_x | h_x
    · exact h_read x h_x
    rcases List.mem_append.mp h_x with h_x | h_x
    · exact h_end x h_x
    · exact ih h_next (fun l h_l => h_lines l (List.mem_cons_of_mem line h_l)) x h_x

end Consists

/-! ### Joined lines -/

section Joins

/-- A line of the program. -/
theorem program_true (line : List χ) :
    program ((true, line) :: rest) = line :: program rest := rfl

theorem program_false (line : List χ) : program ((false, line) :: rest) = program rest := rfl

theorem text_cons (b : Bool) (line : List χ) : text ((b, line) :: rest) = line ++ text rest := rfl

/-- The end of the line is met if the element would end anyway. -/
theorem meets_end (h : M.lineEnd s = none) : M.Meets (some (s, w)) c ↔ M.next s c = none := by
  simp only [Meets, h]

theorem meets_goes_on (h : M.lineEnd s = some s') :
    M.Meets (some (s, w)) c ↔ M.next s c = M.next s' c := by
  simp only [Meets, h]

/-- An element meets the next line: it ends as at the end of the line, or goes on. -/
theorem read_meets (h : M.Meets o c) : M.read o (c :: t) =
    ((M.endLine o).1 ++ (M.read (M.endLine o).2 (c :: t)).1,
      (M.read (M.endLine o).2 (c :: t)).2) := by
  match o with
  | none => rfl
  | some (s, w) =>
    cases h_end : M.lineEnd s with
    -- it ends in both cases
    | none =>
      rw [meets_end h_end] at h
      rw [endLine_ends h_end, read_cons, feed_end h]
      rfl
    | some s' =>
      -- it goes on in both cases
      rw [meets_goes_on h_end] at h
      obtain ⟨y, h_y, -⟩ := (M.goes_on s s' h_end).2 c
      rw [endLine_goes_on h_end, read_cons, read_cons, feed_next h_y, feed_next (h ▸ h_y)]
      rfl

theorem Ends.meets (h : M.Ends o c) : M.Meets o c := by
  match o with
  | none => trivial
  | some (s, w) => exact (meets_end h.1).mpr h.2

theorem Ends.endLine (h : M.Ends o c) : (M.endLine o).2 = none := by
  match o with
  | none => rfl
  | some (s, w) => rw [endLine_ends h.1]

/-- What swallows the line does not meet its end. -/
theorem Swallows.not_meets (h : M.Swallows s) : ¬M.Meets (some (s, w)) c := by
  rw [meets_end (M.dropped s h.1).1, h.2 c]
  intro h_eq
  cases h_eq

/-- An empty line joins. -/
theorem joins_empty_iff {b : Bool} : M.Joins o ((b, []) :: rest) ↔ M.Joins o rest := by
  refine ⟨?_, .empty⟩
  intro h
  cases h with
  | empty h => exact h
  | comment h_s h =>
    refine .comment h_s ?_
    cases b with
    | false => exact h
    | true => exact (@scan_empty _ _ M none _).symm.trans h

theorem joins_swallows_iff {b : Bool} (h : M.Swallows s) :
    M.Joins (some (s, w)) ((b, c :: t) :: rest) ↔
      M.scan none (program ((b, c :: t) :: rest)) = [] := by
  refine ⟨?_, .comment h⟩
  intro h_joins
  cases h_joins with
  | line h_o => exact absurd h_o h.not_meets
  | comment _ h_none => exact h_none
  | repeated h_o => exact absurd h_o.meets h.not_meets
  | commentMark h_o => exact absurd h_o.meets h.not_meets

/-- A line of the program joins if it meets the open element. -/
theorem joins_line_iff (h_o : ∀ s w, o = some (s, w) → ¬M.Swallows s) :
    M.Joins o ((true, c :: t) :: rest) ↔ M.Meets o c ∧ M.Joins (M.read o (c :: t)).2 rest := by
  refine ⟨?_, fun h => .line h.1 h.2⟩
  intro h
  cases h with
  | line h_meets h => exact ⟨h_meets, h⟩
  | comment h_s => exact absurd h_s (h_o _ _ rfl)

variable (M) in
/-- What becomes of a line that is repeated, without any token: it is dropped, or starts a
comment. -/
def Vanishes (o : Option (Token χ σ)) (rest : List (Bool × List χ)) : Prop :=
  (∀ s w, o = some (s, w) → M.kept s = false) ∧ M.Joins o rest ∨
    ∃ s w c t s', o = some (s, w) ∧ text rest = c :: t ∧ M.next s c = some s' ∧ M.Swallows s' ∧
      M.scan none (program rest) = []

/-- A line that is none joins if nothing of it remains. -/
theorem joins_repeated_iff (h_o : ∀ s w, o = some (s, w) → ¬M.Swallows s) :
    M.Joins o ((false, c :: t) :: rest) ↔
      M.Ends o c ∧ (M.read none (c :: t)).1 = [] ∧ M.Vanishes (M.read none (c :: t)).2 rest := by
  refine ⟨?_, ?_⟩
  · intro h
    cases h with
    | comment h_s => exact absurd h_s (h_o _ _ rfl)
    | repeated h_ends h_none h_open h => exact ⟨h_ends, h_none, Or.inl ⟨h_open, h⟩⟩
    | commentMark h_ends h_none h_open h_rest h_s' h_comment h =>
      exact ⟨h_ends, h_none, Or.inr ⟨_, _, _, _, _, h_open, h_rest, h_s', h_comment, h⟩⟩
  · rintro ⟨h_ends, h_none, ⟨h_open, h⟩ | ⟨s, w, c', t', s', h_open, h_rest, h_s', h_comment, h⟩⟩
    · exact .repeated h_ends h_none h_open h
    · exact .commentMark h_ends h_none h_open h_rest h_s' h_comment h

variable (M) in
/-- From here on the text has the tokens of the lines. -/
def Same (o : Option (Token χ σ)) (rest : List (Bool × List χ)) : Prop :=
  M.scan o [text rest] = (M.endLine o).1 ++ M.scan (M.endLine o).2 (program rest)

/-- An empty line changes nothing. -/
theorem same_empty_iff {b : Bool} : M.Same o ((b, []) :: rest) ↔ M.Same o rest := by
  unfold Same
  cases b with
  | false => rfl
  | true =>
    rw [program_true, scan_empty]
    rfl

theorem same_swallows_iff (h : M.Swallows s) :
    M.Same (some (s, w)) rest ↔ M.scan none (program rest) = [] := by
  unfold Same
  rw [scan_swallows h, endLine_swallows h]
  exact eq_comm

/-- After a line that is met, the rest decides. -/
theorem same_line_iff (h : M.Meets o c) :
    M.Same o ((true, c :: t) :: rest) ↔ M.Same (M.read o (c :: t)).2 rest := by
  unfold Same
  rw [text_cons, program_true, scan_append, @scan_cons _ _ M (M.endLine o).2, read_meets h,
    List.append_assoc, List.append_cancel_left_eq, List.append_cancel_left_eq]

/-- After a line that is repeated, there are its tokens as well. -/
theorem same_repeated_iff (h : M.Ends o c) :
    M.Same o ((false, c :: t) :: rest) ↔
      (M.read none (c :: t)).1 ++ M.scan (M.read none (c :: t)).2 [text rest] =
        M.scan none (program rest) := by
  unfold Same
  rw [text_cons, program_false, scan_append, read_meets h.meets, h.endLine, List.append_assoc,
    List.append_cancel_left_eq]

/-- A line of the program is met, or the tokens differ. -/
theorem meets_of_same (h_o : ∀ s w, o = some (s, w) → ¬M.Swallows s)
    (h : M.Same o ((true, c :: t) :: rest)) : M.Meets o c := by
  match o with
  | none => trivial
  | some (s, w) =>
    unfold Same at h
    rw [text_cons, program_true] at h
    cases h_end : M.lineEnd s with
    | none =>
      rw [meets_end h_end]
      by_contra h_next
      obtain ⟨s', h_s'⟩ := Option.ne_none_iff_exists'.mp h_next
      have h_kept := kept_of_next (h_o s w rfl) h_s'
      rw [endLine_ends h_end, close_kept h_kept] at h
      -- the first token of the text is longer, if there is one
      rcases scan_continued h_s' w (t ++ text rest) with h_nil | ⟨x, w', ts, h_scan, h_w'⟩
      · exact absurd (h_nil.symm.trans h) (List.cons_ne_nil _ _).symm
      · have h_length := h_w'.length_le
        rw [(Prod.mk.inj (List.cons.inj (h_scan.symm.trans h)).1).2, List.length_append,
          List.length_singleton] at h_length
        omega
    | some s' =>
      rw [meets_goes_on h_end]
      refine (M.line_end s s' h_end c).resolve_right ?_
      rintro ⟨y, y', h_y, h_y', h_y_end, h_y'_end⟩
      obtain ⟨x, h_x, h_kept, h_closed⟩ := (M.goes_on s s' h_end).2 c
      obtain rfl := Option.some.inj (h_x.symm.trans h_y)
      rw [endLine_goes_on h_end, List.nil_append, scan_next h_y'] at h
      obtain ⟨z, w', ts, h_scan, -, h_state⟩ := scan_goes_on h_y'_end (w ++ [c]) (t :: program rest)
      rw [h_scan, List.cons_append, scan_next h_y] at h
      -- the element ends here, in another state
      obtain ⟨ts', h_ts'⟩ := scan_closed h_kept h_y_end (h_closed h_y_end) (w ++ [c])
        (t ++ text rest)
      obtain ⟨rfl, rfl⟩ := Prod.mk.inj (List.cons.inj (h_ts'.symm.trans h)).1
      rw [h_state rfl, h_y'_end] at h_y_end
      cases h_y_end

section Repeated

variable {P : χ → Prop}

/-- The tokens of the lines are of the program. -/
theorem program_consists (h_o : M.KeptOf P o) (h_rest : ∀ x ∈ rest, ∀ c ∈ x.2, P c ↔ x.1 = true) :
    ∀ x ∈ (M.endLine o).1 ++ M.scan (M.endLine o).2 (program rest), Consists P x.2 := by
  obtain ⟨h_end, h_next⟩ := h_o.endLine
  intro x h_x
  refine (List.mem_append.mp h_x).elim (h_end x) (h_next.scan ?_ x)
  intro line h_line c h_c
  obtain ⟨y, h_y, rfl⟩ := List.mem_map.mp h_line
  obtain ⟨h_y, h_true⟩ := List.mem_filter.mp h_y
  exact (h_rest y h_y c h_c).mpr h_true

/-- In front of a line that is repeated the open element ends, or the tokens differ. -/
theorem ends_of_same (h_o : ∀ s w, o = some (s, w) → ¬M.Swallows s) (h_P : M.KeptOf P o)
    (h_c : ¬P c) (h_rest : ∀ x ∈ rest, ∀ c ∈ x.2, P c ↔ x.1 = true)
    (h : M.Same o ((false, c :: t) :: rest)) : M.Ends o c := by
  match o with
  | none => trivial
  | some (s, w) =>
    have h_program := program_consists h_P h_rest
    unfold Same at h
    rw [program_false] at h
    rw [← h, text_cons, List.cons_append] at h_program
    -- a token with the character would not be of the program
    have h_not : ∀ x w' ts, M.scan (some (s, w)) [c :: (t ++ text rest)] = (x, w') :: ts →
        ¬w ++ [c] <+: w' := by
      intro x w' ts h_scan h_w'
      rw [h_scan] at h_program
      have h_mem : c ∈ w' := h_w'.subset (List.mem_append_right w List.mem_cons_self)
      exact h_c ((h_program _ List.mem_cons_self).2 c h_mem)
    have h_next : M.next s c = none := by
      by_contra h_next
      obtain ⟨s', h_s'⟩ := Option.ne_none_iff_exists'.mp h_next
      rcases scan_continued h_s' w (t ++ text rest) with h_nil | ⟨x, w', ts, h_scan, h_w'⟩
      · -- all is swallowed, but the element is a token of the program
        rw [text_cons, List.cons_append, h_nil] at h
        have h_kept := kept_of_next (h_o s w rfl) h_s'
        cases h_end : M.lineEnd s with
        | none =>
          rw [endLine_ends h_end, close_kept h_kept] at h
          cases h
        | some s'' =>
          rw [endLine_goes_on h_end] at h
          obtain ⟨x, w', ts, h_scan, -⟩ :=
            scan_settled (settled_of_lineEnd (M.goes_on s s'' h_end).1) w (program rest)
          rw [h_scan] at h
          cases h
      · exact h_not x w' ts h_scan h_w'
    refine ⟨?_, h_next⟩
    by_contra h_end
    obtain ⟨s', h_s'⟩ := Option.ne_none_iff_exists'.mp h_end
    obtain ⟨y, h_y, -⟩ := (M.goes_on s s' h_s').2 c
    rw [h_y] at h_next
    cases h_next

/-- What is open after a line that is repeated vanishes, or the tokens differ. -/
theorem vanishes_iff (h_P : M.KeptOf (fun c => ¬P c) o)
    (h_rest : ∀ x ∈ rest, ∀ c ∈ x.2, P c ↔ x.1 = true)
    (h_joins : (∀ s w, o = some (s, w) → M.kept s = false) → (M.Same o rest ↔ M.Joins o rest)) :
    M.scan o [text rest] = M.scan none (program rest) ↔ M.Vanishes o rest := by
  have h_dropped : (∀ s w, o = some (s, w) → M.kept s = false) →
      (M.scan o [text rest] = M.scan none (program rest) ↔ M.Same o rest) := by
    intro h_kept
    unfold Same
    match o with
    | none => rfl
    | some (s, w) =>
      have h_s := h_kept s w rfl
      rw [endLine_ends (M.dropped s h_s).1, close_dropped h_s]
      rfl
  have h_program := @program_consists _ _ M none rest P keptOf_none h_rest
  refine ⟨?_, ?_⟩
  · intro h
    by_cases h_kept : ∀ s w, o = some (s, w) → M.kept s = false
    · exact Or.inl ⟨h_kept, (h_joins h_kept).mp ((h_dropped h_kept).mp h)⟩
    · push Not at h_kept
      obtain ⟨s, w, rfl, h_s⟩ := h_kept
      have h_s := Bool.of_not_eq_false h_s
      have h_w := h_P s w rfl h_s
      -- the element is no token of the program, so it is continued to a comment
      have h_not : ∀ x w' ts, M.scan (some (s, w)) [text rest] = (x, w') :: ts → ¬w <+: w' := by
        intro x w' ts h_scan h_w'
        refine h_w.not_start h_w' (h_program (x, w') ?_)
        rw [h_scan] at h
        change _ ∈ M.scan none (program rest)
        rw [← h]
        exact List.mem_cons_self
      cases h_text : text rest with
      | nil =>
        rw [h_text] at h_not
        obtain ⟨x, ts, h_scan⟩ := scan_empty_line h_s w
        exact absurd List.prefix_rfl (h_not x w ts h_scan)
      | cons c t =>
        rw [h_text] at h h_not
        cases h_next : M.next s c with
        | none =>
          obtain ⟨ts, h_scan⟩ := scan_ends h_s h_next w t
          exact absurd List.prefix_rfl (h_not s w ts h_scan)
        | some s' =>
          rcases settled_or_swallows h_next with h_s' | h_s'
          · obtain ⟨x, w', ts, h_scan, h_w'⟩ := scan_settled h_s' (w ++ [c]) [t]
            rw [← scan_next h_next] at h_scan
            exact absurd ((List.prefix_append w [c]).trans h_w') (h_not x w' ts h_scan)
          · rw [scan_next h_next, scan_swallows h_s'] at h
            exact Or.inr ⟨s, w, c, t, s', rfl, h_text, h_next, h_s', h.symm⟩
  · rintro (⟨h_kept, h⟩ | ⟨s, w, c, t, s', rfl, h_text, h_next, h_s', h⟩)
    · exact (h_dropped h_kept).mpr ((h_joins h_kept).mpr h)
    · rw [h_text, scan_next h_next, scan_swallows h_s', h]

end Repeated

/-- **Joined lines** have their tokens if and only if they can be joined. The characters of the
program are those with `P`. -/
theorem same_iff_joins {P : χ → Prop} (h_P : M.KeptOf P o)
    (h_rest : ∀ x ∈ rest, ∀ c ∈ x.2, P c ↔ x.1 = true) : M.Same o rest ↔ M.Joins o rest := by
  induction rest generalizing o with
  | nil => exact iff_of_true rfl .nil
  | cons x rest ih =>
    have h_tail : ∀ y ∈ rest, ∀ c ∈ y.2, P c ↔ y.1 = true := fun y h_y =>
      h_rest y (List.mem_cons_of_mem x h_y)
    have h_head := h_rest x List.mem_cons_self
    obtain ⟨b, _ | ⟨c, t⟩⟩ := x
    · rw [same_empty_iff, joins_empty_iff]
      exact ih h_P h_tail
    by_cases h_swallows : ∃ s w, o = some (s, w) ∧ M.Swallows s
    · obtain ⟨s, w, rfl, h_s⟩ := h_swallows
      rw [same_swallows_iff h_s, joins_swallows_iff h_s]
    have h_o : ∀ s w, o = some (s, w) → ¬M.Swallows s := fun s w h_eq h_s =>
      h_swallows ⟨s, w, h_eq, h_s⟩
    cases b with
    | true =>
      rw [joins_line_iff h_o]
      have h_read := (h_P.read fun d h_d => (h_head d h_d).mpr rfl).2
      refine ⟨?_, ?_⟩
      · intro h
        have h_meets := meets_of_same h_o h
        exact ⟨h_meets, (ih h_read h_tail).mp ((same_line_iff h_meets).mp h)⟩
      · rintro ⟨h_meets, h⟩
        exact (same_line_iff h_meets).mpr ((ih h_read h_tail).mpr h)
    | false =>
      have h_not : ∀ d ∈ c :: t, ¬P d := by
        intro d h_d h_Pd
        cases (h_head d h_d).mp h_Pd
      obtain ⟨h_tokens, h_open⟩ := (@keptOf_none _ _ M fun d => ¬P d).read h_not
      -- what is dropped is of no sort
      have h_vanishes := vanishes_iff h_open h_tail fun h_dropped => ih (fun s w h_eq h_s => by
        rw [h_dropped s w h_eq] at h_s
        cases h_s) h_tail
      rw [joins_repeated_iff h_o, ← h_vanishes]
      refine ⟨?_, ?_⟩
      · intro h
        have h_ends := ends_of_same h_o h_P (h_not c List.mem_cons_self) h_tail h
        have h_eq := (same_repeated_iff h_ends).mp h
        have h_nil : (M.read none (c :: t)).1 = [] := by
          rw [List.eq_nil_iff_forall_not_mem]
          intro x h_x
          have h_program := @program_consists _ _ M none rest P keptOf_none h_tail x
          change x ∈ M.scan none (program rest) → _ at h_program
          rw [← h_eq] at h_program
          exact (h_tokens x h_x).not_start List.prefix_rfl
            (h_program (List.mem_append_left _ h_x))
        rw [h_nil, List.nil_append] at h_eq
        exact ⟨h_ends, h_nil, h_eq⟩
      · rintro ⟨h_ends, h_nil, h_eq⟩
        rw [same_repeated_iff h_ends, h_nil]
        exact h_eq

/-- From the start. -/
theorem scan_join_iff {P : χ → Prop} (h_rest : ∀ x ∈ rest, ∀ c ∈ x.2, P c ↔ x.1 = true) :
    M.scan none [text rest] = M.scan none (program rest) ↔ M.Joins none rest :=
  same_iff_joins keptOf_none h_rest

end Joins

/-! ### Characters with something more -/

section Comap

variable {χ' : Type*} (M) (g : χ' → χ)

/-- A scanner that looks at a part of the characters only. -/
def comap : Scanner χ' σ where
  start c := M.start (g c)
  next s c := M.next s (g c)
  lineEnd := M.lineEnd
  kept := M.kept
  dropped s h := ⟨(M.dropped s h).1, (M.dropped s h).2.imp (fun h c => h (g c)) fun h c => h (g c)⟩
  settled s c s' h := (M.settled s (g c) s' h).imp
    (fun h => ⟨h.1, fun c' => h.2 (g c')⟩) fun h => ⟨h.1, fun c' => h.2 (g c')⟩
  goes_on s s' h := ⟨(M.goes_on s s' h).1, fun c => by
    obtain ⟨y, h_y, h_kept, h_closed⟩ := (M.goes_on s s' h).2 (g c)
    exact ⟨y, h_y, h_kept, fun h_end c' => h_closed h_end (g c')⟩⟩
  line_end s s' h c := M.line_end s s' h (g c)

/-- The part of a token. -/
def mapToken : Token χ' σ → Token χ σ := Prod.map id (List.map g)

variable {M g} {o : Option (Token χ' σ)} {x : Token χ' σ}

/-- Closing, through the map. -/
theorem comap_close : ((M.comap g).close o).map (mapToken g) = M.close (o.map (mapToken g)) := by
  match o with
  | none => rfl
  | some (s, w) =>
    cases h : M.kept s with
    | false =>
      rw [@close_dropped _ _ (M.comap g) s w h]
      exact (close_dropped h).symm
    | true =>
      rw [@close_kept _ _ (M.comap g) s w h]
      exact (close_kept h).symm

/-- Feeding, through the map. -/
theorem comap_feed (c : χ') :
    (((M.comap g).feed o c).1.map (mapToken g), ((M.comap g).feed o c).2.map (mapToken g)) =
      M.feed (o.map (mapToken g)) (g c) := by
  match o with
  | none => rfl
  | some (s, w) =>
    have h_close := @comap_close _ _ M _ g (some (s, w))
    cases h : M.next s (g c) with
    | none =>
      rw [@feed_end _ _ (M.comap g) s w c h, h_close]
      exact (feed_end h).symm
    | some s' =>
      rw [@feed_next _ _ (M.comap g) s s' w c h]
      refine Eq.trans ?_ (feed_next h).symm
      simp [mapToken]

/-- Reading, through the map. -/
theorem comap_read (t : List χ') :
    (((M.comap g).read o t).1.map (mapToken g), ((M.comap g).read o t).2.map (mapToken g)) =
      M.read (o.map (mapToken g)) (t.map g) := by
  induction t generalizing o with
  | nil => rfl
  | cons c t ih =>
    rw [List.map_cons, read_cons, read_cons, ← comap_feed c, ← ih, List.map_append]

/-- The end of a line, through the map. -/
theorem comap_endLine :
    (((M.comap g).endLine o).1.map (mapToken g), ((M.comap g).endLine o).2.map (mapToken g)) =
      M.endLine (o.map (mapToken g)) := by
  match o with
  | none => rfl
  | some (s, w) =>
    have h_close := @comap_close _ _ M _ g (some (s, w))
    cases h : M.lineEnd s with
    | none =>
      rw [@endLine_ends _ _ (M.comap g) s w h, h_close]
      exact (endLine_ends h).symm
    | some s' =>
      rw [@endLine_goes_on _ _ (M.comap g) s s' w h]
      exact (endLine_goes_on h).symm

/-- The tokens are the same, but for what the characters have more. -/
theorem comap_scan (lines : List (List χ')) :
    ((M.comap g).scan o lines).map (mapToken g) =
      M.scan (o.map (mapToken g)) (lines.map (List.map g)) := by
  induction lines generalizing o with
  | nil => exact comap_close
  | cons line lines ih =>
    rw [List.map_cons, scan_cons, scan_cons, List.map_append, List.map_append, ih,
      ← comap_read line, ← comap_endLine]

end Comap

end Scanner

end Ethiso
