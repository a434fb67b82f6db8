import Ethiso.Framework.Scanner

/-!
# The tokens of Solidity

A scanner for Solidity, as far as it matters where a token ends. A comment to the end of its line
is dropped, as white space is. A comment between `/*` and `*/` is kept, since the compiler reads
documentation from it, and may go on over the ends of lines. Strings may not: where the end of a
line is escaped, there is a backslash that escapes something else if the line break is lost.

Letters that are written together with a number are taken to belong to it; that it is well-formed,
or that a string is closed, is seen from the state at the end. The operators are those of
Solidity `^0.4`.
-/

namespace Ethiso.Solidity

/-- What is open. -/
inductive Element
  | space
  | word (text : List Char)
  | zero
  | number
  | fraction
  | exponent
  | power
  | hexNumber
  | slash
  | point
  | operator (text : List Char)
  | string (quote : Char)
  | escape (quote : Char)
  | stringEnd
  | lineComment
  | comment
  | commentStar
  | commentEnd
  | illegal
deriving DecidableEq

/-- White space. -/
def isWhiteSpace (c : Char) : Bool := c = ' ' || c = '\t' || c = '\n' || c = '\r'

/-- A digit. -/
def isDecimalDigit (c : Char) : Bool := '0' ≤ c && c ≤ '9'

/-- What a word can begin with. -/
def isIdentifierStart (c : Char) : Bool :=
  c = '_' || c = '$' || ('a' ≤ c && c ≤ 'z') || ('A' ≤ c && c ≤ 'Z')

/-- And go on with. -/
def isIdentifierPart (c : Char) : Bool := isIdentifierStart c || isDecimalDigit c

/-- The operators and brackets, without those that start with a slash or a point. Each is made
from shorter ones. -/
def operators : List (List Char) :=
  [['('], [')'], ['['], [']'], ['\x7b'], ['\x7d'], [':'], [';'], ['?'], [','], ['~'],
    ['='], ['=', '='], ['=', '>'], ['!'], ['!', '='],
    ['+'], ['+', '+'], ['+', '='], ['-'], ['-', '-'], ['-', '='],
    ['*'], ['*', '*'], ['*', '='], ['%'], ['%', '='],
    ['|'], ['|', '|'], ['|', '='], ['&'], ['&', '&'], ['&', '='], ['^'], ['^', '='],
    ['<'], ['<', '='], ['<', '<'], ['<', '<', '='],
    ['>'], ['>', '='], ['>', '>'], ['>', '>', '='], ['>', '>', '>'], ['>', '>', '>', '=']]

/-- What an element begins with its first character. -/
def start (c : Char) : Element :=
  if isWhiteSpace c then .space
  else if isIdentifierStart c then .word [c]
  else if c = '0' then .zero
  else if isDecimalDigit c then .number
  else if c = '/' then .slash
  else if c = '.' then .point
  else if c = '"' || c = '\'' then .string c
  else if operators.contains [c] then .operator [c]
  else .illegal

/-- What may follow in front of the point. -/
def nextOfNumber (c : Char) : Option Element :=
  if c = 'e' || c = 'E' then some .exponent
  else if isIdentifierPart c then some .number
  else if c = '.' then some .fraction
  else none

/-- How an element goes on, if it does. -/
def next : Element → Char → Option Element
  | .word text, c =>
    if isIdentifierPart c then some (.word (text ++ [c]))
    else if text = ['h', 'e', 'x'] && (c = '"' || c = '\'') then some (.string c)
    else none
  | .zero, c => if c = 'x' || c = 'X' then some .hexNumber else nextOfNumber c
  | .number, c => nextOfNumber c
  | .fraction, c =>
    if c = 'e' || c = 'E' then some .exponent
    else if isIdentifierPart c then some .fraction
    else none
  | .exponent, c => if c = '+' || c = '-' || isIdentifierPart c then some .power else none
  | .power, c => if isIdentifierPart c then some .power else none
  | .hexNumber, c => if isIdentifierPart c then some .hexNumber else none
  | .slash, c =>
    if c = '/' then some .lineComment
    else if c = '*' then some .comment
    else if c = '=' then some (.operator ['/', '='])
    else none
  | .point, c => if isDecimalDigit c then some .fraction else none
  | .operator text, c =>
    if operators.contains (text ++ [c]) then some (.operator (text ++ [c])) else none
  | .string quote, c =>
    if c = quote then some .stringEnd
    else if c = '\\' then some (.escape quote)
    else some (.string quote)
  | .escape quote, _ => some (.string quote)
  | .lineComment, _ => some .lineComment
  | .comment, c => if c = '*' then some .commentStar else some .comment
  | .commentStar, c =>
    if c = '/' then some .commentEnd
    else if c = '*' then some .commentStar
    else some .comment
  | .space, _ | .stringEnd, _ | .commentEnd, _ | .illegal, _ => none

/-- What goes on behind the end of the line: comments in `/*` only. -/
def lineEnd : Element → Option Element
  | .comment | .commentStar => some .comment
  | _ => none

/-- Which elements are tokens or may become one. -/
def kept : Element → Bool
  | .space | .lineComment => false
  | _ => true

/-- A number goes on as one. -/
theorem nextOfNumber_cases {c : Char} {s : Element} (h : nextOfNumber c = some s) :
    s = .exponent ∨ s = .number ∨ s = .fraction := by
  unfold nextOfNumber at h
  split_ifs at h
  · exact Or.inl (Option.some.inj h).symm
  · exact Or.inr (Or.inl (Option.some.inj h).symm)
  · exact Or.inr (Or.inr (Option.some.inj h).symm)

/-- An element that was continued is a comment to the end of its line, or something other than
the slash that may start one. -/
theorem next_cases {s s' : Element} {c : Char} (h : next s c = some s') :
    s' = .lineComment ∨ (kept s' = true ∧ s' ≠ .slash) := by
  -- the states of a number have one table
  have h_number : nextOfNumber c = some s' → kept s' = true ∧ s' ≠ .slash := by
    intro h_next
    rcases nextOfNumber_cases h_next with rfl | rfl | rfl
    · exact ⟨rfl, nofun⟩
    · exact ⟨rfl, nofun⟩
    · exact ⟨rfl, nofun⟩
  cases s with
  | space | stringEnd | commentEnd | illegal => cases h
  | number => exact Or.inr (h_number h)
  | lineComment => exact Or.inl (Option.some.inj h).symm
  | escape quote =>
    obtain rfl := Option.some.inj h
    exact Or.inr ⟨rfl, nofun⟩
  | _ =>
    -- the other states, by the characters that they distinguish
    simp only [next] at h
    split_ifs at h
    all_goals first
      | exact Or.inr (h_number h)
      | obtain rfl := Option.some.inj h
        first
          | exact Or.inl rfl
          | exact Or.inr ⟨rfl, nofun⟩

/-- Only a slash becomes such a comment. -/
theorem kept_next {s s' : Element} {c : Char} (h_s : kept s = true) (h_slash : s ≠ .slash)
    (h : next s c = some s') : kept s' = true := by
  -- a kept element begins no dropped one: only a slash does
  refine (next_cases h).elim ?_ And.left
  rintro rfl
  cases s with
  | space | lineComment => cases h_s
  | slash => exact absurd rfl h_slash
  | stringEnd | commentEnd | illegal => cases h
  | number => rcases nextOfNumber_cases h with h | h | h <;> cases h
  | escape quote => cases h
  | _ =>
    simp only [next] at h
    split_ifs at h
    all_goals first
      | cases h
      | rcases nextOfNumber_cases h with h | h | h <;> cases h

/-- The scanner of Solidity. -/
def scanner : Scanner Char Element where
  start := start
  next := next
  lineEnd := lineEnd
  kept := kept
  dropped := by
    intro s h_s
    cases s with
    | space => exact ⟨rfl, Or.inl fun _ => rfl⟩
    | lineComment => exact ⟨rfl, Or.inr fun _ => rfl⟩
    | _ => cases h_s
  settled := by
    intro s c s' h
    rcases next_cases h with rfl | ⟨h_kept, h_slash⟩
    · exact Or.inr ⟨rfl, fun _ => rfl⟩
    · exact Or.inl ⟨h_kept, fun c' s'' h_s'' => kept_next h_kept h_slash h_s''⟩
  goes_on := by
    intro s s' h
    cases s with
    | comment =>
      obtain rfl := Option.some.inj h
      refine ⟨rfl, fun c => ?_⟩
      by_cases h_c : c = '*'
      · exact ⟨.commentStar, if_pos h_c, rfl, nofun⟩
      · exact ⟨.comment, if_neg h_c, rfl, nofun⟩
    | commentStar =>
      obtain rfl := Option.some.inj h
      refine ⟨rfl, fun c => ?_⟩
      by_cases h_slash : c = '/'
      · exact ⟨.commentEnd, if_pos h_slash, rfl, fun _ _ => rfl⟩
      by_cases h_c : c = '*'
      · exact ⟨.commentStar, (if_neg h_slash).trans (if_pos h_c), rfl, nofun⟩
      · exact ⟨.comment, (if_neg h_slash).trans (if_neg h_c), rfl, nofun⟩
    | _ => cases h
  line_end := by
    intro s s' h c
    cases s with
    | comment =>
      obtain rfl := Option.some.inj h
      exact Or.inl rfl
    | commentStar =>
      obtain rfl := Option.some.inj h
      by_cases h_slash : c = '/'
      · -- the star and the slash are not in one line
        subst h_slash
        exact Or.inr ⟨.commentEnd, .comment, rfl, rfl, rfl, rfl⟩
      · exact Or.inl (if_neg h_slash)
    | _ => cases h

/-- Two lines: `a++//b` and `c 1.2`. -/
example : (scanner.scan none [['a', '+', '+', '/', '/', 'b'], ['c', ' ', '1', '.', '2']]).map
    Prod.snd = [['a'], ['+', '+'], ['c'], ['1', '.', '2']] := by decide

end Ethiso.Solidity
