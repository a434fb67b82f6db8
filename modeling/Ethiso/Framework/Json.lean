import Mathlib.Data.List.TakeWhile
import Mathlib.Tactic.Common

/-!
# JSON texts

The grammar of JSON over UTF-16 code units, which is what a parser of a Java or a JavaScript string
works on: white space, numbers, strings with their escapes, arrays and objects (`Reads`). A text
may be the text of a value (`IsText`), and it is that of one value at most (`IsText.unique`), so
that one may say what it parses as (`Parses`). Objects keep all their members, in order, as the
grammar allows a name more than once.

Two lemmas are for programs that print a string between quotes as it is. Strings with nothing to
escape are read as they are (`body_plain`). Another string, in front of a comma and a quote, is
not read as itself, whatever it does to the rest of the text (`plain_of_body`).
-/

namespace Ethiso.Json

/-- A list of UTF-16 code units. -/
abbrev Text := List UInt16

/-! ### Code units -/

abbrev quote : UInt16 := 0x22
abbrev backslash : UInt16 := 0x5C
abbrev comma : UInt16 := 0x2C
abbrev colon : UInt16 := 0x3A
abbrev openBracket : UInt16 := 0x5B
abbrev closeBracket : UInt16 := 0x5D
abbrev openBrace : UInt16 := 0x7B
abbrev closeBrace : UInt16 := 0x7D
abbrev minus : UInt16 := 0x2D
abbrev plus : UInt16 := 0x2B
abbrev point : UInt16 := 0x2E
/-- The letter of the escapes by a number. -/
abbrev letterU : UInt16 := 0x75

/-- White space. -/
def isSpace (u : UInt16) : Bool := u = 0x20 || u = 0x09 || u = 0x0A || u = 0x0D

/-- A digit. -/
def isDigit (u : UInt16) : Bool := 0x30 ≤ u.toNat && u.toNat ≤ 0x39

/-- The letter of an exponent. -/
def isExponent (u : UInt16) : Bool := u = 0x65 || u = 0x45

/-- May stand for itself in a string. -/
def isPlain (u : UInt16) : Bool := 0x20 ≤ u.toNat && u != quote && u != backslash

/-- What a backslash and one more code unit stand for. -/
def unescape (u : UInt16) : Option UInt16 :=
  if u = quote || u = backslash || u = 0x2F then some u
  else if u = 0x62 then some 0x08
  else if u = 0x66 then some 0x0C
  else if u = 0x6E then some 0x0A
  else if u = 0x72 then some 0x0D
  else if u = 0x74 then some 0x09
  else none

/-- A hexadecimal digit. -/
def hexDigit (u : UInt16) : Option ℕ :=
  if isDigit u then some (u.toNat - 0x30)
  else if 0x61 ≤ u.toNat && u.toNat ≤ 0x66 then some (u.toNat - 0x61 + 10)
  else if 0x41 ≤ u.toNat && u.toNat ≤ 0x46 then some (u.toNat - 0x41 + 10)
  else none

/-- The number of four hexadecimal digits. -/
def hexNumber (a b c d : UInt16) : Option UInt16 := do
  return UInt16.ofNat
    ((((← hexDigit a) * 16 + (← hexDigit b)) * 16 + (← hexDigit c)) * 16 + (← hexDigit d))

/-! ### The grammar -/

/-- A value. Numbers are kept as they are written. -/
inductive Value
  | null
  | bool (b : Bool)
  | number (text : Text)
  | string (s : Text)
  | array (elements : List Value)
  | object (members : List (Text × Value))

/-- White space is left out from the front. -/
inductive Space : Text → Text → Prop
  | done {t} : Space t t
  | step {u t r} (h_u : isSpace u = true) (h : Space t r) : Space (u :: t) r

/-- What stands after an opening quote is read as a string, with the closing quote. -/
inductive Body : Text → Text → Text → Prop
  | close {r} : Body (quote :: r) [] r
  | plain {u t s r} (h_u : isPlain u = true) (h : Body t s r) : Body (u :: t) (u :: s) r
  | escape {e v t s r} (h_e : unescape e = some v) (h : Body t s r) :
      Body (backslash :: e :: t) (v :: s) r
  | unicode {a b c d v t s r} (h_v : hexNumber a b c d = some v) (h : Body t s r) :
      Body (backslash :: letterU :: a :: b :: c :: d :: t) (v :: s) r

/-- Digits, at least one. -/
def IsDigits (t : Text) : Prop := t ≠ [] ∧ ∀ u ∈ t, isDigit u = true

/-- An integer, a fraction and an exponent. An integer does not start with a zero, unless it
is zero. -/
def IsNumber (t : Text) : Prop :=
  ∃ sign int frac exp, t = sign ++ (int ++ (frac ++ exp)) ∧
    (sign = [] ∨ sign = [minus]) ∧
    (IsDigits int ∧ (int.head? = some 0x30 → int = [0x30])) ∧
    (frac = [] ∨ ∃ ds, frac = point :: ds ∧ IsDigits ds) ∧
    (exp = [] ∨ ∃ e sign ds, exp = e :: (sign ++ ds) ∧ isExponent e = true ∧
      (sign = [] ∨ sign = [minus] ∨ sign = [plus]) ∧ IsDigits ds)

/-- `null`, `true` and `false` -/
def literals : List (Text × Value) :=
  [([0x6E, 0x75, 0x6C, 0x6C], .null), ([0x74, 0x72, 0x75, 0x65], .bool true),
    ([0x66, 0x61, 0x6C, 0x73, 0x65], .bool false)]

/-- The name of a member and the colon, with white space. -/
def Name (t k r : Text) : Prop :=
  ∃ t₁ t₂, Space t (quote :: t₁) ∧ Body t₁ k t₂ ∧ Space t₂ (colon :: r)

/-- What may be read: a value, a value with white space around it, elements and members up to
the bracket that closes them. -/
inductive Phrase
  | value (j : Value)
  | item (j : Value)
  | elements (l : List Value)
  | members (l : List (Text × Value))

/-- A text starts with a phrase and goes on with another text. -/
inductive Reads : Phrase → Text → Text → Prop
  | literal {w j r} (h : (w, j) ∈ literals) : Reads (.value j) (w ++ r) r
  | number {n r} (h : IsNumber n) : Reads (.value (.number n)) (n ++ r) r
  | string {t s r} (h : Body t s r) : Reads (.value (.string s)) (quote :: t) r
  | noElements {t r} (h : Space t (closeBracket :: r)) :
      Reads (.value (.array [])) (openBracket :: t) r
  | array {t l r} (h : Reads (.elements l) t r) : Reads (.value (.array l)) (openBracket :: t) r
  | noMembers {t r} (h : Space t (closeBrace :: r)) : Reads (.value (.object [])) (openBrace :: t) r
  | object {t l r} (h : Reads (.members l) t r) : Reads (.value (.object l)) (openBrace :: t) r
  | item {t t₁ t₂ j r} (h_before : Space t t₁) (h : Reads (.value j) t₁ t₂)
      (h_after : Space t₂ r) : Reads (.item j) t r
  | lastElement {t j r} (h : Reads (.item j) t (closeBracket :: r)) : Reads (.elements [j]) t r
  | element {t t₁ j l r} (h : Reads (.item j) t (comma :: t₁)) (h_l : Reads (.elements l) t₁ r) :
      Reads (.elements (j :: l)) t r
  | lastMember {t t₁ k j r} (h_k : Name t k t₁) (h : Reads (.item j) t₁ (closeBrace :: r)) :
      Reads (.members [(k, j)]) t r
  | member {t t₁ t₂ k j l r} (h_k : Name t k t₁) (h : Reads (.item j) t₁ (comma :: t₂))
      (h_l : Reads (.members l) t₂ r) : Reads (.members ((k, j) :: l)) t r

/-- The text is that of the value. -/
def IsText (t : Text) (j : Value) : Prop := Reads (.item j) t []

/-- The text is that of the value, and of no other. -/
def Parses (t : Text) (j : Value) : Prop := ∀ j', IsText t j' ↔ j' = j

/-! ### White space and strings -/

section Body

variable {t s r r' : Text} {u : UInt16}

/-- Without white space nothing is skipped. -/
theorem Space.eq_of_cons (h : Space (u :: t) r) (h_u : isSpace u = false) : r = u :: t := by
  cases h with
  | done => rfl
  | step h_space => rw [h_u] at h_space; cases h_space

/-- No white space in front. -/
def Stops (t : Text) : Prop := ∀ u ∈ t.head?, isSpace u = false

/-- White space is skipped as far as it goes. -/
theorem Space.unique (h : Space t r) (h_r : Stops r) (h' : Space t r') (h_r' : Stops r') :
    r = r' := by
  induction h with
  | done =>
    cases h' with
    | done => rfl
    | step h_u => rw [h_r _ rfl] at h_u; cases h_u
  | step h_u _ ih =>
    cases h' with
    | done => rw [h_r' _ rfl] at h_u; cases h_u
    | step _ h' => exact ih h_r h'

theorem Space.append (h : Space t r) (w : Text) : Space (t ++ w) (r ++ w) := by
  induction h with
  | done => exact .done
  | step h_u _ ih => exact .step h_u ih

theorem Body.append (h : Body t s r) (w : Text) : Body (t ++ w) s (r ++ w) := by
  induction h with
  | close => exact .close
  | plain h_u _ ih => exact .plain h_u ih
  | escape h_e _ ih => exact .escape h_e ih
  | unicode h_v _ ih => exact .unicode h_v ih

/-- A quote ends the body. -/
theorem body_quote (h : Body (quote :: t) s r) : s = [] ∧ r = t := by
  generalize h_t : quote :: t = t' at h
  cases h with
  | close => exact ⟨rfl, (List.cons.inj h_t).2.symm⟩
  | plain h_u =>
    rw [← (List.cons.inj h_t).1] at h_u
    exact absurd h_u (by decide)
  | escape => exact absurd (List.cons.inj h_t).1 (by decide)
  | unicode => exact absurd (List.cons.inj h_t).1 (by decide)

/-- A plain character is part of it. -/
theorem body_cons (h_u : isPlain u = true) (h : Body (u :: t) s r) :
    ∃ s', s = u :: s' ∧ Body t s' r := by
  generalize h_t : u :: t = t' at h
  cases h with
  -- the body does not begin with a quote
  | close =>
    rw [(List.cons.inj h_t).1] at h_u
    exact absurd h_u (by decide)
  | plain _ h =>
    obtain ⟨rfl, rfl⟩ := List.cons.inj h_t
    exact ⟨_, rfl, h⟩
  | escape =>
    rw [(List.cons.inj h_t).1] at h_u
    exact absurd h_u (by decide)
  -- nor with a backslash
  | unicode =>
    rw [(List.cons.inj h_t).1] at h_u
    exact absurd h_u (by decide)

/-- After a backslash, there is an escape, or the number of a code unit. -/
theorem body_backslash (h : Body (backslash :: t) s r) :
    (∃ e v t' s', t = e :: t' ∧ s = v :: s' ∧ unescape e = some v ∧ Body t' s' r) ∨
      ∃ a b c d v t' s', t = letterU :: a :: b :: c :: d :: t' ∧ s = v :: s' ∧
        hexNumber a b c d = some v ∧ Body t' s' r := by
  generalize h_t : backslash :: t = t' at h
  cases h with
  | close => exact absurd (List.cons.inj h_t).1 (by decide)
  | plain h_u =>
    rw [← (List.cons.inj h_t).1] at h_u
    exact absurd h_u (by decide)
  | escape h_e h => exact Or.inl ⟨_, _, _, _, (List.cons.inj h_t).2, rfl, h_e, h⟩
  | unicode h_v h => exact Or.inr ⟨_, _, _, _, _, _, _, (List.cons.inj h_t).2, rfl, h_v, h⟩

theorem unescape_letterU : unescape letterU = none := by decide

/-- **A body is read in one way.** By induction on the body. -/
theorem Body.unique {s' : Text} (h : Body t s r) (h' : Body t s' r') : s = s' ∧ r = r' := by
  induction h generalizing s' with
  | close =>
    obtain ⟨rfl, rfl⟩ := body_quote h'
    exact ⟨rfl, rfl⟩
  | plain h_u _ ih =>
    obtain ⟨s', rfl, h_s'⟩ := body_cons h_u h'
    obtain ⟨rfl, rfl⟩ := ih h_s'
    exact ⟨rfl, rfl⟩
  -- an escape is read by its letter, or by four digits
  | escape h_e _ ih =>
    rcases body_backslash h' with ⟨e, v, t', s', h_t, rfl, h_v, h'⟩ |
      ⟨a, b, c, d, v, t', s', h_t, rfl, -, h'⟩
    · obtain ⟨rfl, rfl⟩ := List.cons.inj h_t
      obtain ⟨rfl, rfl⟩ := ih h'
      rw [Option.some.inj (h_e.symm.trans h_v)]
      exact ⟨rfl, rfl⟩
    · rw [(List.cons.inj h_t).1, unescape_letterU] at h_e
      cases h_e
  | unicode h_v _ ih =>
    rcases body_backslash h' with ⟨e, v, t', s', h_t, rfl, h_e, h'⟩ |
      ⟨a, b, c, d, v, t', s', h_t, rfl, h_v', h'⟩
    · rw [← (List.cons.inj h_t).1, unescape_letterU] at h_e
      cases h_e
    · cases h_t
      obtain ⟨rfl, rfl⟩ := ih h'
      rw [Option.some.inj (h_v.symm.trans h_v')]
      exact ⟨rfl, rfl⟩

/-- A string with nothing to escape is read as it is. -/
theorem body_plain (h : ∀ u ∈ s, isPlain u = true) : Body (s ++ quote :: r) s r := by
  induction s with
  | nil => exact .close
  | cons u s ih =>
    exact .plain (h u List.mem_cons_self) (ih fun v h_v => h v (List.mem_cons_of_mem u h_v))

/-- What a body can begin with. -/
theorem body_head (h : Body (u :: t) s r) : u = quote ∨ u = backslash ∨ isPlain u = true := by
  cases h with
  | close => exact Or.inl rfl
  | plain h_u => exact Or.inr (Or.inr h_u)
  | escape => exact Or.inr (Or.inl rfl)
  | unicode => exact Or.inr (Or.inl rfl)

/-- A number of four hexadecimal digits has no quote in it. -/
theorem hexNumber_ne_quote {a b c d v : UInt16} (h : hexNumber a b c d = some v) :
    quote ∉ [letterU, a, b, c, d] := by
  have h_quote : hexDigit quote = none := by decide
  have h_letter : quote ≠ letterU := by decide
  unfold hexNumber at h
  simp only [List.mem_cons, List.not_mem_nil, or_false, not_or]
  refine ⟨h_letter, ?_, ?_, ?_, ?_⟩ <;>
  · rintro rfl
    simp [h_quote] at h

/-- A part without `u` of a text with a `u` is in front of it. -/
theorem append_eq_of_notMem {w : Text} (h_u : u ∉ w) (h : s ++ u :: r = w ++ t) :
    ∃ s', s = w ++ s' ∧ t = s' ++ u :: r := by
  rcases List.append_eq_append_iff.mp h with ⟨w', rfl, h_r⟩ | ⟨s', rfl, rfl⟩
  · cases w' with
    | nil => exact ⟨[], by simp, h_r.symm⟩
    | cons x w' =>
      rw [(List.cons.inj h_r).1] at h_u
      exact absurd (List.mem_append_right _ List.mem_cons_self) h_u
  · exact ⟨s', rfl, rfl⟩

theorem getLast?_cons_of_some {v : UInt16} (h : t.getLast? = some v) :
    (u :: t).getLast? = some v := by
  rw [List.getLast?_cons, h]
  rfl

/-- What a string is read as in front of a comma and a quote, if there is something to escape: it
is shorter, or the quote after the string is escaped and it ends with the comma. -/
theorem body_cases {v : Text} (h : Body (s ++ quote :: comma :: quote :: t) v r) :
    ((∀ u ∈ s, isPlain u = true) ∧ v = s) ∨ v.length < s.length ∨
      (v.getLast? = some comma ∧ s.getLast? = some backslash) := by
  induction h_n : s.length using Nat.strong_induction_on generalizing s v with
  | _ n ih =>
    subst h_n
    cases s with
    | nil => exact Or.inl ⟨by simp, (body_quote h).1⟩
    | cons u s =>
      rcases body_head h with rfl | rfl | h_u
      · -- the string ends here
        rw [(body_quote h).1]
        exact Or.inr (Or.inl (Nat.succ_pos _))
      · rcases body_backslash h with ⟨e, w, t', v', h_t, rfl, -, h'⟩ |
          ⟨a, b, c, d, w, t', v', h_t, rfl, h_w, h'⟩
        · cases s with
          | nil =>
            -- the quote after the string is escaped
            obtain ⟨rfl, rfl⟩ := List.cons.inj h_t
            obtain ⟨v', rfl, h_v'⟩ := body_cons (by decide) h'
            rw [(body_quote h_v').1]
            exact Or.inr (Or.inr ⟨rfl, rfl⟩)
          | cons e' s =>
            obtain ⟨rfl, rfl⟩ := List.cons.inj h_t
            have h_lt : s.length < (backslash :: e' :: s).length := by
              simp only [List.length_cons]
              omega
            rcases ih s.length h_lt h' rfl with ⟨-, rfl⟩ | h_less | ⟨h_comma, h_backslash⟩
            · exact Or.inr (Or.inl (Nat.lt_succ_self _))
            · exact Or.inr (Or.inl (Nat.succ_lt_succ (h_less.trans (Nat.lt_succ_self _))))
            · exact Or.inr (Or.inr ⟨getLast?_cons_of_some h_comma,
                getLast?_cons_of_some (getLast?_cons_of_some h_backslash)⟩)
        · obtain ⟨s', rfl, rfl⟩ := append_eq_of_notMem (hexNumber_ne_quote h_w)
            (w := [letterU, a, b, c, d]) h_t
          have h_lt : s'.length + 1 < (backslash :: ([letterU, a, b, c, d] ++ s')).length := by
            simp only [List.length_cons, List.length_append, List.length_nil]
            omega
          rcases ih s'.length (Nat.lt_of_succ_lt h_lt) h' rfl with
            ⟨-, rfl⟩ | h_less | ⟨h_comma, h_backslash⟩
          · exact Or.inr (Or.inl h_lt)
          · exact Or.inr (Or.inl ((Nat.succ_lt_succ h_less).trans h_lt))
          · refine Or.inr (Or.inr ⟨getLast?_cons_of_some h_comma, ?_⟩)
            rw [← List.cons_append, List.getLast?_append, h_backslash]
            rfl
      · obtain ⟨v', rfl, h'⟩ := body_cons h_u h
        rcases ih s.length (by simp) h' rfl with ⟨h_plain, rfl⟩ | h_less | ⟨h_comma, h_backslash⟩
        · refine Or.inl ⟨fun x h_x => ?_, rfl⟩
          rcases List.mem_cons.mp h_x with rfl | h_x
          · exact h_u
          · exact h_plain x h_x
        · exact Or.inr (Or.inl (Nat.succ_lt_succ h_less))
        · exact Or.inr (Or.inr ⟨getLast?_cons_of_some h_comma,
            getLast?_cons_of_some h_backslash⟩)

/-- A string that is read as itself in front of a comma and a quote has nothing to escape. -/
theorem plain_of_body (h : Body (s ++ quote :: comma :: quote :: t) s r) :
    ∀ u ∈ s, isPlain u = true := by
  rcases body_cases h with ⟨h_plain, -⟩ | h_less | ⟨h_comma, h_backslash⟩
  · exact h_plain
  · exact absurd h_less (lt_irrefl _)
  · exact absurd (h_comma.symm.trans h_backslash) (by decide)

end Body

/-! ### A text is that of one value -/

section Unique

variable {t r r' n : Text} {j : Value} {u : UInt16}

/-- The characters of numbers. -/
def isNumeric (u : UInt16) : Bool :=
  isDigit u || isExponent u || u = minus || u = plus || u = point

theorem IsDigits.numeric (h : IsDigits t) : ∀ u ∈ t, isNumeric u = true := by
  intro u h_u
  unfold isNumeric
  rw [h.2 u h_u]
  rfl

/-- A number has only these characters. -/
theorem IsNumber.numeric (h : IsNumber n) : ∀ u ∈ n, isNumeric u = true := by
  obtain ⟨sign, int, frac, exp, rfl, h_sign, ⟨h_int, -⟩, h_frac, h_exp⟩ := h
  intro u h_u
  rcases List.mem_append.mp h_u with h_u | h_u
  -- the sign, the digits, the fraction and the exponent
  · rcases h_sign with rfl | rfl
    · cases h_u
    · rw [List.mem_singleton.mp h_u]
      decide
  rcases List.mem_append.mp h_u with h_u | h_u
  · exact h_int.numeric u h_u
  rcases List.mem_append.mp h_u with h_u | h_u
  · rcases h_frac with rfl | ⟨ds, rfl, h_ds⟩
    · cases h_u
    · rcases List.mem_cons.mp h_u with rfl | h_u
      · decide
      · exact h_ds.numeric u h_u
  · rcases h_exp with rfl | ⟨e, sign, ds, rfl, h_e, h_sign, h_ds⟩
    · cases h_u
    · rcases List.mem_cons.mp h_u with rfl | h_u
      · unfold isNumeric
        rw [h_e, Bool.or_true]
        rfl
      rcases List.mem_append.mp h_u with h_u | h_u
      · rcases h_sign with rfl | rfl | rfl
        · cases h_u
        · rw [List.mem_singleton.mp h_u]
          decide
        · rw [List.mem_singleton.mp h_u]
          decide
      · exact h_ds.numeric u h_u

/-- A number may end here. -/
def Ends (t : Text) : Prop := ∀ u ∈ t.head?, isNumeric u = false

/-- A number ends where its characters end. -/
theorem IsNumber.eq_takeWhile (h : IsNumber n) (h_r : Ends r) :
    n = (n ++ r).takeWhile isNumeric := by
  rw [List.takeWhile_append_of_pos h.numeric]
  cases r with
  | nil => simp
  | cons u r => rw [List.takeWhile_cons_of_neg (by simp [h_r u rfl]), List.append_nil]

/-- What a value is, by the code unit that it starts with. -/
def kindAt (u : UInt16) : ℕ :=
  if isDigit u || u = minus then 1
  else if u = quote then 2
  else if u = openBracket then 3
  else if u = openBrace then 4
  else if u = 0x6E then 5
  else if u = 0x74 then 6
  else if u = 0x66 then 7
  else 0

/-- What a value begins with, as a number. -/
def Value.kind : Value → ℕ
  | .number _ => 1
  | .string _ => 2
  | .array _ => 3
  | .object _ => 4
  | .null => 5
  | .bool true => 6
  | .bool false => 7

/-- A number begins with a digit or a sign. -/
theorem IsNumber.head (h : IsNumber n) : ∃ u n', n = u :: n' ∧ kindAt u = 1 := by
  obtain ⟨sign, int, frac, exp, rfl, rfl | rfl, ⟨h_int, -⟩, -⟩ := h
  · obtain ⟨u, int, rfl⟩ := List.exists_cons_of_ne_nil h_int.1
    refine ⟨u, _, rfl, if_pos ?_⟩
    rw [h_int.2 u List.mem_cons_self]
    rfl
  · exact ⟨minus, _, rfl, rfl⟩

/-- **The first character tells the kind of a value.** -/
theorem reads_kind (h : Reads (.value j) t r) : ∃ u t', t = u :: t' ∧ kindAt u = j.kind := by
  cases h with
  | literal h =>
    -- the literals are three words
    simp only [literals, List.mem_cons, Prod.mk.injEq, List.not_mem_nil, or_false] at h
    rcases h with ⟨rfl, rfl⟩ | ⟨rfl, rfl⟩ | ⟨rfl, rfl⟩
    · exact ⟨_, _, rfl, rfl⟩
    · exact ⟨_, _, rfl, rfl⟩
    · exact ⟨_, _, rfl, rfl⟩
  | number h =>
    obtain ⟨u, n', rfl, h_u⟩ := h.head
    exact ⟨u, _, rfl, h_u⟩
  | string h => exact ⟨_, _, rfl, rfl⟩
  | noElements h => exact ⟨_, _, rfl, rfl⟩
  | array h => exact ⟨_, _, rfl, rfl⟩
  | noMembers h => exact ⟨_, _, rfl, rfl⟩
  | object h => exact ⟨_, _, rfl, rfl⟩

theorem kindAt_of_isSpace (h : isSpace u = true) : kindAt u = 0 := by
  unfold isSpace at h
  simp only [Bool.or_eq_true, decide_eq_true_eq] at h
  rcases h with ((rfl | rfl) | rfl) | rfl <;> rfl

/-- A value does not start with white space. -/
theorem reads_stops (h : Reads (.value j) t r) : Stops t := by
  obtain ⟨u, t', rfl, h_u⟩ := reads_kind h
  intro v h_v
  obtain rfl := Option.some.inj h_v
  rw [← Bool.not_eq_true]
  intro h_space
  rw [kindAt_of_isSpace h_space] at h_u
  match j with
  | .number _ | .string _ | .array _ | .object _ | .null | .bool true | .bool false => cases h_u

/-- What may stand after a value and white space. -/
def Follows (t : Text) : Prop := ∀ u ∈ t.head?, u = comma ∨ u = closeBracket ∨ u = closeBrace

/-- What may follow a value stops white space. -/
theorem Follows.stops (h : Follows t) : Stops t := by
  intro u h_u
  rcases h u h_u with rfl | rfl | rfl <;> decide

theorem isNumeric_of_isSpace (h : isSpace u = true) : isNumeric u = false := by
  unfold isSpace at h
  simp only [Bool.or_eq_true, decide_eq_true_eq] at h
  rcases h with ((rfl | rfl) | rfl) | rfl <;> decide

/-- It ends a number. -/
theorem Follows.ends (h : Follows r) (h_space : Space t r) : Ends t := by
  intro u h_u
  cases h_space with
  | done => rcases h u h_u with rfl | rfl | rfl <;> decide
  | step h_v =>
    obtain rfl := Option.some.inj h_u
    exact isNumeric_of_isSpace h_v

theorem follows_nil : Follows [] := by
  intro u h_u
  cases h_u

theorem follows_comma : Follows (comma :: t) := by
  intro u h_u
  exact Or.inl (Option.some.inj h_u).symm

theorem follows_closeBracket : Follows (closeBracket :: t) := by
  intro u h_u
  exact Or.inr (Or.inl (Option.some.inj h_u).symm)

theorem follows_closeBrace : Follows (closeBrace :: t) := by
  intro u h_u
  exact Or.inr (Or.inr (Option.some.inj h_u).symm)

theorem stops_cons (h : isSpace u = false) : Stops (u :: t) := by
  intro v h_v
  rwa [← Option.some.inj h_v]

/-- A name is read in one way. -/
theorem Name.unique {k k' : Text} (h : Name t k r) (h' : Name t k' r') : k = k' ∧ r = r' := by
  obtain ⟨t₁, t₂, h_t, h_k, h_r⟩ := h
  obtain ⟨t₁', t₂', h_t', h_k', h_r'⟩ := h'
  obtain ⟨-, rfl⟩ := List.cons.inj
    (h_t.unique (stops_cons (by decide)) h_t' (stops_cons (by decide)))
  obtain ⟨rfl, rfl⟩ := h_k.unique h_k'
  obtain ⟨-, rfl⟩ := List.cons.inj
    (h_r.unique (stops_cons (by decide)) h_r' (stops_cons (by decide)))
  exact ⟨rfl, rfl⟩

/-- Whatever else of the same sort may be read is the same. -/
def Phrase.Unique : Phrase → Text → Text → Prop
  | .value j, t, r => Ends r → ∀ j' r', Ends r' → Reads (.value j') t r' → j = j' ∧ r = r'
  | .item j, t, r => Follows r → ∀ j' r', Follows r' → Reads (.item j') t r' → j = j' ∧ r = r'
  | .elements l, t, r => ∀ l' r', Reads (.elements l') t r' → l = l' ∧ r = r'
  | .members l, t, r => ∀ l' r', Reads (.members l') t r' → l = l' ∧ r = r'

theorem kind_literal {w : Text} (h : (w, j) ∈ literals) : 4 < j.kind := by
  simp only [literals, List.mem_cons, Prod.mk.injEq, List.not_mem_nil, or_false] at h
  rcases h with ⟨-, rfl⟩ | ⟨-, rfl⟩ | ⟨-, rfl⟩ <;> decide

/-- A value that begins as a number is one. -/
theorem reads_number (h : Reads (.value j) t r) (h_j : j.kind = 1) :
    ∃ n, j = .number n ∧ IsNumber n ∧ t = n ++ r := by
  cases h with
  | literal h => exact absurd (kind_literal h) (by rw [h_j]; decide)
  | number h => exact ⟨_, rfl, h, rfl⟩
  | string | noElements | array | noMembers | object => cases h_j

/-- And one that begins as a string. -/
theorem reads_string (h : Reads (.value j) t r) (h_j : j.kind = 2) :
    ∃ s t', j = .string s ∧ t = quote :: t' ∧ Body t' s r := by
  cases h with
  | literal h => exact absurd (kind_literal h) (by rw [h_j]; decide)
  | string h => exact ⟨_, _, rfl, rfl, h⟩
  | number | noElements | array | noMembers | object => cases h_j

/-- An array, empty or with elements. -/
theorem reads_array (h : Reads (.value j) t r) (h_j : j.kind = 3) :
    ∃ l t', j = .array l ∧ t = openBracket :: t' ∧
      ((l = [] ∧ Space t' (closeBracket :: r)) ∨ Reads (.elements l) t' r) := by
  cases h with
  | literal h => exact absurd (kind_literal h) (by rw [h_j]; decide)
  | noElements h => exact ⟨_, _, rfl, rfl, Or.inl ⟨rfl, h⟩⟩
  | array h => exact ⟨_, _, rfl, rfl, Or.inr h⟩
  | number | string | noMembers | object => cases h_j

/-- An object, empty or with members. -/
theorem reads_object (h : Reads (.value j) t r) (h_j : j.kind = 4) :
    ∃ l t', j = .object l ∧ t = openBrace :: t' ∧
      ((l = [] ∧ Space t' (closeBrace :: r)) ∨ Reads (.members l) t' r) := by
  cases h with
  | literal h => exact absurd (kind_literal h) (by rw [h_j]; decide)
  | noMembers h => exact ⟨_, _, rfl, rfl, Or.inl ⟨rfl, h⟩⟩
  | object h => exact ⟨_, _, rfl, rfl, Or.inr h⟩
  | number | string | noElements | array => cases h_j

/-- A literal is its word. -/
theorem reads_literal {w : Text} {j' : Value} (h : Reads (.value j') t r)
    (h_j : (w, j) ∈ literals) (h_kind : j'.kind = j.kind) : j = j' ∧ t = w ++ r := by
  have h_less := kind_literal h_j
  rw [← h_kind] at h_less
  cases h with
  | @literal w' _ _ h =>
    have h_same : ∀ x ∈ literals, ∀ y ∈ literals, x.2.kind = y.2.kind → x = y := by
      simp [literals, Value.kind]
    obtain ⟨rfl, rfl⟩ := Prod.mk.inj (h_same (w', j') h (w, j) h_j h_kind)
    exact ⟨rfl, rfl⟩
  | number | string | noElements | array | noMembers | object =>
    simp [Value.kind] at h_less

/-- Two readings of a text have one kind. -/
theorem same_kind {j' : Value} (h : Reads (.value j) t r) (h' : Reads (.value j') t r') :
    j'.kind = j.kind := by
  obtain ⟨u, t', rfl, h_u⟩ := reads_kind h
  obtain ⟨u', t'', h_t, h_u'⟩ := reads_kind h'
  rw [← h_u, ← h_u', (List.cons.inj h_t).1]

/-- Elements do not begin with the closing bracket. -/
theorem not_closed_of_elements {l : List Value} (h : Reads (.elements l) t r) :
    ¬Space t (closeBracket :: r') := by
  have h_item : ∃ j r', Reads (.item j) t r' := by
    cases h with
    | lastElement h => exact ⟨_, _, h⟩
    | element h => exact ⟨_, _, h⟩
  obtain ⟨j, r'', h_item⟩ := h_item
  intro h_close
  -- the first element begins with a character of its own
  cases h_item with
  | item h_before h_j =>
    have h_t := h_before.unique (reads_stops h_j) h_close (stops_cons (by decide))
    obtain ⟨u, t', h_eq, h_u⟩ := reads_kind h_j
    rw [← (List.cons.inj (h_t.symm.trans h_eq)).1] at h_u
    match j with
    | .number _ | .string _ | .array _ | .object _ | .null | .bool true | .bool false => cases h_u

/-- Members do not begin with the closing brace. -/
theorem not_closed_of_members {l : List (Text × Value)} (h : Reads (.members l) t r) :
    ¬Space t (closeBrace :: r') := by
  have h_name : ∃ k r', Name t k r' := by
    cases h with
    | lastMember h_k => exact ⟨_, _, h_k⟩
    | member h_k => exact ⟨_, _, h_k⟩
  obtain ⟨k, r'', t₁, t₂, h_t, -⟩ := h_name
  intro h_close
  have h_eq := h_t.unique (stops_cons (by decide)) h_close (stops_cons (by decide))
  exact absurd (List.cons.inj h_eq).1 (by decide)

/-- **Nothing is ambiguous.** -/
theorem Reads.unique {f : Phrase} (h : Reads f t r) : f.Unique t r := by
  induction h with
  | literal h =>
    intro h_r j' r' h_r' h'
    obtain ⟨rfl, h_t⟩ := reads_literal h' h (same_kind (.literal h) h')
    exact ⟨rfl, List.append_cancel_left h_t⟩
  | number h =>
    intro h_r j' r' h_r' h'
    obtain ⟨n, rfl, h_n, h_t⟩ := reads_number h' (same_kind (.number h) h')
    -- a number goes as far as it can
    have h_eq := h.eq_takeWhile h_r
    rw [h_t, ← h_n.eq_takeWhile h_r'] at h_eq
    subst h_eq
    exact ⟨rfl, List.append_cancel_left h_t⟩
  | string h =>
    intro h_r j' r' h_r' h'
    obtain ⟨s, t', rfl, h_t, h_s⟩ := reads_string h' (same_kind (.string h) h')
    obtain ⟨-, rfl⟩ := List.cons.inj h_t
    obtain ⟨rfl, rfl⟩ := h.unique h_s
    exact ⟨rfl, rfl⟩
  | noElements h =>
    intro h_r j' r' h_r' h'
    obtain ⟨l, t', rfl, h_t, h_l⟩ := reads_array h' (same_kind (.noElements h) h')
    obtain ⟨-, rfl⟩ := List.cons.inj h_t
    rcases h_l with ⟨rfl, h_close⟩ | h_l
    · have h_eq := h.unique (stops_cons (by decide)) h_close (stops_cons (by decide))
      exact ⟨rfl, (List.cons.inj h_eq).2⟩
    · exact absurd h (not_closed_of_elements h_l)
  | array h ih =>
    intro h_r j' r' h_r' h'
    obtain ⟨l, t', rfl, h_t, h_l⟩ := reads_array h' (same_kind (.array h) h')
    obtain ⟨-, rfl⟩ := List.cons.inj h_t
    rcases h_l with ⟨rfl, h_close⟩ | h_l
    · exact absurd h_close (not_closed_of_elements h)
    · obtain ⟨rfl, rfl⟩ := ih l _ h_l
      exact ⟨rfl, rfl⟩
  | noMembers h =>
    intro h_r j' r' h_r' h'
    obtain ⟨l, t', rfl, h_t, h_l⟩ := reads_object h' (same_kind (.noMembers h) h')
    obtain ⟨-, rfl⟩ := List.cons.inj h_t
    rcases h_l with ⟨rfl, h_close⟩ | h_l
    · have h_eq := h.unique (stops_cons (by decide)) h_close (stops_cons (by decide))
      exact ⟨rfl, (List.cons.inj h_eq).2⟩
    · exact absurd h (not_closed_of_members h_l)
  | object h ih =>
    intro h_r j' r' h_r' h'
    obtain ⟨l, t', rfl, h_t, h_l⟩ := reads_object h' (same_kind (.object h) h')
    obtain ⟨-, rfl⟩ := List.cons.inj h_t
    rcases h_l with ⟨rfl, h_close⟩ | h_l
    · exact absurd h_close (not_closed_of_members h)
    · obtain ⟨rfl, rfl⟩ := ih l _ h_l
      exact ⟨rfl, rfl⟩
  | item h_before h h_after ih =>
    intro h_r j' r' h_r' h'
    cases h' with
    | item h_before' h' h_after' =>
      obtain rfl := h_before.unique (reads_stops h) h_before' (reads_stops h')
      obtain ⟨rfl, rfl⟩ := ih (h_r.ends h_after) j' _ (h_r'.ends h_after') h'
      exact ⟨rfl, h_after.unique h_r.stops h_after' h_r'.stops⟩
  | lastElement h ih =>
    intro l' r' h'
    cases h' with
    | lastElement h' =>
      obtain ⟨rfl, h_eq⟩ := ih follows_closeBracket _ _ follows_closeBracket h'
      exact ⟨rfl, (List.cons.inj h_eq).2⟩
    | element h' =>
      obtain ⟨-, h_eq⟩ := ih follows_closeBracket _ _ follows_comma h'
      exact absurd (List.cons.inj h_eq).1 (by decide)
  | element h h_l ih ih_l =>
    intro l' r' h'
    cases h' with
    | lastElement h' =>
      obtain ⟨-, h_eq⟩ := ih follows_comma _ _ follows_closeBracket h'
      exact absurd (List.cons.inj h_eq).1 (by decide)
    | element h' h_l' =>
      obtain ⟨rfl, h_eq⟩ := ih follows_comma _ _ follows_comma h'
      obtain ⟨-, rfl⟩ := List.cons.inj h_eq
      obtain ⟨rfl, rfl⟩ := ih_l _ _ h_l'
      exact ⟨rfl, rfl⟩
  | lastMember h_k h ih =>
    intro l' r' h'
    cases h' with
    | lastMember h_k' h' =>
      obtain ⟨rfl, rfl⟩ := h_k.unique h_k'
      obtain ⟨rfl, h_eq⟩ := ih follows_closeBrace _ _ follows_closeBrace h'
      exact ⟨rfl, (List.cons.inj h_eq).2⟩
    | member h_k' h' =>
      obtain ⟨rfl, rfl⟩ := h_k.unique h_k'
      obtain ⟨-, h_eq⟩ := ih follows_closeBrace _ _ follows_comma h'
      exact absurd (List.cons.inj h_eq).1 (by decide)
  | member h_k h h_l ih ih_l =>
    intro l' r' h'
    cases h' with
    | lastMember h_k' h' =>
      obtain ⟨rfl, rfl⟩ := h_k.unique h_k'
      obtain ⟨-, h_eq⟩ := ih follows_comma _ _ follows_closeBrace h'
      exact absurd (List.cons.inj h_eq).1 (by decide)
    | member h_k' h' h_l' =>
      obtain ⟨rfl, rfl⟩ := h_k.unique h_k'
      obtain ⟨rfl, h_eq⟩ := ih follows_comma _ _ follows_comma h'
      obtain ⟨-, rfl⟩ := List.cons.inj h_eq
      obtain ⟨rfl, rfl⟩ := ih_l _ _ h_l'
      exact ⟨rfl, rfl⟩

/-- **A text has one value.** -/
theorem IsText.unique {j' : Value} (h : IsText t j) (h' : IsText t j') : j = j' :=
  (Reads.unique h follows_nil j' [] follows_nil h').1

/-- What is a text parses. -/
theorem IsText.parses (h : IsText t j) : Parses t j := by
  intro j'
  refine ⟨?_, ?_⟩
  · intro h'
    exact h'.unique h
  · rintro rfl
    exact h

end Unique

/-! ### Texts of objects -/

section Members

variable {t k s r w : Text} {l : List (Text × Value)}

theorem Name.append (h : Name t k r) (w : Text) : Name (t ++ w) k (r ++ w) := by
  obtain ⟨t₁, t₂, h_t, h_k, h_r⟩ := h
  exact ⟨t₁ ++ w, t₂ ++ w, h_t.append w, h_k.append w, h_r.append w⟩

/-- What is read does not depend on what comes after it. -/
theorem Reads.append {f : Phrase} (h : Reads f t r) (w : Text) : Reads f (t ++ w) (r ++ w) := by
  -- one case for each phrase: what is behind it is not touched
  induction h with
  | literal h =>
    rw [List.append_assoc]
    exact .literal h
  | number h =>
    rw [List.append_assoc]
    exact .number h
  | string h => exact .string (h.append w)
  | noElements h => exact .noElements (h.append w)
  | array _ ih => exact .array ih
  | noMembers h => exact .noMembers (h.append w)
  | object _ ih => exact .object ih
  | item h_before _ h_after ih => exact .item (h_before.append w) ih (h_after.append w)
  | lastElement _ ih => exact .lastElement ih
  | element _ _ ih ih_l => exact .element ih ih_l
  | lastMember h_k _ ih => exact .lastMember (h_k.append w) ih
  | member h_k _ _ ih ih_l => exact .member (h_k.append w) ih ih_l

/-- A member whose value is a string, printed as it is. -/
def memberText (k s : Text) : Text := quote :: (k ++ quote :: colon :: quote :: (s ++ [quote]))

/-- Such members, with a comma after each. -/
def memberTexts (fields : List (Text × Text)) : Text :=
  fields.flatMap fun x => memberText x.1 x.2 ++ [comma]

/-- Characters that are written as they are. -/
def IsPlain (s : Text) : Prop := ∀ u ∈ s, isPlain u = true

instance (s : Text) : Decidable (IsPlain s) := List.decidableBAll _ s

/-- One member and the others. -/
theorem memberTexts_cons (x : Text × Text) (fields : List (Text × Text)) :
    memberTexts (x :: fields) ++ t =
      quote :: (x.1 ++ quote :: colon :: quote ::
        (x.2 ++ quote :: comma :: (memberTexts fields ++ t))) := by
  unfold memberTexts memberText
  simp

/-- What comes after such a member starts with a quote. -/
theorem exists_memberTexts (fields : List (Text × Text)) (t : Text) :
    ∃ t', memberTexts fields ++ quote :: t = quote :: t' := by
  cases fields with
  | nil => exact ⟨t, rfl⟩
  | cons x fields => exact ⟨_, memberTexts_cons x fields⟩

/-- A plain name is read as it is. -/
theorem name_plain (h_k : IsPlain k) : Name (quote :: (k ++ quote :: colon :: r)) k r :=
  ⟨_, _, .done, body_plain h_k, .done⟩

/-- A string as a member. -/
theorem reads_item_quote {j : Value} (h : Reads (.item j) (quote :: t) r) :
    ∃ v t', j = .string v ∧ Body t v t' ∧ Space t' r := by
  cases h with
  | item h_before h_j h_after =>
    obtain rfl := h_before.eq_of_cons (by decide)
    obtain ⟨u, t', h_t, h_u⟩ := reads_kind h_j
    rw [← (List.cons.inj h_t).1] at h_u
    obtain ⟨v, t', rfl, h_t, h_v⟩ := reads_string h_j h_u.symm
    obtain ⟨-, rfl⟩ := List.cons.inj h_t
    exact ⟨v, _, rfl, h_v, h_after⟩

/-- A printed member that is read as itself, or has nothing to escape. -/
theorem reads_memberText (h_k : IsPlain k)
    (h : Reads (.members l)
      (quote :: (k ++ quote :: colon :: quote :: (s ++ quote :: comma :: quote :: t))) r)
    (h_s : IsPlain s ∨ ∀ v, (k, v) ∈ l → v = .string s) :
    IsPlain s ∧ ∃ l', l = (k, .string s) :: l' ∧ Reads (.members l') (quote :: t) r := by
  have h_read : ∀ v t' l', (k, .string v) :: l' = l →
      Body (s ++ quote :: comma :: quote :: t) v t' →
      IsPlain s ∧ v = s ∧ t' = comma :: quote :: t := by
    intro v t' l' h_l h_v
    -- the value has no quote or backslash in it
    have h_plain : IsPlain s := by
      refine h_s.elim id fun h_s => ?_
      obtain rfl := Value.string.inj (h_s (.string v) (h_l ▸ List.mem_cons_self))
      exact plain_of_body h_v
    exact ⟨h_plain, h_v.unique (body_plain h_plain)⟩
  cases h with
  | lastMember h_k' h =>
    obtain ⟨rfl, rfl⟩ := h_k'.unique (name_plain h_k)
    obtain ⟨v, t', rfl, h_v, h_after⟩ := reads_item_quote h
    obtain ⟨-, rfl, rfl⟩ := h_read v t' [] rfl h_v
    have h_eq := h_after.eq_of_cons (by decide)
    exact absurd (List.cons.inj h_eq).1 (by decide)
  | member h_k' h h_l =>
    obtain ⟨rfl, rfl⟩ := h_k'.unique (name_plain h_k)
    -- the comma shows where the value ends
    obtain ⟨v, t', rfl, h_v, h_after⟩ := reads_item_quote h
    obtain ⟨h_plain, rfl, rfl⟩ := h_read v t' _ rfl h_v
    have h_eq := h_after.eq_of_cons (by decide)
    obtain ⟨-, rfl⟩ := List.cons.inj h_eq
    exact ⟨h_plain, _, rfl, h_l⟩

/-- If the members that are printed are read as themselves, they have nothing to escape. -/
theorem plain_of_reads {fields : List (Text × Text)} (h_k : ∀ x ∈ fields, IsPlain x.1)
    (h : Reads (.members l) (memberTexts fields ++ quote :: t) r)
    (h_s : ∀ x ∈ fields, IsPlain x.2 ∨ ∀ v, (x.1, v) ∈ l → v = .string x.2) :
    ∀ x ∈ fields, IsPlain x.2 := by
  induction fields generalizing l with
  | nil =>
    intro x h_x
    cases h_x
  | cons x fields ih =>
    rw [memberTexts_cons] at h
    obtain ⟨t', h_t'⟩ := exists_memberTexts fields t
    rw [h_t'] at h
    obtain ⟨h_plain, l', rfl, h_l'⟩ :=
      reads_memberText (h_k x List.mem_cons_self) h (h_s x List.mem_cons_self)
    rw [← h_t'] at h_l'
    intro y h_y
    -- the first value, and those of the members behind it
    rcases List.mem_cons.mp h_y with rfl | h_y
    · exact h_plain
    · refine ih (fun y h_y => h_k y (List.mem_cons_of_mem x h_y)) h_l' (fun y h_y => ?_) y h_y
      refine (h_s y (List.mem_cons_of_mem x h_y)).imp_right fun h_v v h_mem => ?_
      exact h_v v (List.mem_cons_of_mem _ h_mem)

/-- Members with nothing to escape are read as they are printed. -/
theorem reads_memberTexts {fields : List (Text × Text)}
    (h_fields : ∀ x ∈ fields, IsPlain x.1 ∧ IsPlain x.2) (h : Reads (.members l) t r) :
    Reads (.members (fields.map (fun x => (x.1, .string x.2)) ++ l)) (memberTexts fields ++ t)
      r := by
  induction fields with
  | nil => exact h
  | cons x fields ih =>
    rw [memberTexts_cons]
    obtain ⟨h_k, h_s⟩ := h_fields x List.mem_cons_self
    exact .member (name_plain h_k) (.item .done (.string (body_plain h_s)) .done)
      (ih fun y h_y => h_fields y (List.mem_cons_of_mem x h_y))

/-- A last member, whose value is the text of one. -/
theorem reads_lastMember {j : Value} (h_k : IsPlain k) (h : IsText s j) :
    Reads (.members [(k, j)]) (quote :: (k ++ quote :: colon :: (s ++ [closeBrace]))) [] :=
  .lastMember (name_plain h_k) (h.append [closeBrace])

/-- An object is a text. -/
theorem isText_object (h : Reads (.members l) t []) : IsText (openBrace :: t) (.object l) :=
  .item .done (.object h) .done

/-- A text that is an object has members. -/
theorem members_of_isText (h : IsText (openBrace :: quote :: t) (.object l)) :
    ∃ r, Reads (.members l) (quote :: t) r := by
  cases h with
  | @item _ _ r _ _ h_before h_l _ =>
    obtain rfl := h_before.eq_of_cons (by decide)
    obtain ⟨l', t', h_l', h_t, h_read⟩ := reads_object h_l rfl
    obtain rfl := Value.object.inj h_l'
    obtain ⟨-, rfl⟩ := List.cons.inj h_t
    rcases h_read with ⟨-, h_close⟩ | h_read
    · exact absurd (List.cons.inj (h_close.eq_of_cons (by decide))).1 (by decide)
    · exact ⟨r, h_read⟩

end Members

end Ethiso.Json
