/-
Module: StringForms.Proofs.Sexp.EscapeUnits
Purpose: What a backslash governs between quotes, as a relation, and what is reported where it governs
  nothing.
Main exports: Quoted.letters, Quoted.Governs, Quoted.Broken, Quoted.Governs.escape_eq,
  Quoted.Broken.escape_eq, Quoted.governs_or_broken
-/
import Mathlib
import StringForms.Proofs.Text.Hex
import StringForms.Sexp.Quoted

namespace StringForms.Sexp.Quoted

open Text

/-!
A backslash governs one of few pieces behind it. What is behind a piece matters only where a run of
digits may be shorter or longer. Where a backslash governs nothing there is a broken piece: its letter
with as many digits and braces behind it as the form of that letter takes. Each text behind a backslash
begins with a piece of one sort or the other, so it is enough to say what is answered to each of them.
-/

/-! ### Pieces -/

/-- The letters that stand for a character when a backslash is before them. -/
def letters : List (Char × Char) :=
  [('n', '\n'), ('t', '\t'), ('r', '\r'), ('f', '\x0c'), ('v', '\x0b'), ('b', '\x08'),
   ('a', '\x07'), ('e', '\x1b'), ('s', ' '), ('0', '\x00'), ('\\', '\\'), ('"', '"'),
   ('#', '#'), ('\'', '\'')]

/-- Hexadecimal digits, `limit` of them, or fewer where no more stand. -/
structure DigitRun (limit : Nat) (digits rest : List Char) : Prop where
  inside : ∀ digit ∈ digits, Hex.isDigit digit = true
  ends : digits.length = limit ∨ digits.length ≤ limit ∧ Stops Hex.isDigit rest

/-- `Governs piece character rest`: a backslash before the piece makes it stand for the character. The
rest is what comes behind the piece. -/
inductive Governs : List Char → Char → List Char → Prop where
  | letter {letter character : Char} {rest : List Char} (listed : (letter, character) ∈ letters) :
      Governs [letter] character rest
  | short {digits rest : List Char} {character : Char} (run : DigitRun 2 digits rest)
      (filled : digits ≠ []) (coded : Hex.value digits = character.toNat) :
      Governs ('x' :: digits) character rest
  | four {digits rest : List Char} {character : Char}
      (inside : ∀ digit ∈ digits, Hex.isDigit digit = true) (whole : digits.length = 4)
      (coded : Hex.value digits = character.toNat) : Governs ('u' :: digits) character rest
  | braced {digits rest : List Char} {character : Char}
      (inside : ∀ digit ∈ digits, Hex.isDigit digit = true) (filled : digits ≠ [])
      (few : digits.length ≤ 6) (coded : Hex.value digits = character.toNat) :
      Governs ('u' :: '{' :: (digits ++ ['}'])) character rest

/-- `Broken piece after`: a backslash before the piece governs nothing, and the piece is reported with
it. Numbers that are no code point come from four digits or from braces only, since two digits are
always the code point of a character. -/
inductive Broken : List Char → List Char → Prop where
  | ended : Broken [] []
  | unlisted {letter : Char} {after : List Char}
      (unknown : ∀ character, (letter, character) ∉ letters) (notShort : letter ≠ 'x')
      (notLong : letter ≠ 'u') : Broken [letter] after
  | noDigit {after : List Char} (stops : Stops Hex.isDigit after) : Broken ['x'] after
  | tooFew {digits after : List Char} (run : DigitRun 4 digits after) (few : digits.length ≠ 4)
      (unbraced : (digits ++ after).head? ≠ some '{') : Broken ('u' :: digits) after
  | uncoded {digits after : List Char} (inside : ∀ digit ∈ digits, Hex.isDigit digit = true)
      (whole : digits.length = 4) (uncoded : ∀ character : Char, Hex.value digits ≠ character.toNat) :
      Broken ('u' :: digits) after
  | unclosed {digits after : List Char} (run : DigitRun 6 digits after)
      (gap : digits = [] ∨ after.head? ≠ some '}') : Broken ('u' :: '{' :: digits) after
  | uncodedBraced {digits after : List Char} (inside : ∀ digit ∈ digits, Hex.isDigit digit = true)
      (filled : digits ≠ []) (few : digits.length ≤ 6)
      (uncoded : ∀ character : Char, Hex.value digits ≠ character.toNat) :
      Broken ('u' :: '{' :: (digits ++ ['}'])) after

/-! ### Runs of digits -/

/-- Every text starts with a run of digits, which may be empty. -/
theorem exists_digitRun (limit : Nat) (text : List Char) :
    ∃ digits rest, text = digits ++ rest ∧ DigitRun limit digits rest := by
  obtain ⟨rest, split, inside, ends⟩ := Hex.exists_run_append limit text
  exact ⟨_, rest, split, inside, ends⟩

theorem DigitRun.whole {limit : Nat} {digits rest : List Char}
    (inside : ∀ digit ∈ digits, Hex.isDigit digit = true) (full : digits.length = limit) :
    DigitRun limit digits rest :=
  ⟨inside, .inl full⟩

/-- A closing brace ends a run. -/
theorem DigitRun.closed {limit : Nat} {digits rest : List Char}
    (inside : ∀ digit ∈ digits, Hex.isDigit digit = true) (few : digits.length ≤ limit) :
    DigitRun limit digits ('}' :: rest) := by
  have stops : Stops Hex.isDigit ('}' :: rest) := by
    intro next found
    cases found
    decide
  exact ⟨inside, .inr ⟨few, stops⟩⟩

theorem DigitRun.length_le {limit : Nat} {digits rest : List Char}
    (run : DigitRun limit digits rest) : digits.length ≤ limit := by
  rcases run.ends with full | ⟨few, _⟩
  · exact Nat.le_of_eq full
  · exact few

/-- An empty run that might have been longer is stopped by what follows it. -/
theorem DigitRun.stops {limit : Nat} {rest : List Char} (run : DigitRun (limit + 1) [] rest) :
    Stops Hex.isDigit rest := by
  rcases run.ends with full | ⟨_, stops⟩
  · cases full
  · exact stops

/-- The decoder takes such a run and nothing else. -/
theorem DigitRun.run_eq {limit : Nat} {digits rest : List Char} (run : DigitRun limit digits rest) :
    Hex.run limit (digits ++ rest) = digits :=
  Hex.run_append run.inside run.ends

/-- No brace stands where digits do. -/
theorem head?_ne_brace {digits rest : List Char}
    (inside : ∀ digit ∈ digits, Hex.isDigit digit = true) (filled : digits ≠ []) :
    (digits ++ rest).head? ≠ some '{' := by
  obtain ⟨first, more, rfl⟩ := List.exists_cons_of_ne_nil filled
  have differs : first ≠ '{' := ne_of_belongs (inside first List.mem_cons_self) rfl
  simpa using differs

/-! ### What is answered to a piece -/

/-- The letters that stand for one character are those of the table. -/
theorem simpleEscape?_eq_some_iff {letter character : Char} :
    simpleEscape? letter = some character ↔ (letter, character) ∈ letters := by
  unfold simpleEscape?
  split <;> simp_all [letters, eq_comm]

theorem coded_eq_ok (length : Nat) {digits : List Char} {character : Char}
    (spelled : Hex.value digits = character.toNat) :
    coded length digits = .ok (character, length) := by
  rw [coded, spelled, scalar?_toNat]

/-- Digits that are the code point of no character are refused as a whole. -/
theorem coded_eq_error (length : Nat) {digits : List Char}
    (uncoded : ∀ character : Char, Hex.value digits ≠ character.toNat) :
    coded length digits = .error length := by
  rw [coded, scalar?_eq_none uncoded]

/-- Behind any letter but the two that take digits, the escape ends with the letter. One that stands
for nothing is refused with all of its bytes. -/
theorem escape_letter {letter : Char} (notShort : letter ≠ 'x') (notLong : letter ≠ 'u')
    (rest : List Char) :
    escape (letter :: rest) =
      match simpleEscape? letter with
      | some character => .ok (character, 1)
      | none => .error letter.utf8Size := by
  unfold escape
  split
  case h_1 empty => cases empty
  case h_2 short => exact absurd (List.cons.inj short).1 notShort
  case h_3 long => exact absurd (List.cons.inj long).1 notLong
  case h_4 long => exact absurd (List.cons.inj long).1 notLong
  case h_5 whole =>
    obtain ⟨rfl, rfl⟩ := List.cons.inj whole
    rfl

/-- Without a brace exactly four digits are wanted, and fewer are refused with the letter. -/
theorem escape_unbraced {digits rest : List Char} (run : DigitRun 4 digits rest)
    (unbraced : (digits ++ rest).head? ≠ some '{') :
    escape ('u' :: (digits ++ rest)) =
      if digits.length = 4 then coded 5 digits else .error (1 + digits.length) := by
  rw [escape]
  · simp only [run.run_eq]
  · intro later same
    exact unbraced (by rw [same, List.head?_cons])

/-- In braces any digits up to six will do. They are refused up to the place where the closing brace
is missing. -/
theorem escape_braced {digits rest : List Char} (run : DigitRun 6 digits rest) :
    escape ('u' :: '{' :: (digits ++ rest)) =
      if digits.isEmpty || rest.head? != some '}' then .error (2 + digits.length)
      else coded (3 + digits.length) digits := by
  rw [escape]
  simp only [run.run_eq, List.drop_left]

/-- What a backslash governs is read as the character that it stands for. -/
theorem Governs.escape_eq {piece rest : List Char} {character : Char}
    (governs : Governs piece character rest) :
    escape (piece ++ rest) = .ok (character, piece.length) := by
  cases governs with
  | letter listed =>
      have known := simpleEscape?_eq_some_iff.mpr listed
      rw [List.singleton_append, escape_letter, known]
      · rfl
      · rintro rfl
        cases known
      · rintro rfl
        cases known
  | @short digits _ _ run filled coded =>
      rw [List.cons_append, escape, run.run_eq]
      cases digits with
      | nil => exact absurd rfl filled
      | cons digit more =>
          simp only [coded_eq_ok _ coded, List.length_cons, Nat.add_comm]
  | @four digits _ _ inside whole coded =>
      have filled : digits ≠ [] := List.ne_nil_of_length_pos (by omega)
      rw [List.cons_append, escape_unbraced (.whole inside whole) (head?_ne_brace inside filled),
        if_pos whole, coded_eq_ok _ coded, List.length_cons, whole]
  | @braced digits _ _ inside filled few coded =>
      have notEmpty : digits.isEmpty = false := by simpa using filled
      simp only [List.cons_append, List.append_assoc, List.nil_append]
      rw [escape_braced (.closed inside few)]
      simp only [notEmpty, List.head?_cons, bne_self_eq_false, Bool.or_false, Bool.false_eq_true,
        if_false]
      rw [coded_eq_ok _ coded]
      simp
      omega

/-- Where a backslash governs nothing, the end of the broken piece is answered. -/
theorem Broken.escape_eq {piece after : List Char} (broken : Broken piece after) :
    escape (piece ++ after) = .error (byteSize piece) := by
  have narrow : 'u'.utf8Size = 1 ∧ '{'.utf8Size = 1 ∧ '}'.utf8Size = 1 := ⟨rfl, rfl, rfl⟩
  obtain ⟨letterSize, openSize, closeSize⟩ := narrow
  cases broken with
  | ended => rfl
  | @unlisted letter after unknown notShort notLong =>
      have none : simpleEscape? letter = none := by
        rw [Option.eq_none_iff_forall_ne_some]
        exact fun character found => unknown character (simpleEscape?_eq_some_iff.mp found)
      rw [List.singleton_append, escape_letter notShort notLong, none]
      rfl
  | noDigit stops =>
      have run : DigitRun 2 [] after := ⟨nofun, .inr ⟨Nat.zero_le _, stops⟩⟩
      have nothing : Hex.run 2 after = [] := run.run_eq
      rw [List.singleton_append, escape, nothing]
      rfl
  | tooFew run few unbraced =>
      rw [List.cons_append, escape_unbraced run unbraced, if_neg few, byteSize, letterSize,
        Hex.byteSize_of_isDigit run.inside]
  | @uncoded digits _ inside whole uncoded =>
      have filled : digits ≠ [] := List.ne_nil_of_length_pos (by omega)
      rw [List.cons_append, escape_unbraced (.whole inside whole) (head?_ne_brace inside filled),
        if_pos whole, coded_eq_error _ uncoded, byteSize, letterSize,
        Hex.byteSize_of_isDigit inside, whole]
  | @unclosed digits _ run gap =>
      have refused : (digits.isEmpty || after.head? != some '}') = true := by
        rcases gap with rfl | other
        · rfl
        · simp [other]
      rw [List.cons_append, List.cons_append, escape_braced run, if_pos refused, byteSize, byteSize,
        letterSize, openSize, Hex.byteSize_of_isDigit run.inside, ← Nat.add_assoc]
  | @uncodedBraced digits _ inside filled few uncoded =>
      have notEmpty : digits.isEmpty = false := by simpa using filled
      have bytes : byteSize ('u' :: '{' :: (digits ++ ['}'])) = 3 + digits.length := by
        simp only [byteSize, byteSize_append, Hex.byteSize_of_isDigit inside, letterSize, openSize,
          closeSize]
        omega
      simp only [List.cons_append, List.append_assoc, List.nil_append]
      rw [escape_braced (.closed inside few), bytes]
      simp only [notEmpty, List.head?_cons, bne_self_eq_false, Bool.or_false, Bool.false_eq_true,
        if_false]
      exact coded_eq_error _ uncoded

/-! ### A piece is always there -/

/-- A text begins with a piece that a backslash governs, or with a broken one. -/
def Begun (text : List Char) : Prop :=
  (∃ piece character rest, text = piece ++ rest ∧ Governs piece character rest) ∨
    ∃ piece after, text = piece ++ after ∧ Broken piece after

theorem begun_short (later : List Char) : Begun ('x' :: later) := by
  obtain ⟨digits, rest, rfl, run⟩ := exists_digitRun 2 later
  cases digits with
  | nil => exact .inr ⟨['x'], rest, rfl, .noDigit run.stops⟩
  | cons digit more =>
      have small : Hex.value (digit :: more) < 16 ^ 2 :=
        Nat.lt_of_lt_of_le (Hex.value_lt _) (Nat.pow_le_pow_right (by decide) run.length_le)
      obtain ⟨character, coded⟩ := exists_toNat_eq (Nat.lt_trans small (by decide))
      exact .inl ⟨_, character, rest, rfl, .short run (List.cons_ne_nil _ _) coded⟩

theorem begun_unbraced {later : List Char} (unbraced : later.head? ≠ some '{') :
    Begun ('u' :: later) := by
  obtain ⟨digits, rest, rfl, run⟩ := exists_digitRun 4 later
  by_cases whole : digits.length = 4
  · by_cases coded : ∃ character : Char, Hex.value digits = character.toNat
    · obtain ⟨character, coded⟩ := coded
      exact .inl ⟨_, character, rest, rfl, .four run.inside whole coded⟩
    · exact .inr ⟨_, rest, rfl, .uncoded run.inside whole (not_exists.mp coded)⟩
  · exact .inr ⟨_, rest, rfl, .tooFew run whole unbraced⟩

theorem begun_braced (later : List Char) : Begun ('u' :: '{' :: later) := by
  obtain ⟨digits, rest, rfl, run⟩ := exists_digitRun 6 later
  by_cases gap : digits = [] ∨ rest.head? ≠ some '}'
  · exact .inr ⟨_, rest, rfl, .unclosed run gap⟩
  · obtain ⟨filled, closing⟩ := not_or.mp gap
    obtain ⟨after, rfl⟩ := List.head?_eq_some_iff.mp (not_not.mp closing)
    have split : 'u' :: '{' :: (digits ++ '}' :: after) =
        ('u' :: '{' :: (digits ++ ['}'])) ++ after := by simp
    by_cases coded : ∃ character : Char, Hex.value digits = character.toNat
    · obtain ⟨character, coded⟩ := coded
      exact .inl ⟨_, character, after, split, .braced run.inside filled run.length_le coded⟩
    · exact .inr ⟨_, after, split,
        .uncodedBraced run.inside filled run.length_le (not_exists.mp coded)⟩

/-- Whatever stands behind a backslash, a rule governs how it begins or it is broken there. -/
theorem governs_or_broken (text : List Char) : Begun text := by
  cases text with
  | nil => exact .inr ⟨[], [], rfl, .ended⟩
  | cons letter later =>
      by_cases short : letter = 'x'
      · rw [short]
        exact begun_short later
      by_cases long : letter = 'u'
      · rw [long]
        by_cases braced : later.head? = some '{'
        · obtain ⟨inner, rfl⟩ := List.head?_eq_some_iff.mp braced
          exact begun_braced inner
        · exact begun_unbraced braced
      by_cases listed : ∃ character, (letter, character) ∈ letters
      · obtain ⟨character, listed⟩ := listed
        exact .inl ⟨[letter], character, later, rfl, .letter listed⟩
      · exact .inr ⟨[letter], later, rfl, .unlisted (not_exists.mp listed) short long⟩

end StringForms.Sexp.Quoted
