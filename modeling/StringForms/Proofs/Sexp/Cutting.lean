/-
Module: StringForms.Proofs.Sexp.Cutting
Purpose: Pieces of text that are cut into known tokens at any place of an input, and how the cuts of
  neighbouring pieces come together.
Main exports: piece, Cut, Cut.append, Cut.lex_eq, cut_symbol, cut_quotedSymbol, cut_string,
  cut_integer, cut_identifier
-/
import Mathlib
import StringForms.Proofs.Sexp.Spelling
import StringForms.Proofs.Text.Decimal
import StringForms.Proofs.Text.Words

namespace StringForms.Sexp

open Text

/-- A token of given characters that starts at a given byte. -/
def piece (kind : TokenKind) (text : List Char) (offset : Nat) : Token :=
  { kind := kind, text := String.ofList text, offset := offset }

/-- The text at a byte of the input is cut into the tokens, and cutting goes on behind it. -/
def Cut (offset : Nat) (text : List Char) (tokens : List Token) (rest : List Char) : Prop :=
  tokensFrom offset (text ++ rest) =
    (tokens ++ ·) <$> tokensFrom (offset + byteSize text) rest

theorem Cut.nil {offset : Nat} {rest : List Char} : Cut offset [] [] rest := by
  unfold Cut
  simp only [List.nil_append, byteSize, Nat.add_zero]
  cases tokensFrom offset rest <;> rfl

/-- Cuts in a row: the second starts at the byte where the first ends. -/
theorem Cut.append {offset : Nat} {text text' rest : List Char} {tokens tokens' : List Token}
    (first : Cut offset text tokens (text' ++ rest))
    (second : Cut (offset + byteSize text) text' tokens' rest) :
    Cut offset (text ++ text') (tokens ++ tokens') rest := by
  unfold Cut at *
  rw [List.append_assoc, first, second, byteSize_append, Nat.add_assoc]
  cases tokensFrom (offset + (byteSize text + byteSize text')) rest with
  | error problem => rfl
  | ok later => simp

/-- A text that is cut to its end has the tokens of the cut. -/
theorem Cut.lex_eq {text : List Char} {tokens : List Token} (cut : Cut 0 text tokens []) :
    lex (String.ofList text) = .ok tokens := by
  unfold Cut at cut
  rw [List.append_nil, tokensFrom] at cut
  rw [lex, String.toList_ofList, cut]
  simp

/-- A blank is passed over without a token. -/
theorem cut_blank {offset : Nat} {blank : Char} {rest : List Char} (isBlank : isBlank blank = true) :
    Cut offset [blank] [] rest := by
  unfold Cut
  rw [List.singleton_append, tokensFrom, if_pos isBlank]
  simp only [byteSize, Nat.add_zero]
  cases tokensFrom (offset + blank.utf8Size) rest <;> rfl

/-- Where the scanner finds a token, cutting goes on at the byte behind it. -/
theorem tokensFrom_of_scan {offset : Nat} {first : Char} {following : List Char}
    {kind : TokenKind} {length : Nat} (ink : isBlank first = false)
    (scanned : scan? first following = some (kind, length)) :
    tokensFrom offset (first :: following) =
      (piece kind (first :: following.take length) offset :: ·) <$>
        tokensFrom (offset + byteSize (first :: following.take length))
          (following.drop length) := by
  rw [tokensFrom, if_neg (by simp [ink]), scanned]
  rfl

/-- What the scanner takes after the first character of a token is cut off with it. -/
theorem cut_of_scan {offset : Nat} {first : Char} {more rest : List Char} {kind : TokenKind}
    (ink : isBlank first = false) (scanned : scan? first (more ++ rest) = some (kind, more.length)) :
    Cut offset (first :: more) [piece kind (first :: more) offset] rest := by
  unfold Cut
  rw [List.cons_append, tokensFrom_of_scan ink scanned, List.take_left, List.drop_left]
  rfl

/-! ### The tokens of each kind -/

theorem runLength_append {belongs : Char → Bool} {run rest : List Char}
    (inside : ∀ character ∈ run, belongs character = true) (stops : Stops belongs rest) :
    runLength belongs (run ++ rest) = run.length := by
  rw [runLength, takeWhile_append_of_stops inside stops]

theorem cut_leftParenthesis (offset : Nat) (rest : List Char) :
    Cut offset ['('] [piece .leftParenthesis ['('] offset] rest :=
  cut_of_scan rfl rfl

theorem cut_rightParenthesis (offset : Nat) (rest : List Char) :
    Cut offset [')'] [piece .rightParenthesis [')'] offset] rest :=
  cut_of_scan rfl rfl

theorem cut_comma (offset : Nat) (rest : List Char) :
    Cut offset [','] [piece .comma [','] offset] rest :=
  cut_of_scan rfl rfl

/-- A spelled text between quotes is a string token, whatever follows: the closing quote ends it. -/
theorem cut_string (offset : Nat) {body text : List Char} (spells : Spells body text)
    (rest : List Char) :
    Cut offset ('"' :: (body ++ ['"'])) [piece .string ('"' :: (body ++ ['"'])) offset] rest := by
  apply cut_of_scan rfl
  have closed := spells.quotedLength?_eq rest
  simp [scan?, closed]

theorem cut_quotedSymbol (offset : Nat) {body text : List Char} (spells : Spells body text)
    (rest : List Char) :
    Cut offset (':' :: '"' :: (body ++ ['"']))
      [piece .quotedSymbol (':' :: '"' :: (body ++ ['"'])) offset] rest := by
  apply cut_of_scan rfl
  have closed := spells.quotedLength?_eq rest
  simp [scan?, closed]

/-- A bare name behind a colon is a symbol, unless what follows would go on with it. -/
theorem cut_symbol (offset : Nat) {name rest : List Char} (bare : isBareName name = true)
    (stops : Stops isSymbolPart rest) :
    Cut offset (':' :: name) [piece .symbol (':' :: name) offset] rest := by
  simp only [isBareName, Bool.and_eq_true, Bool.not_eq_true', List.all_eq_true] at bare
  obtain ⟨filled, inside⟩ := bare
  apply cut_of_scan rfl
  have length := runLength_append inside stops
  cases name with
  | nil => cases filled
  | cons first more =>
      have notQuote : first ≠ '"' := ne_of_belongs (inside first (by simp)) rfl
      simp only [List.cons_append] at length
      simp [scan?, notQuote, nonemptyRun?, length]

theorem scan?_of_isDigit {first : Char} (digit : first.isDigit = true) (following : List Char) :
    scan? first following = some (.integer, runLength Char.isDigit following) := by
  have differs {other : Char} (no : other.isDigit = false) : first ≠ other := ne_of_belongs digit no
  simp only [scan?, differs (rfl : '('.isDigit = false),
    differs (rfl : ')'.isDigit = false), differs (rfl : ','.isDigit = false),
    differs (rfl : '"'.isDigit = false), differs (rfl : ':'.isDigit = false),
    differs (rfl : '-'.isDigit = false), digit, if_true, if_false]

/-- No character of a class is blank if the four blanks are outside the class. -/
theorem isBlank_eq_false {belongs : Char → Bool} {first : Char} (inside : belongs first = true)
    (outside : [' ', '\t', '\r', '\n'].any belongs = false) : isBlank first = false := by
  have differs {blank : Char} (found : blank ∈ [' ', '\t', '\r', '\n']) : first ≠ blank :=
    ne_of_belongs inside (by simpa using List.any_eq_false.mp outside blank found)
  simp [isBlank, differs]

/-- A written number is an integer token, with its sign, unless more digits follow. -/
theorem cut_integer (offset : Nat) (number : Int) {rest : List Char}
    (stops : Stops Char.isDigit rest) :
    Cut offset (Decimal.ofInt number) [piece .integer (Decimal.ofInt number) offset] rest := by
  cases number with
  | ofNat number =>
      rw [Decimal.ofInt]
      cases spelled : Decimal.digits number with
      | nil => exact absurd spelled Nat.toDigits_ne_nil
      | cons first more =>
          have inside : ∀ character ∈ first :: more, character.isDigit = true := by
            intro character found
            rw [← spelled] at found
            exact Decimal.isDigit_of_mem_digits found
          have digit := inside first (by simp)
          have later : ∀ character ∈ more, character.isDigit = true :=
            fun character found => inside character (by simp [found])
          apply cut_of_scan (isBlank_eq_false digit rfl)
          rw [scan?_of_isDigit digit, runLength_append later stops]
  | negSucc below =>
      rw [Decimal.ofInt]
      apply cut_of_scan rfl
      have inside : ∀ character ∈ Decimal.digits (below + 1), character.isDigit = true :=
        fun _ => Decimal.isDigit_of_mem_digits
      have length := runLength_append inside stops
      have filled : (Decimal.digits (below + 1)).length ≠ 0 := Nat.ne_of_gt Nat.length_toDigits_pos
      simp [scan?, nonemptyRun?, length, filled]

theorem scan?_of_isWordStart {first : Char} (start : isWordStart first = true)
    (following : List Char) :
    scan? first following = some (.identifier, runLength isWordPart following) := by
  have differs {other : Char} (no : isWordStart other = false) : first ≠ other :=
    ne_of_belongs start no
  have noDigit := isDigit_eq_false_of_isWordStart start
  simp [scan?, differs (rfl : isWordStart '(' = false),
    differs (rfl : isWordStart ')' = false), differs (rfl : isWordStart ',' = false),
    differs (rfl : isWordStart '"' = false), differs (rfl : isWordStart ':' = false),
    differs (rfl : isWordStart '-' = false), noDigit, start]

/-- A word is an identifier, unless more of it follows. -/
theorem cut_identifier (offset : Nat) {first : Char} {more rest : List Char}
    (start : isWordStart first = true) (inside : ∀ character ∈ more, isWordPart character = true)
    (stops : Stops isWordPart rest) :
    Cut offset (first :: more) [piece .identifier (first :: more) offset] rest := by
  apply cut_of_scan (isBlank_eq_false start rfl)
  rw [scan?_of_isWordStart start, runLength_append inside stops]

end StringForms.Sexp
