/-
Module: StringForms.Proofs.Source.Scanner
Purpose: Reading source text from left to right for the places at which it opens an interpolation.
Main exports: Scanner, Spot, Scanner.openings, Scanner.count, Scanner.Opens
-/
import Mathlib.Data.List.Basic
import StringForms.Source.Literal

namespace StringForms.Source

/-!
A reader of source text takes a backslash together with the character after it. Of the rest, a `#`
opens an interpolation if the next character is one of a few. This knows nothing of how the text
was written, so it can say whether what was written means what it should.
-/

/-- What a reader looks for: the character that opens and closes a literal, if literals have to be
found first, and the characters that make a `#` before them open an interpolation. -/
structure Scanner where
  quote? : Option Char
  starts : Char → Bool

namespace Scanner

/-- Source text with literals between double quotes. -/
def literals : Scanner where
  quote? := some '"'
  starts := Literal.startsInterpolation

/-- The lines of a heredoc, which are all inside, as far as braces are concerned. -/
def lines : Scanner where
  quote? := none
  starts := (· == '{')

end Scanner

/-- Where a reader stands: between literals, inside one, or inside one just behind a backslash. -/
inductive Spot where
  | outside
  | inside
  | escaped
deriving Repr, Inhabited, DecidableEq

namespace Scanner

variable (scanner : Scanner)

/-- The places at which a text opens an interpolation, counted on from `place`, for a reader who
comes to it at some spot. -/
def openings (spot : Spot) (place : Nat) : List Char → List Nat
  | [] => []
  | character :: rest =>
      match spot with
      | .outside =>
          openings (if some character = scanner.quote? then .inside else .outside) (place + 1) rest
      | .escaped => openings .inside (place + 1) rest
      | .inside =>
          if character = '\\' then openings .escaped (place + 1) rest
          else if some character = scanner.quote? then openings .outside (place + 1) rest
          else if character = '#' ∧ rest.head?.any scanner.starts then
            place :: openings .inside (place + 1) rest
          else openings .inside (place + 1) rest

/-- How many interpolations a text opens. -/
def count (spot : Spot) (text : List Char) : Nat :=
  (scanner.openings spot 0 text).length

/-- Whether a text starts with a character that makes a `#` before it open an interpolation. -/
def Opens (text : List Char) : Bool :=
  text.head?.any scanner.starts

variable {scanner}

/-! ### One character at a time -/

/-- A backslash takes the next character with it, and neither opens anything. -/
theorem openings_escape (place : Nat) (character : Char) (rest : List Char) :
    scanner.openings .inside place ('\\' :: character :: rest) =
      scanner.openings .inside (place + 2) rest := by
  simp [openings]

theorem openings_escaped (place : Nat) (character : Char) (rest : List Char) :
    scanner.openings .escaped place (character :: rest) =
      scanner.openings .inside (place + 1) rest := by
  simp [openings]

/-- A character that a reader does not look for. -/
def Inert (scanner : Scanner) (character : Char) : Prop :=
  character ≠ '\\' ∧ character ≠ '#' ∧ some character ≠ scanner.quote?

theorem openings_inert {character : Char} (inert : scanner.Inert character) (place : Nat)
    (rest : List Char) :
    scanner.openings .inside place (character :: rest) =
      scanner.openings .inside (place + 1) rest := by
  obtain ⟨notBackslash, notHash, notQuote⟩ := inert
  simp [openings, notBackslash, notHash, notQuote]

/-- A hash opens something if what stands behind it does, and is passed over. -/
theorem openings_hash (notQuote : some '#' ≠ scanner.quote?) (place : Nat) (rest : List Char) :
    scanner.openings .inside place ('#' :: rest) =
      (if scanner.Opens rest then [place] else []) ++
        scanner.openings .inside (place + 1) rest := by
  by_cases opens : scanner.Opens rest = true
  · rw [if_pos opens]
    unfold Opens at opens
    simp [openings, notQuote, opens]
  · rw [if_neg opens]
    unfold Opens at opens
    simp [openings, notQuote, opens]

/-- No opening is found before the place at which the scan starts. -/
theorem le_of_mem_openings {spot : Spot} {place found : Nat} {text : List Char}
    (member : found ∈ scanner.openings spot place text) : place ≤ found := by
  induction text generalizing spot place with
  | nil => cases member
  | cons character rest ih =>
      have later : ∀ {spot}, found ∈ scanner.openings spot (place + 1) rest → place ≤ found :=
        fun behind => Nat.le_of_succ_le (ih behind)
      cases spot with
      | outside => exact later member
      | escaped => exact later member
      | inside =>
          rw [openings] at member
          split at member
          · exact later member
          split at member
          · exact later member
          split at member
          · rcases List.mem_cons.mp member with rfl | behind
            · exact Nat.le_refl found
            · exact later behind
          · exact later member

/-! ### The number of openings -/

/-- Counting the openings is the same as finding their places. -/
theorem length_openings (spot : Spot) (place : Nat) (text : List Char) :
    (scanner.openings spot place text).length = scanner.count spot text := by
  have anywhere : ∀ place other,
      (scanner.openings spot place text).length = (scanner.openings spot other text).length := by
    induction text generalizing spot with
    | nil => exact fun _ _ => rfl
    | cons character rest ih =>
        intro place other
        cases spot with
        | outside => exact ih _ _ _
        | escaped => exact ih _ _ _
        | inside =>
            rw [openings, openings]
            split
            · exact ih _ _ _
            split
            · exact ih _ _ _
            split
            · exact congrArg (· + 1) (ih _ _ _)
            · exact ih _ _ _
  exact anywhere place 0

theorem count_escape (character : Char) (rest : List Char) :
    scanner.count .inside ('\\' :: character :: rest) = scanner.count .inside rest := by
  rw [count, openings_escape, length_openings]

theorem count_inert {character : Char} (inert : scanner.Inert character) (rest : List Char) :
    scanner.count .inside (character :: rest) = scanner.count .inside rest := by
  rw [count, openings_inert inert, length_openings]

theorem count_hash (notQuote : some '#' ≠ scanner.quote?) (rest : List Char) :
    scanner.count .inside ('#' :: rest) =
      (scanner.Opens rest).toNat + scanner.count .inside rest := by
  rw [count, openings_hash notQuote, List.length_append, length_openings]
  cases scanner.Opens rest <;> rfl

/-- At a quote a literal begins. -/
theorem count_opening_quote {quote : Char} (delimits : scanner.quote? = some quote)
    (rest : List Char) :
    scanner.count .outside (quote :: rest) = scanner.count .inside rest := by
  rw [count, openings, if_pos delimits.symm, length_openings]

/-- At the next it ends. -/
theorem count_closing_quote {quote : Char} (delimits : scanner.quote? = some quote)
    (notBackslash : quote ≠ '\\') (rest : List Char) :
    scanner.count .inside (quote :: rest) = scanner.count .outside rest := by
  rw [count, openings, if_neg notBackslash, if_pos delimits.symm, length_openings]

/-- Between literals nothing is counted. -/
theorem count_between {character : Char} (notQuote : some character ≠ scanner.quote?)
    (rest : List Char) :
    scanner.count .outside (character :: rest) = scanner.count .outside rest := by
  rw [count, openings, if_neg notQuote, length_openings]

end Scanner

end StringForms.Source
