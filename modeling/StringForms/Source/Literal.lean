/-
Module: StringForms.Source.Literal
Purpose: How literal text is escaped between double quotes and in the body of a heredoc.
Main exports: Literal.quoted, Literal.heredoc, Literal.isPlainInHeredoc
-/
import StringForms.Text.CharClass
import StringForms.Text.Hex

namespace StringForms.Source.Literal

open Text

/-!
Between quotes a `#` is escaped only where it would start an interpolation, which the next
character of the same text decides. In a heredoc every `#` is escaped and nothing else is.
-/

/-- The characters that turn a `#` before them into the start of an interpolation. -/
def startsInterpolation (character : Char) : Bool :=
  character == '{' || character == '$' || character == '@'

/-- How a character is written between quotes, given the one that follows it. -/
def quotedChar (character : Char) (next : Option Char) : List Char :=
  if character = '"' then ['\\', '"']
  else if character = '\\' then ['\\', '\\']
  else if character = '#' then
    if next.any startsInterpolation then ['\\', '#'] else ['#']
  else if character = '\n' then ['\\', 'n']
  else if character = '\t' then ['\\', 't']
  else if character = '\r' then ['\\', 'r']
  else if character = '\x0c' then ['\\', 'f']
  else if character = '\x0b' then ['\\', 'v']
  else if character = '\x08' then ['\\', 'b']
  else if character = '\x07' then ['\\', 'a']
  else if character = '\x1b' then ['\\', 'e']
  else if isControl character then
    ['\\', 'u'] ++ (Hex.upperDigits character.toNat).leftpad 4 '0'
  else [character]

/-- The text of a literal between double quotes, without the quotes. -/
def quoted : List Char → List Char
  | [] => []
  | character :: rest => quotedChar character rest.head? ++ quoted rest

/-- How a character is written in a heredoc. -/
def heredocChar (character : Char) : List Char :=
  if character = '#' then ['\\', '#'] else [character]

/-- The text of a literal in the body of a heredoc. -/
def heredoc (text : List Char) : List Char :=
  text.flatMap heredocChar

/-- Whether a text stands in a heredoc as it is. -/
def isPlainInHeredoc (text : List Char) : Bool :=
  !text.contains '#'

/-- Such a text needs no escape there. -/
theorem heredoc_eq_self {text : List Char} (plain : isPlainInHeredoc text = true) :
    heredoc text = text := by
  induction text with
  | nil => rfl
  | cons character rest ih =>
      simp only [isPlainInHeredoc, List.contains_cons, Bool.not_or, Bool.and_eq_true,
        Bool.not_eq_true', beq_eq_false_iff_ne, ne_eq] at plain
      have other : character ≠ '#' := fun equal => plain.1 equal.symm
      have tail := ih (by simpa [isPlainInHeredoc] using plain.2)
      simpa [heredoc, heredocChar, other] using tail

end StringForms.Source.Literal
