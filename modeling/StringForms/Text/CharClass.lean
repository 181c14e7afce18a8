/-
Module: StringForms.Text.CharClass
Purpose: The character classes that decide where a bare symbol ends and which characters have
  to be written as escapes.
Main exports: whiteSpaceRanges, isWhiteSpace, isControl, isWordStart, isWordPart
-/

namespace StringForms.Text

/-!
Core's `Char.isWhitespace` knows four ASCII characters only, so the property `White_Space` is
given here as the table of its ranges. All other classes are small enough to be written out.
-/

/-- The code points with the property `White_Space`, as closed ranges in ascending order. -/
def whiteSpaceRanges : List (Nat × Nat) :=
  [(0x0009, 0x000D), (0x0020, 0x0020), (0x0085, 0x0085), (0x00A0, 0x00A0), (0x1680, 0x1680),
   (0x2000, 0x200A), (0x2028, 0x2029), (0x202F, 0x202F), (0x205F, 0x205F), (0x3000, 0x3000)]

/-- A character is white space when its code point lies in one of the ranges of the table. -/
def isWhiteSpace (character : Char) : Bool :=
  whiteSpaceRanges.any fun range =>
    decide (range.1 ≤ character.toNat) && decide (character.toNat ≤ range.2)

/-- Control characters are U+0000 to U+001F and U+007F to U+009F. -/
def isControl (character : Char) : Bool :=
  decide (character.toNat < 0x20) ||
    (decide (0x7F ≤ character.toNat) && decide (character.toNat < 0xA0))

/-- An identifier starts with an ASCII letter or an underscore. -/
def isWordStart (character : Char) : Bool :=
  character.isAlpha || character == '_'

/-- An identifier goes on with ASCII letters, ASCII digits and underscores. -/
def isWordPart (character : Char) : Bool :=
  character.isAlphanum || character == '_'

end StringForms.Text
