/-
Module: StringForms.Text.Hex
Purpose: Hexadecimal digits: writing a number, reading a run of digits, and the character that a
  code point stands for.
Main exports: Hex.isDigit, Hex.value, Hex.upperDigits, Hex.run, scalar?
-/

namespace StringForms.Text

namespace Hex

/-- The value of one hexadecimal digit, in either case. -/
def digitValue? (character : Char) : Option Nat :=
  if character.isDigit then some (character.toNat - '0'.toNat)
  else if 'a' ≤ character ∧ character ≤ 'f' then some (character.toNat - 'a'.toNat + 10)
  else if 'A' ≤ character ∧ character ≤ 'F' then some (character.toNat - 'A'.toNat + 10)
  else none

/-- Whether a character is a hexadecimal digit. -/
def isDigit (character : Char) : Bool :=
  (digitValue? character).isSome

/-- The number that a run of digits spells, the most significant digit first. -/
def value (digits : List Char) : Nat :=
  digits.foldl (fun total digit => 16 * total + (digitValue? digit).getD 0) 0

/-- The upper-case digits of a number, without padding. -/
def upperDigits (number : Nat) : List Char :=
  (Nat.toDigits 16 number).map Char.toUpper

/-- The longest run of digits at the start of a text, but at most `limit` of them. -/
def run (limit : Nat) (text : List Char) : List Char :=
  (text.take limit).takeWhile isDigit

end Hex

/-- The character with a given code point; surrogates and numbers past U+10FFFF name none. -/
def scalar? (codePoint : Nat) : Option Char :=
  if codePoint.isValidChar then some (Char.ofNat codePoint) else none

end StringForms.Text
