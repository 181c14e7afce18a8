/-
Module: StringForms.Text.Decimal
Purpose: Whole numbers in decimal: writing them, and reading a run of digits with a sign.
Main exports: Decimal.digits, Decimal.value, Decimal.ofInt, Decimal.intValue
-/

namespace StringForms.Text.Decimal

/-- The decimal digits of a number, without padding. -/
def digits (number : Nat) : List Char :=
  Nat.toDigits 10 number

/-- The number that a run of decimal digits spells. -/
def value (text : List Char) : Nat :=
  Nat.ofDigitChars 10 text 0

/-- A whole number in decimal, with a minus sign if it is negative. -/
def ofInt : Int → List Char
  | .ofNat number => digits number
  | .negSucc below => '-' :: digits (below + 1)

/-- The number spelled by digits that may follow one minus sign. -/
def intValue : List Char → Int
  | '-' :: text => -Int.ofNat (value text)
  | text => Int.ofNat (value text)

/-- A number is the value of its digits. -/
@[simp] theorem value_digits (number : Nat) : value (digits number) = number := by
  simp [value, digits]

end StringForms.Text.Decimal
