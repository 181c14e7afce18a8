/-
Module: StringForms.Toml.Number
Purpose: Integers and reals.
Main exports: grouped?, integer?, isReal
-/
import StringForms.Text.Decimal
import StringForms.Text.Hex

namespace StringForms.Toml

open StringForms.Text

/-- The digits of a text that may hold single underscores between digits; `afterDigit` says whether a
digit stands just before. -/
def groupedFrom (isDigit : Char → Bool) (afterDigit : Bool) : List Char → Option (List Char)
  | [] => if afterDigit then some [] else none
  | character :: rest =>
      if isDigit character then (character :: ·) <$> groupedFrom isDigit true rest
      else if character = '_' && afterDigit then groupedFrom isDigit false rest
      else none

/-- The digits of a text that has at least one, with single underscores between digits left out. -/
def grouped? (isDigit : Char → Bool) (text : List Char) : Option (List Char) :=
  groupedFrom isDigit false text

/-- Decimal digits that start with a zero only if the zero is all there is. -/
def plainDigits? (text : List Char) : Option (List Char) :=
  match grouped? Char.isDigit text with
  | some ('0' :: _ :: _) => none
  | digits => digits

/-- The digits of a base up to ten. -/
def isDigitBelow (base : Nat) (character : Char) : Bool :=
  character.isDigit && decide (character.toNat < '0'.toNat + base)

/-- The value of an integer of any length. Only a decimal integer has a sign. -/
def integerValue? : List Char → Option Int
  | '0' :: 'x' :: text => (Int.ofNat ∘ Hex.value) <$> grouped? Hex.isDigit text
  | '0' :: 'o' :: text => (Int.ofNat ∘ (Nat.ofDigitChars 8 · 0)) <$> grouped? (isDigitBelow 8) text
  | '0' :: 'b' :: text => (Int.ofNat ∘ (Nat.ofDigitChars 2 · 0)) <$> grouped? (isDigitBelow 2) text
  | '+' :: text => (Int.ofNat ∘ Decimal.value) <$> plainDigits? text
  | '-' :: text => (fun digits => -Int.ofNat (Decimal.value digits)) <$> plainDigits? text
  | text => (Int.ofNat ∘ Decimal.value) <$> plainDigits? text

/-- An integer, which must fit 128 bits with or without a sign. -/
def integer? (text : List Char) : Option Int :=
  match integerValue? text with
  | some value =>
      if -Int.ofNat (Nat.pow 2 127) ≤ value ∧ value < Int.ofNat (Nat.pow 2 128) then some value
      else none
  | none => none

/-- A text without the sign that it may start with. -/
def dropSign : List Char → List Char
  | '+' :: rest => rest
  | '-' :: rest => rest
  | text => text

/-- Whether a character marks the exponent of a real. -/
def isExponentMark (character : Char) : Bool :=
  character == 'e' || character == 'E'

/-- The exponent that a text is, with its mark; without a text it is zero. -/
def exponent? : List Char → Option Int
  | [] => some 0
  | mark :: text =>
      if isExponentMark mark then
        (fun digits =>
          if text.head? = some '-' then -Int.ofNat (Decimal.value digits)
          else Int.ofNat (Decimal.value digits)) <$> grouped? Char.isDigit (dropSign text)
      else none

/-- Whether `digits · 10 ^ exponent` is nearer to a finite binary number of 64 bits than to infinity.
The count of digits settles all numbers but those of 309 places, and these are compared with the
middle between the largest finite number and the next power of two. -/
def isFinite (digits : List Char) (exponent : Int) : Bool :=
  let significant := digits.dropWhile (· == '0')
  let places := Int.ofNat significant.length + exponent
  if significant.isEmpty || places < 309 then true
  else if 309 < places then false
  else
    let value := Decimal.value significant
    let middle := Nat.pow 2 1024 - Nat.pow 2 970
    if 0 ≤ exponent then decide (value * Nat.pow 10 exponent.toNat < middle)
    else decide (value < middle * Nat.pow 10 (-exponent).toNat)

/-- Whether a text without a sign is a real: an infinity, no number, or decimal digits with a
fraction, an exponent or both. -/
def isUnsignedReal (text : List Char) : Bool :=
  if text = ['i', 'n', 'f'] || text = ['n', 'a', 'n'] then true
  else
    let whole := text.takeWhile fun character => character != '.' && !isExponentMark character
    let checked (fraction : List Char) (exponentText : List Char) : Bool :=
      match plainDigits? whole, exponent? exponentText with
      | some digits, some exponent =>
          isFinite (digits ++ fraction) (exponent - Int.ofNat fraction.length)
      | _, _ => false
    match text.drop whole.length with
    | [] => false
    | '.' :: rest =>
        let places := rest.takeWhile fun character => !isExponentMark character
        match grouped? Char.isDigit places with
        | some fraction => checked fraction (rest.drop places.length)
        | none => false
    | exponentText => checked [] exponentText

/-- Whether a text is a real. -/
def isReal (text : List Char) : Bool :=
  isUnsignedReal (dropSign text)

end StringForms.Toml
