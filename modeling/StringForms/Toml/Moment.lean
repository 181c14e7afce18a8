/-
Module: StringForms.Toml.Moment
Purpose: Dates, times of day, and both together.
Main exports: date?, time?, isOffset, isMoment
-/
import StringForms.Text.Decimal

namespace StringForms.Toml

open StringForms.Text

/-- A number of exactly `width` digits, from `low` to `high`, at the start of a text. -/
def field? (width low high : Nat) (text : List Char) : Option (Nat × List Char) :=
  let digits := text.take width
  let value := Decimal.value digits
  if digits.length = width ∧ digits.all Char.isDigit ∧ low ≤ value ∧ value ≤ high then
    some (value, text.drop width)
  else none

/-- A text without a given first character. -/
def after? (mark : Char) : List Char → Option (List Char)
  | character :: rest => if character = mark then some rest else none
  | [] => none

/-- Every fourth year is a leap year, but of the full centuries only every fourth. -/
def isLeapYear (year : Nat) : Bool :=
  year % 4 == 0 && (year % 100 != 0 || year % 400 == 0)

/-- The number of days in a month. -/
def daysIn (year month : Nat) : Nat :=
  if month = 2 then (if isLeapYear year then 29 else 28)
  else if month = 4 ∨ month = 6 ∨ month = 9 ∨ month = 11 then 30
  else 31

/-- What follows a date. -/
def date? (text : List Char) : Option (List Char) := do
  let (year, text) ← field? 4 0 9999 text
  let text ← after? '-' text
  let (month, text) ← field? 2 1 12 text
  let text ← after? '-' text
  let (_, text) ← field? 2 1 (daysIn year month) text
  pure text

/-- What follows the fraction of a second, which may be left out. -/
def fraction? : List Char → Option (List Char)
  | '.' :: digits =>
      let count := (digits.takeWhile Char.isDigit).length
      if count = 0 then none else some (digits.drop count)
  | text => some text

/-- What follows the seconds of a time, which may be left out; a fraction needs them. The sixtieth
second is that of a leap second. -/
def seconds? : List Char → Option (List Char)
  | ':' :: text => do
      let (_, text) ← field? 2 0 60 text
      fraction? text
  | text => some text

/-- What follows a time of day. -/
def time? (text : List Char) : Option (List Char) := do
  let (_, text) ← field? 2 0 23 text
  let text ← after? ':' text
  let (_, text) ← field? 2 0 59 text
  seconds? text

/-- Whether a text is nothing, or the offset of a clock: none at all, or hours and minutes with a
sign. -/
def isOffset : List Char → Bool
  | [] => true
  | mark :: rest =>
      if mark = 'Z' || mark = 'z' then rest.isEmpty
      else if mark = '+' || mark = '-' then
        (do
          let (_, text) ← field? 2 0 23 rest
          let text ← after? ':' text
          let (_, text) ← field? 2 0 59 text
          pure text.isEmpty : Option Bool).getD false
      else false

/-- Whether a text is a date, a time of day, or a date and a time with or without an offset. -/
def isMoment (text : List Char) : Bool :=
  match date? text with
  | none => time? text == some []
  | some [] => true
  | some (mark :: clock) =>
      (mark == 'T' || mark == 't' || mark == ' ') &&
        match time? clock with
        | some offset => isOffset offset
        | none => false

end StringForms.Toml
