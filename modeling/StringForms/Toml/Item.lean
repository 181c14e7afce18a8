/-
Module: StringForms.Toml.Item
Purpose: Reading a value.
Main exports: depthLimit, scalar?, item?, pair?
-/
import StringForms.Toml.Key
import StringForms.Toml.Moment
import StringForms.Toml.Number
import StringForms.Toml.Table

namespace StringForms.Toml

/-- How many lists and tables in braces may stand inside each other. -/
def depthLimit : Nat := 80

/-- The characters of a value without quotes or brackets. -/
def isWordChar (character : Char) : Bool :=
  character.isAlphanum || character == '+' || character == '-' || character == '_' ||
    character == '.' || character == ':'

/-- How many characters a value without quotes or brackets takes. A date may be followed by one space
and a time, which belongs to it. -/
def wordLength (input : List Char) : Nat :=
  let word := input.takeWhile isWordChar
  match date? word, input.drop word.length with
  | some [], ' ' :: digit :: rest =>
      if digit.isDigit then
        word.length + 1 + ((digit :: rest).takeWhile isWordChar).length
      else word.length
  | _, _ => word.length

/-- The value that a word is. -/
def wordValue? (word : List Char) : Option Scalar :=
  if word = ['t', 'r', 'u', 'e'] then some (.truth true)
  else if word = ['f', 'a', 'l', 's', 'e'] then some (.truth false)
  else
    match integer? word with
    | some value => some (.integer value)
    | none =>
        if isReal word then some (.real (String.ofList word))
        else if isMoment word then some (.moment (String.ofList word))
        else none

/-- A value that is no collection, and what follows it. -/
def scalar? (input : List Char) : Option (Item × List Char) :=
  match input with
  | '"' :: _ | '\'' :: _ =>
      (fun read => (.scalar (.text (String.ofList read.1)), read.2)) <$> text? input
  | _ =>
      let length := wordLength input
      (fun value => (.scalar value, input.drop length)) <$> wordValue? (input.take length)

/-- A key with its value, and what follows them. Given are the reader of the value and what may be
skipped on either side of the equals sign. -/
def pair? (skip? : List Char → Option (List Char))
    (value? : List Char → Option (Item × List Char)) (input : List Char) :
    Option ((KeyPath × Item) × List Char) := do
  let (key, rest) ← keyPath? input
  match ← skip? rest with
  | '=' :: rest =>
      let (item, rest) ← value? (← skip? rest)
      some ((key, item), rest)
  | _ => none

/-- The members of a list from the first one on, with what follows the closing bracket. Line ends and
comments may stand anywhere between them, and a comma may stand after the last. -/
def listMembers (value? : List Char → Option (Item × List Char)) (limit : Nat)
    (input : List Char) : Option (List Item × List Char) :=
  match limit with
  | 0 => none
  | limit + 1 => do
      let input ← skipLines? input
      match input with
      | ']' :: rest => some ([], rest)
      | _ =>
          let (item, rest) ← value? input
          match ← skipLines? rest with
          | ']' :: rest => some ([item], rest)
          | ',' :: rest =>
              let (items, rest) ← listMembers value? limit rest
              some (item :: items, rest)
          | _ => none

/-- The pairs of a table in braces, added to the entries before them, with what follows the closing
brace. Like in a list, line ends and comments may stand anywhere between the words, and a comma may
stand after the last pair. -/
def tableMembers (value? : List Char → Option (Item × List Char)) (limit : Nat)
    (entries : Entries) (input : List Char) : Option (Entries × List Char) :=
  match limit with
  | 0 => none
  | limit + 1 => do
      let input ← skipLines? input
      match input with
      | '}' :: rest => some (entries, rest)
      | _ =>
          let ((key, item), rest) ← pair? skipLines? value? input
          let entries ← insertPair key item entries
          match ← skipLines? rest with
          | '}' :: rest => some (entries, rest)
          | ',' :: rest => tableMembers value? limit entries rest
          | _ => none

/-- A value that holds at most `depth` collections inside each other, and what follows it. -/
def itemWithin : Nat → List Char → Option (Item × List Char)
  | 0, input => scalar? input
  | depth + 1, '[' :: rest =>
      (fun read => (.list read.1, read.2)) <$>
        listMembers (itemWithin depth) (rest.length + 1) rest
  | depth + 1, '{' :: rest =>
      (fun read => (.table .inlined read.1, read.2)) <$>
        tableMembers (itemWithin depth) (rest.length + 1) [] rest
  | _ + 1, input => scalar? input

/-- A value, and what follows it. -/
def item? (input : List Char) : Option (Item × List Char) :=
  itemWithin depthLimit input

end StringForms.Toml
