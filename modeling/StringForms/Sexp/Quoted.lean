/-
Module: StringForms.Sexp.Quoted
Purpose: The inside of a quoted atom: writing a text with escapes, and reading it back.
Main exports: Quoted.encode, Quoted.escape, Quoted.decode, unescape
-/
import StringForms.Text.CharClass
import StringForms.Text.Hex
import StringForms.Text.Bytes
import StringForms.Sexp.Error

namespace StringForms.Sexp

open Text

namespace Quoted

/-!
A quoted text is a row of units. A unit is one character other than a backslash, or a backslash
with what it governs: one letter, one or two hexadecimal digits after `x`, exactly four after `u`,
or one to six in braces after `u`. Writing uses few of these units, reading takes them all.
-/

/-- How one character is written between quotes. -/
def encodeChar (character : Char) : List Char :=
  if character = '"' then ['\\', '"']
  else if character = '\\' then ['\\', '\\']
  else if character = '\n' then ['\\', 'n']
  else if character = '\t' then ['\\', 't']
  else if character = '\r' then ['\\', 'r']
  else if character = '\x1b' then ['\\', 'e']
  else if isControl character then
    ['\\', 'u', '{'] ++ Hex.upperDigits character.toNat ++ ['}']
  else [character]

/-- How a text is written between quotes. -/
def encode (text : List Char) : List Char :=
  text.flatMap encodeChar

/-- The character that a backslash and one letter stand for. -/
def simpleEscape? (letter : Char) : Option Char :=
  match letter with
  | 'n' => some '\n'
  | 't' => some '\t'
  | 'r' => some '\r'
  | 'f' => some '\x0c'
  | 'v' => some '\x0b'
  | 'b' => some '\x08'
  | 'a' => some '\x07'
  | 'e' => some '\x1b'
  | 's' => some ' '
  | '0' => some '\x00'
  | '\\' => some '\\'
  | '"' => some '"'
  | '#' => some '#'
  | '\'' => some '\''
  | _ => none

/-- An escape whose digits name a code point: it takes `length` characters after the backslash,
and is broken in that length if no character has that code point. All of them take one byte. -/
def coded (length : Nat) (digits : List Char) : Except Nat (Char × Nat) :=
  match scalar? (Hex.value digits) with
  | some character => .ok (character, length)
  | none => .error length

/-- Reads the escape that the text after a backslash starts with. The answer is the character and
the number of characters that spell it. For a broken escape it is the byte, from the backslash on,
at which the broken piece ends: it is counted as the bytes of the letter and one for each digit and
brace behind it. -/
def escape : List Char → Except Nat (Char × Nat)
  | [] => .error 0
  | 'x' :: rest =>
      match Hex.run 2 rest with
      | [] => .error 1
      | digits => coded (1 + digits.length) digits
  | 'u' :: '{' :: rest =>
      let digits := Hex.run 6 rest
      if digits.isEmpty || (rest.drop digits.length).head? != some '}' then
        .error (2 + digits.length)
      else coded (3 + digits.length) digits
  | 'u' :: rest =>
      let digits := Hex.run 4 rest
      if digits.length = 4 then coded 5 digits else .error (1 + digits.length)
  | letter :: _ =>
      match simpleEscape? letter with
      | some character => .ok (character, 1)
      | none => .error letter.utf8Size

/-- Reads a quoted text that stands at a given byte of the input. Each step takes one unit; the
first backslash at which no unit can be taken is reported. -/
def decode (offset : Nat) : List Char → Except ReadError (List Char)
  | [] => .ok []
  | character :: rest =>
      if character = '\\' then
        match escape rest with
        | .error bytes =>
            .error (.invalidEscape (String.ofList ('\\' :: takeBytes bytes rest)) offset)
        | .ok (decoded, length) => do
            let later ← decode (offset + 1 + byteSize (rest.take length)) (rest.drop length)
            pure (decoded :: later)
      else do
        let later ← decode (offset + character.utf8Size) rest
        pure (character :: later)
termination_by text => text.length
decreasing_by all_goals (simp; try omega)

end Quoted

/-- Reads the inside of a quoted atom; `offset` is where it stands in the input. -/
def unescape (body : String) (offset : Nat) : Except ReadError String :=
  String.ofList <$> Quoted.decode offset body.toList

end StringForms.Sexp
