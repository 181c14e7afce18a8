/-
Module: StringForms.Toml.Key
Purpose: Keys, bare or quoted, and paths of keys with dots.
Main exports: key?, keyPath?
-/
import StringForms.Toml.Text
import StringForms.Toml.Value

namespace StringForms.Toml

/-- The characters of a bare key. -/
def isKeyPart (character : Char) : Bool :=
  character.isAlphanum || character == '_' || character == '-'

/-- One key, and what follows it. A quoted key stays on one line. -/
def key? : List Char → Option (String × List Char)
  | '"' :: rest => (fun read => (String.ofList read.1, read.2)) <$> basicText? rest
  | '\'' :: rest => (fun read => (String.ofList read.1, read.2)) <$> literalText? rest
  | input =>
      let name := input.takeWhile isKeyPart
      if name.isEmpty then none else some (String.ofList name, input.drop name.length)

/-- A path of at most `limit` keys, and what follows it and the blanks after it. -/
def keyPathWithin (limit : Nat) (input : List Char) : Option (KeyPath × List Char) :=
  match limit with
  | 0 => none
  | limit + 1 =>
      match key? input with
      | none => none
      | some (name, rest) =>
          match skipBlanks rest with
          | '.' :: rest =>
              match keyPathWithin limit (skipBlanks rest) with
              | none => none
              | some (path, rest) => some ({ path with parents := name :: path.parents }, rest)
          | rest => some ({ parents := [], last := name }, rest)

/-- A path of keys, and what follows it and the blanks after it. No path has more keys than the
input has characters. -/
def keyPath? (input : List Char) : Option (KeyPath × List Char) :=
  keyPathWithin (input.length + 1) input

end StringForms.Toml
