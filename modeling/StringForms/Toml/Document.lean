/-
Module: StringForms.Toml.Document
Purpose: Reading a whole document into the table that it describes.
Main exports: Statement, statement?, statements?, Section, document?, Codec.standard
-/
import StringForms.Text.Decimal
import StringForms.Toml.Codec
import StringForms.Toml.Item

namespace StringForms.Toml

/-- What a line says: a key has a value, or a header opens a table or a new member of a list of
tables. -/
inductive Statement where
  | pair (key : KeyPath) (item : Item)
  | table (key : KeyPath)
  | element (key : KeyPath)
deriving Repr, Inhabited

/-- The statement at the start of a line, and what follows it. A line that holds none is blank. -/
def statement? (input : List Char) : Option (Option Statement × List Char) :=
  match skipBlanks input with
  | '[' :: '[' :: rest =>
      match keyPath? (skipBlanks rest) with
      | some (key, ']' :: ']' :: rest) => some (some (.element key), rest)
      | _ => none
  | '[' :: rest =>
      match keyPath? (skipBlanks rest) with
      | some (key, ']' :: rest) => some (some (.table key), rest)
      | _ => none
  | [] => some (none, [])
  | first :: rest =>
      if first = '#' || (newline? (first :: rest)).isSome then some (none, first :: rest)
      else
        (fun read => (some (.pair read.1.1 read.1.2), read.2)) <$>
          pair? (some ∘ skipBlanks) item? (first :: rest)

/-- The statements of a text of at most `limit` lines. -/
def statementsWithin (limit : Nat) (input : List Char) : Option (List Statement) :=
  match limit with
  | 0 => none
  | limit + 1 =>
      if input.isEmpty then some []
      else do
        let (statement, rest) ← statement? input
        let rest ← lineEnd? rest
        let later ← statementsWithin limit rest
        pure (statement.toList ++ later)

/-- The statements of a text. No text has more lines than characters. -/
def statements? (input : List Char) : Option (List Statement) :=
  statementsWithin (input.length + 1) input

/-- The table that has been described so far, and the path of the latest header. -/
structure Section where
  root : Entries
  path : List String
deriving Repr, Inhabited

/-- Adds what a statement says. Pairs go to the table of the latest header. -/
def Section.add (state : Section) : Statement → Option Section
  | .pair key item =>
      (fun root => { state with root := root }) <$>
        within .header (fun _ entries => insertPair key item entries) .header state.path state.root
  | .table key =>
      (fun root => { root := root, path := key.parents ++ [key.last] }) <$>
        openTable key state.root
  | .element key =>
      (fun root => { root := root, path := key.parents ++ [key.last] }) <$>
        openElement key state.root

/-- A text without the mark of its byte order. -/
def dropByteOrderMark : List Char → List Char
  | '\uFEFF' :: rest => rest
  | input => input

/-- The table that a document describes. -/
def document? (text : String) : Option Entries := do
  let statements ← statements? (dropByteOrderMark text.toList)
  let state ← statements.foldlM Section.add { root := [], path := [] }
  pure state.root

/-- The library that knows the standard. It gives each field of a record a line of its own. -/
def Codec.standard : Codec where
  print fields := String.join (fields.map fun field =>
    field.1 ++ " = " ++ String.ofList (Text.Decimal.digits field.2.toNat) ++ "\n")
  parse? := document?

end StringForms.Toml
