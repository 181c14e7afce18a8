/-
Module: StringForms.Toml.Value
Purpose: What a settings document can hold, and how each of its tables came to be.
Main exports: Scalar, Origin, Item, Entries, KeyPath
-/

namespace StringForms.Toml

/-- A value that is no collection. Reals and moments are checked when they are read and kept as they
are spelled. -/
inductive Scalar where
  | text (content : String)
  | integer (value : Int)
  | real (spelling : String)
  | truth (value : Bool)
  | moment (spelling : String)
deriving Repr, Inhabited, DecidableEq

/-- How a table came to be: it has a header of its own, stands on the way to a longer header, stands
on the way to a dotted key, or is written in braces. Only some tables may be added to later. -/
inductive Origin where
  | header
  | implied
  | dotted
  | inlined
deriving Repr, Inhabited, DecidableEq

/-- A value of a document. A list of tables that is made by headers has at least one member, and
only its latest member is ever added to. -/
inductive Item where
  | scalar (value : Scalar)
  | list (items : List Item)
  | table (origin : Origin) (entries : List (String × Item))
  | tables (earlier : List (List (String × Item))) (latest : List (String × Item))
deriving Repr, Inhabited

/-- The entries of a table, in the order in which they were made. -/
abbrev Entries := List (String × Item)

/-- A key with the keys of the tables that lead to it. -/
structure KeyPath where
  parents : List String
  last : String
deriving Repr, Inhabited, DecidableEq

end StringForms.Toml
