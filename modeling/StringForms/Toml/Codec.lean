/-
Module: StringForms.Toml.Codec
Purpose: What is asked of a library for documents: to write the fields of a record down, and to find
  the table that a document describes.
Main exports: Codec
-/
import StringForms.Toml.Value

namespace StringForms.Toml

/-- A library for documents. The records that it writes have integers of 64 bits for fields; what it
reads may be any text, and not every text is a document. -/
structure Codec where
  print : List (String × UInt64) → String
  parse? : String → Option Entries

end StringForms.Toml
