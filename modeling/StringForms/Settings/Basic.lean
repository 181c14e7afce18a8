/-
Module: StringForms.Settings.Basic
Purpose: The settings of a rendering, their text in a file, and where that file is kept.
Main exports: Settings, Settings.standard, Settings.indentUnit, Settings.text, Settings.ofText?,
  Settings.Documented, Settings.homePath
-/
import StringForms.Text.Decimal
import StringForms.Toml.Codec

namespace StringForms

open Text

/-- How a string is laid out: the number of spaces of one indentation level. -/
structure Settings where
  indentWidth : UInt64
deriving Repr, Inhabited, DecidableEq

namespace Settings

/-- What holds where nothing is set. -/
def standard : Settings :=
  { indentWidth := 2 }

/-- The text of one indentation level. -/
def indentUnit (settings : Settings) : String :=
  String.ofList (List.replicate settings.indentWidth.toNat ' ')

/-- The key of the only setting. -/
def widthKey : String := "indent_width"

/-- The settings as the fields of a record. -/
def fields (settings : Settings) : List (String × UInt64) :=
  [(widthKey, settings.indentWidth)]

/-- The settings that a table holds. Keys of other names are left alone; a width must be an integer
that fits 64 bits without a sign. -/
def ofEntries? (entries : Toml.Entries) : Option Settings :=
  match entries.lookup widthKey with
  | none => some standard
  | some (.scalar (.integer value)) =>
      if 0 ≤ value ∧ value < Int.ofNat UInt64.size then
        some { indentWidth := UInt64.ofNat value.toNat }
      else none
  | some _ => none

/-- The settings as a document. -/
def text (codec : Toml.Codec) (settings : Settings) : String :=
  codec.print settings.fields

/-- The settings that a document describes. -/
def ofText? (codec : Toml.Codec) (document : String) : Option Settings := do
  let entries ← codec.parse? document
  ofEntries? entries

/-- The line that gives the width. -/
def widthLine (width : UInt64) : String :=
  widthKey ++ " = " ++ String.ofList (Decimal.digits width.toNat) ++ "\n"

/-- What is relied on of a library for documents: a record with nothing but a width is written as
one line, and that line describes the table of the width, up to the largest integer of 64 bits. -/
structure Documented (codec : Toml.Codec) : Prop where
  print (width : UInt64) : codec.print [(widthKey, width)] = widthLine width
  parse (width : UInt64) : codec.parse? (widthLine width) =
    some [(widthKey, .scalar (.integer (Int.ofNat width.toNat)))]

/-- Where the settings of a user are kept, below the home directory. -/
def homePath (home : String) : String :=
  home ++ "/.config/dstr-unparser/config.toml"

end Settings

end StringForms
