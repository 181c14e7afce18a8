/-
Module: StringForms.Settings.Store
Purpose: Keeping settings in a file of a tree: loading, falling back, saving.
Main exports: StoreError, loadFrom, loadOrStandard, saveTo
-/
import StringForms.Files.Tree
import StringForms.Settings.Basic

namespace StringForms.Settings

open Files

/-- Why stored settings cannot be used. -/
inductive StoreError where
  | readFailed (path : String) (cause : FileError)
  | parseFailed (path : String)
deriving Repr, Inhabited, DecidableEq

/-- The report of an error. -/
def StoreError.message : StoreError → String
  | .readFailed path cause =>
      let reason := cause.message
      s!"Failed to read config file at {path}: {reason}"
  | .parseFailed path => s!"Failed to parse config file at {path}"

section Codec

variable (codec : Toml.Codec) (working : List String)

/-- The settings stored at a path. Where nothing is stored there are none. -/
def loadFrom (tree : Entry) (path : String) : Except StoreError (Option Settings) :=
  match tree.find? (placeOf working path) with
  | none => .ok none
  | some entry =>
      match entry.readText with
      | .error cause => .error (.readFailed path cause)
      | .ok document =>
          match ofText? codec document with
          | none => .error (.parseFailed path)
          | some settings => .ok (some settings)

/-- The settings stored at a path, and the standard ones where nothing is stored. -/
def loadOrStandard (tree : Entry) (path : String) : Except StoreError Settings :=
  (fun found => found.getD standard) <$> loadFrom codec working tree path

/-- Stores settings at a path, making its directories first. The directories stay made when the file
itself cannot be written. -/
def saveTo (tree : Entry) (path : String) (settings : Settings) : Except FileError Unit × Entry :=
  let parents := (pathNames path).dropLast
  match tree.makeDirectories (startOf working path) parents.reverse with
  | (.error cause, made) => (.error cause, made)
  | (.ok (), made) =>
      match made.writeFile (settings.text codec).toUTF8 (placeOf working path) with
      | .error cause => (.error cause, made)
      | .ok written => (.ok (), written)

end Codec

end StringForms.Settings
