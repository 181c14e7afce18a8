/-
Module: StringForms.Files.Tree
Purpose: A tree of directories and files, the calls that a program makes on it, and the places that
  paths lead to.
Main exports: Entry, FileError, Entry.find?, Entry.alter, Entry.makeDirectory, Entry.writeFile,
  Entry.makeDirectories, Entry.readText, pathNames, startOf, placeOf
-/
import StringForms.Named

namespace StringForms.Files

/-- A file with its bytes, or a directory with its members by name. -/
inductive Entry where
  | file (bytes : ByteArray)
  | directory (members : List (String × Entry))
deriving Inhabited

/-- Why a file cannot be read or written. -/
inductive FileError where
  | notFound
  | alreadyExists
  | notADirectory
  | isADirectory
  | invalidText
deriving Repr, Inhabited, DecidableEq

/-- The report of an error. -/
def FileError.message : FileError → String
  | .notFound => "No such file or directory (os error 2)"
  | .alreadyExists => "File exists (os error 17)"
  | .notADirectory => "Not a directory (os error 20)"
  | .isADirectory => "Is a directory (os error 21)"
  | .invalidText => "stream did not contain valid UTF-8"

/-! ### Calls -/

namespace Entry

/-- The entry at the end of a path. A file has nothing below it. -/
def find? (entry : Entry) : List String → Option Entry
  | [] => some entry
  | name :: rest =>
      match entry with
      | .file _ => none
      | .directory members =>
          match members.lookup name with
          | none => none
          | some member => member.find? rest

/-- Whether a directory stands at the end of a path. -/
def isDirectory (entry : Entry) (names : List String) : Bool :=
  match entry.find? names with
  | some (.directory _) => true
  | _ => false

/-- The tree with another entry at the end of a path. What comes there, if anything may, depends on
what stands there; the directory to put it in must exist. -/
def alter (change : Option Entry → Except FileError Entry) (entry : Entry) :
    List String → Except FileError Entry
  | [] => change (some entry)
  | name :: rest =>
      match entry with
      | .file _ => .error .notADirectory
      | .directory members =>
          match members.lookup name, rest with
          | none, [] => (fun new => .directory (setNamed name new members)) <$> change none
          | none, _ :: _ => .error .notFound
          | some member, rest =>
              (fun new => .directory (setNamed name new members)) <$> member.alter change rest

/-- The tree with a new directory at the end of a path, where nothing may stand. -/
def makeDirectory : Entry → List String → Except FileError Entry :=
  alter fun
    | none => .ok (.directory [])
    | some _ => .error .alreadyExists

/-- The tree with a file of given bytes at the end of a path, where no directory may stand. -/
def writeFile (bytes : ByteArray) : Entry → List String → Except FileError Entry :=
  alter fun
    | some (.directory _) => .error .isADirectory
    | _ => .ok (.file bytes)

/-- Makes a directory. One that stands there already is as good. -/
def provideDirectory (tree : Entry) (place : List String) : Except FileError Unit × Entry :=
  match tree.makeDirectory place with
  | .ok made => (.ok (), made)
  | .error cause => if tree.isDirectory place then (.ok (), tree) else (.error cause, tree)

/-- Makes the directories that some names lead through from a start. The names are given last name
first, and the last directory is tried first: those above it are made only if it has nothing to
stand in, and it is tried again then. Where a call fails, what was made before it stays. -/
def makeDirectories (tree : Entry) (start : List String) :
    List String → Except FileError Unit × Entry
  | [] => (.ok (), tree)
  | name :: above =>
      let place := start ++ (name :: above).reverse
      match tree.makeDirectory place with
      | .error .notFound =>
          match tree.makeDirectories start above with
          | (.ok (), made) => made.provideDirectory place
          | failed => failed
      | _ => tree.provideDirectory place

/-- The text of an entry, which must be a file of well-formed text. -/
def readText : Entry → Except FileError String
  | .directory _ => .error .isADirectory
  | .file bytes =>
      match String.fromUTF8? bytes with
      | some text => .ok text
      | none => .error .invalidText

end Entry

/-! ### Paths -/

/-- The pieces of a text between slashes, the first of which starts with `current`, kept latest
character first. -/
def slashPieces (current : List Char) : List Char → List (List Char)
  | [] => [current.reverse]
  | character :: rest =>
      if character = '/' then current.reverse :: slashPieces [] rest
      else slashPieces (character :: current) rest

/-- The names that a path leads through. Empty names and single dots lead nowhere. -/
def pathNames (path : String) : List String :=
  ((slashPieces [] path.toList).filter fun piece => !piece.isEmpty && piece != ['.']).map
    String.ofList

/-- Where a path starts: at the top of the tree if a slash comes first, and in the working directory
if not. -/
def startOf (working : List String) (path : String) : List String :=
  if path.toList.head? = some '/' then [] else working

/-- The place that a path leads to. -/
def placeOf (working : List String) (path : String) : List String :=
  startOf working path ++ pathNames path

end StringForms.Files
