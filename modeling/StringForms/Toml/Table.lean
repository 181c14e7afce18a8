/-
Module: StringForms.Toml.Table
Purpose: Adding to tables: which tables a path of keys may pass through, and what may be new.
Main exports: Route, within, insertPair, openTable, openElement
-/
import StringForms.Named
import StringForms.Toml.Value

namespace StringForms.Toml

/-- What a path of keys belongs to: a header, or a key with dots. -/
inductive Route where
  | header
  | dotted
deriving Repr, Inhabited, DecidableEq

/-- The origin of a table that a path makes on its way. -/
def Route.origin : Route → Origin
  | .header => .implied
  | .dotted => .dotted

/-- Whether a path may pass through a table. None adds to a table in braces; a key with dots adds
only to tables that have no header. -/
def Route.mayEnter (route : Route) (origin : Origin) : Bool :=
  match route, origin with
  | _, .inlined => false
  | .header, _ => true
  | .dotted, .header => false
  | .dotted, _ => true

/-- Changes the entries of the table at the end of a path, making the tables on the way that do not
exist yet. Through a list of tables the path goes on in the latest one. The change is told how the
table came to be. -/
def within (route : Route) (change : Origin → Entries → Option Entries) (origin : Origin) :
    List String → Entries → Option Entries
  | [], entries => change origin entries
  | name :: path, entries =>
      match entries.lookup name with
      | none =>
          (fun inner => setNamed name (.table route.origin inner) entries) <$>
            within route change route.origin path []
      | some (.table inside inner) =>
          if route.mayEnter inside then
            (fun inner => setNamed name (.table inside inner) entries) <$>
              within route change inside path inner
          else none
      | some (.tables earlier latest) =>
          (fun latest => setNamed name (.tables earlier latest) entries) <$>
            within route change .header path latest
      | some _ => none

/-- Adds a key with its value. The key must be new, and a table that a key with dots ends in must
have been made by such a key. -/
def insertPair (key : KeyPath) (item : Item) (entries : Entries) : Option Entries :=
  within .dotted
    (fun origin inner =>
      if decide (origin = .dotted) == key.parents.isEmpty then none
      else if (inner.lookup key.last).isSome then none
      else some (setNamed key.last item inner))
    .header key.parents entries

/-- Opens the table of a header. The table must be new, or have been made on the way to another
header; such a table keeps what it holds. -/
def openTable (key : KeyPath) (entries : Entries) : Option Entries :=
  within .header
    (fun _ inner =>
      match inner.lookup key.last with
      | none => some (setNamed key.last (.table .header []) inner)
      | some (.table .implied held) => some (setNamed key.last (.table .header held) inner)
      | some _ => none)
    .header key.parents entries

/-- Opens a new member of a list of tables. -/
def openElement (key : KeyPath) (entries : Entries) : Option Entries :=
  within .header
    (fun _ inner =>
      match inner.lookup key.last with
      | none => some (setNamed key.last (.tables [] []) inner)
      | some (.tables earlier latest) =>
          some (setNamed key.last (.tables (earlier ++ [latest]) []) inner)
      | some _ => none)
    .header key.parents entries

end StringForms.Toml
