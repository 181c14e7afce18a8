/-
Module: StringForms.Page.Draft
Purpose: Drafts say what to write on a page before there is a page; carrying one out gives the page,
  the notes made on the way, and the fault at which the writing stopped.
Main exports: Draft, Outcome, Draft.run, Draft.fault?, Draft.separated
-/
import StringForms.Page.Basic

namespace StringForms

/-- Something to write. A draft may hold notes, which leave no text, and may halt with a fault,
after which nothing more is written. -/
inductive Draft (Fault Note : Type) where
  | empty
  | append (fragment : String)
  | write (fragment : String)
  | newline
  | note (entry : Note)
  | halt (fault : Fault)
  | indented (inner : Draft Fault Note)
  | atRoot (inner : Draft Fault Note)
  | andThen (first second : Draft Fault Note)
deriving Repr, Inhabited

/-- What carrying out a draft leaves: the page, the notes in order, and the fault if there was
one. -/
structure Outcome (Fault Note : Type) where
  page : Page
  notes : List Note
  fault? : Option Fault
deriving Repr, Inhabited

namespace Draft

variable {Fault Note : Type}

instance : Append (Draft Fault Note) := ⟨andThen⟩

/-- Carries out a draft on a page. The level that an inner draft is written at ends with it, also
when it halts. -/
def run : Draft Fault Note → Page → Outcome Fault Note
  | .empty, page => { page := page, notes := [], fault? := none }
  | .append fragment, page => { page := page.append fragment, notes := [], fault? := none }
  | .write fragment, page => { page := page.write fragment, notes := [], fault? := none }
  | .newline, page => { page := page.newline, notes := [], fault? := none }
  | .note entry, page => { page := page, notes := [entry], fault? := none }
  | .halt fault, page => { page := page, notes := [], fault? := some fault }
  | .indented inner, page =>
      let outcome := inner.run (page.atLevel (page.level + 1))
      { outcome with page := outcome.page.atLevel page.level }
  | .atRoot inner, page =>
      let outcome := inner.run (page.atLevel 0)
      { outcome with page := outcome.page.atLevel page.level }
  | .andThen first second, page =>
      let outcome := first.run page
      match outcome.fault? with
      | some _ => outcome
      | none =>
          let later := second.run outcome.page
          { later with notes := outcome.notes ++ later.notes }

/-- The fault at which a draft halts. It does not depend on the page. -/
def fault? : Draft Fault Note → Option Fault
  | .halt fault => some fault
  | .indented inner => inner.fault?
  | .atRoot inner => inner.fault?
  | .andThen first second => first.fault?.or second.fault?
  | _ => none

/-- Drafts one after the other, with a fragment between neighbours. -/
def separated (separator : String) : List (Draft Fault Note) → Draft Fault Note
  | [] => .empty
  | [draft] => draft
  | draft :: rest => draft ++ (.append separator ++ separated separator rest)

/-- A draft halts on every page at the same fault. -/
theorem fault?_run (draft : Draft Fault Note) (page : Page) :
    (draft.run page).fault? = draft.fault? := by
  induction draft generalizing page with
  | indented inner ih => simp [run, fault?, ih]
  | atRoot inner ih => simp [run, fault?, ih]
  | andThen first second ihFirst ihSecond =>
      have before := ihFirst page
      simp only [run, fault?]
      split <;> simp_all
  | _ => simp [run, fault?]

end Draft

end StringForms
