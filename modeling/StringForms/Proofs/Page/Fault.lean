/-
Module: StringForms.Proofs.Page.Fault
Purpose: The fault of a draft that is put together from drafts is the first fault among them.
Main exports: Draft.fault?_append, Draft.fault?_enclosed, Draft.fault?_separated
-/
import StringForms.Page.Draft

namespace StringForms.Draft

variable {Fault Note : Type}

@[simp] theorem fault?_empty : (.empty : Draft Fault Note).fault? = none := rfl

@[simp] theorem fault?_fragment (fragment : String) :
    (.append fragment : Draft Fault Note).fault? = none := rfl

@[simp] theorem fault?_newline : (.newline : Draft Fault Note).fault? = none := rfl

@[simp] theorem fault?_note (entry : Note) : (.note entry : Draft Fault Note).fault? = none := rfl

@[simp] theorem fault?_halt (fault : Fault) :
    (.halt fault : Draft Fault Note).fault? = some fault := rfl

@[simp] theorem fault?_indented (inner : Draft Fault Note) :
    (.indented inner : Draft Fault Note).fault? = inner.fault? := rfl

@[simp] theorem fault?_atRoot (inner : Draft Fault Note) :
    (.atRoot inner : Draft Fault Note).fault? = inner.fault? := rfl

@[simp] theorem fault?_append (first second : Draft Fault Note) :
    (first ++ second).fault? = first.fault?.or second.fault? := rfl

/-- Fragments around a draft bring no fault. -/
theorem fault?_enclosed (opening closing : String) (inner : Draft Fault Note) :
    (.append opening ++ (inner ++ .append closing) : Draft Fault Note).fault? = inner.fault? := by
  rw [fault?_append, fault?_fragment, Option.none_or, fault?_append, fault?_fragment,
    Option.or_none]

/-- Separators raise no fault, so drafts in a row fail with the first fault among them. -/
theorem fault?_separated (separator : String) (drafts : List (Draft Fault Note)) :
    (separated separator drafts).fault? = drafts.findSome? fault? := by
  induction drafts with
  | nil => rfl
  | cons draft rest ih =>
      cases rest with
      | nil => cases found : draft.fault? <;> simp [separated, found]
      | cons next later =>
          have unfolded : separated separator (draft :: next :: later) =
              draft ++ (.append separator ++ separated separator (next :: later)) := rfl
          rw [unfolded, fault?_append, fault?_append, ih, fault?_fragment, Option.none_or]
          cases found : draft.fault? <;> simp [List.findSome?_cons, found]

end StringForms.Draft
