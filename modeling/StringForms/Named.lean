/-
Module: StringForms.Named
Purpose: Lists of values by name, in the order in which the names came.
Main exports: setNamed
-/

namespace StringForms

/-- Sets the value of a name, in its place if it has one and at the end otherwise. -/
def setNamed {Value : Type} (name : String) (value : Value) :
    List (String × Value) → List (String × Value)
  | [] => [(name, value)]
  | (other, old) :: rest =>
      if other = name then (name, value) :: rest else (other, old) :: setNamed name value rest

end StringForms
