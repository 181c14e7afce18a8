/-
Module: StringForms.Proofs.Text.Runs
Purpose: Runs of characters of one class at the start of a text.
Main exports: ne_of_belongs, Stops, stops_nil, takeWhile_append_of_stops
-/

namespace StringForms.Text

variable {belongs : Char → Bool}

theorem ne_of_belongs {character other : Char} (inside : belongs character = true)
    (outside : belongs other = false) : character ≠ other := by
  rintro rfl
  rw [inside] at outside
  cases outside

/-- A text that does not go on with a character of a class. -/
def Stops (belongs : Char → Bool) (rest : List Char) : Prop :=
  ∀ character ∈ rest.head?, belongs character = false

/-- Nothing goes on with a run at the end of the text. -/
theorem stops_nil : Stops belongs [] := by
  simp [Stops]

/-- What is taken while it belongs is the whole run and no more. -/
theorem takeWhile_append_of_stops {run rest : List Char}
    (inside : ∀ character ∈ run, belongs character = true) (stops : Stops belongs rest) :
    (run ++ rest).takeWhile belongs = run := by
  rw [List.takeWhile_append_of_pos inside]
  cases rest with
  | nil => simp
  | cons next later =>
      have outside : belongs next = false := stops next rfl
      simp [outside]

end StringForms.Text
