/-
Module: StringForms.Proofs.Source.Interior
Purpose: The inside of a row of parts, cut in two anywhere.
Main exports: afterRow, text_interiorFrom_append, page_run_interiorFrom_append,
  content_run_interior_blank
-/
import StringForms.Proofs.Source.Quoted

namespace StringForms.Source

/-!
A part looks at one thing outside itself: whether a splice stands just before it. So the inside of a
row is that of its start, and then that of its rest behind whatever the start ends with.
-/

/-- Whether a splice stands just before what follows a row of parts, given whether one stands before
the row. -/
def afterRow (afterSplice : Bool) (parts : List Part) : Bool :=
  (parts.getLast?.map Part.isSplice).getD afterSplice

@[simp] theorem afterRow_cons (afterSplice : Bool) (part : Part) (rest : List Part) :
    afterRow afterSplice (part :: rest) = afterRow part.isSplice rest := by
  cases last : rest.getLast? <;> simp [afterRow, List.getLast?_cons, last]

/-- A row can be written if each of its parts can. -/
theorem ok_cons_iff {part : Part} {rest : List Part} :
    (part :: rest).findSome? Part.fault? = none ↔
      part.fault? = none ∧ rest.findSome? Part.fault? = none := by
  simp only [List.findSome?_eq_none_iff, List.forall_mem_cons]

theorem ok_append_iff {first second : List Part} :
    (first ++ second).findSome? Part.fault? = none ↔
      first.findSome? Part.fault? = none ∧ second.findSome? Part.fault? = none := by
  simp only [List.findSome?_eq_none_iff, List.forall_mem_append]

/-- The inside of a row begins with that of its first part, and the rest knows of the part only
whether it is a splice. -/
theorem text_interiorFrom_cons {part : Part} (ok : part.fault? = none) (mode : Mode)
    (afterSplice : Bool) (rest : List Part) :
    (interiorFrom mode afterSplice (part :: rest)).text =
      (part.interior mode afterSplice).text ++ (interiorFrom mode part.isSplice rest).text := by
  rw [interiorFrom]
  apply Draft.text_append
  rw [fault?_interiorPart, ok]

/-- The text of a row is that of its start, and then that of its rest. -/
theorem text_interiorFrom_append {first : List Part} (ok : first.findSome? Part.fault? = none)
    (mode : Mode) (afterSplice : Bool) (second : List Part) :
    (interiorFrom mode afterSplice (first ++ second)).text =
      (interiorFrom mode afterSplice first).text ++
        (interiorFrom mode (afterRow afterSplice first) second).text := by
  induction first generalizing afterSplice with
  | nil => exact String.empty_append.symm
  | cons part rest ih =>
      obtain ⟨okPart, okRest⟩ := ok_cons_iff.mp ok
      rw [List.cons_append, text_interiorFrom_cons okPart, text_interiorFrom_cons okPart,
        ih okRest, afterRow_cons, String.append_assoc]

/-- The same on a page: the rest is written where the first part has led. -/
theorem page_run_interiorFrom_cons {part : Part} (ok : part.fault? = none) (mode : Mode)
    (afterSplice : Bool) (rest : List Part) (page : Page) :
    ((interiorFrom mode afterSplice (part :: rest)).run page).page =
      ((interiorFrom mode part.isSplice rest).run
        ((part.interior mode afterSplice).run page).page).page := by
  rw [interiorFrom]
  apply Draft.page_run_append_of_ok
  rw [fault?_interiorPart, ok]

/-- A page takes a row as it takes its start, and then its rest. -/
theorem page_run_interiorFrom_append {first : List Part}
    (ok : first.findSome? Part.fault? = none) (mode : Mode) (afterSplice : Bool)
    (second : List Part) (page : Page) :
    ((interiorFrom mode afterSplice (first ++ second)).run page).page =
      ((interiorFrom mode (afterRow afterSplice first) second).run
        ((interiorFrom mode afterSplice first).run page).page).page := by
  induction first generalizing afterSplice page with
  | nil => rfl
  | cons part rest ih =>
      obtain ⟨okPart, okRest⟩ := ok_cons_iff.mp ok
      rw [List.cons_append, page_run_interiorFrom_cons okPart, page_run_interiorFrom_cons okPart,
        ih okRest, afterRow_cons]

/-- The inside of a row of parts leaves its text on a page of its own. -/
theorem content_run_interior_blank {parts : List Part} (flush : ∀ part ∈ parts, part.StaysFlush)
    (mode : Mode) (unit : String) :
    ((interior mode parts).run (Page.blank unit)).page.content = (interior mode parts).text := by
  have inside : (interior mode parts).StaysFlush :=
    staysFlush_interiorFrom mode false fun part found => flush part found mode
  have margin : (Page.blank unit).level = 0 := rfl
  rw [Draft.page_run_of_flush inside margin]
  exact String.empty_append

end StringForms.Source
