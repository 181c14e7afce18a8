/-
Module: StringForms.Proofs.Page.Flush
Purpose: What a draft that indents nothing writes on a page whose lines start at the margin.
Main exports: Draft.text, Draft.StaysFlush, Draft.page_run_of_flush, Draft.text_append,
  Draft.text_separated
-/
import StringForms.Proofs.Page.Fault

/-!
At level zero every indentation is empty, so what was written before has no bearing on what is
written next. A draft then has one text, whichever page it is carried out on.
-/

namespace StringForms

namespace Page

theorem write_empty (page : Page) : page.write "" = page := by
  rw [write, String.append_empty]

/-- At the margin there is nothing to indent by. -/
theorem indentation_of_margin {page : Page} (margin : page.level = 0) : page.indentation = "" := by
  rw [indentation, margin]
  rfl

/-- An indentation has no other characters than its unit. -/
theorem mem_unit_of_mem_indentation {page : Page} {character : Char}
    (found : character ∈ page.indentation.toList) : character ∈ page.unit.toList := by
  rw [indentation, String.toList_join, List.mem_flatMap] at found
  obtain ⟨unit, member, inside⟩ := found
  exact List.eq_of_mem_replicate member ▸ inside

/-- At the margin a fragment is written as it is. -/
theorem append_of_margin {page : Page} (margin : page.level = 0) (fragment : String) :
    page.append fragment = page.write fragment := by
  unfold append
  by_cases start : page.atLineStart = true
  · rw [if_pos start, indentation_of_margin margin, write_empty]
  · rw [if_neg start]

theorem write_write (page : Page) (first second : String) :
    (page.write first).write second = page.write (first ++ second) := by
  simp only [write, String.append_assoc]

end Page

namespace Draft

variable {Fault Note : Type}

/-- What a draft writes at the margin, as far as it gets. -/
def text : Draft Fault Note → String
  | .append fragment => fragment
  | .write fragment => fragment
  | .newline => "\n"
  | .indented inner => inner.text
  | .atRoot inner => inner.text
  | .andThen first second => if first.fault?.isSome then first.text else first.text ++ second.text
  | _ => ""

/-- No part of a draft is written deeper than the draft itself. -/
def StaysFlush : Draft Fault Note → Prop
  | .indented _ => False
  | .atRoot inner => inner.StaysFlush
  | .andThen first second => first.StaysFlush ∧ second.StaysFlush
  | _ => True

/-- On a page at the margin a draft that stays there writes its text, wherever in a line it begins.
-/
theorem page_run_of_flush {draft : Draft Fault Note} (flush : draft.StaysFlush) {page : Page}
    (margin : page.level = 0) : (draft.run page).page = page.write draft.text := by
  induction draft generalizing page with
  | empty => exact page.write_empty.symm
  | append fragment => exact Page.append_of_margin margin fragment
  | write fragment => rfl
  | newline => rfl
  | note entry => exact page.write_empty.symm
  | halt fault => exact page.write_empty.symm
  | indented inner ih => exact flush.elim
  | atRoot inner ih =>
      have same : page.atLevel 0 = page := by rw [Page.atLevel, ← margin]
      rw [run, same, margin]
      simp only
      rw [ih flush margin, text, Page.atLevel, ← margin]
      rfl
  | andThen first second ihFirst ihSecond =>
      obtain ⟨flushFirst, flushSecond⟩ := flush
      have written := ihFirst flushFirst margin
      have verdict := fault?_run first page
      rw [run, text]
      cases stopped : first.fault? with
      | some fault =>
          rw [stopped] at verdict
          simp only [verdict]
          exact written
      | none =>
          rw [stopped] at verdict
          simp only [verdict, written]
          have still : (page.write first.text).level = 0 := margin
          rw [ihSecond flushSecond still, Page.write_write]
          rfl

/-- A draft without a fault is followed by the text of the next. -/
theorem text_append {first : Draft Fault Note} (ok : first.fault? = none)
    (second : Draft Fault Note) : (first ++ second).text = first.text ++ second.text := by
  have unfolded : (first ++ second).text =
      if first.fault?.isSome then first.text else first.text ++ second.text := rfl
  rw [unfolded, ok]
  rfl

/-- Drafts that do not fail leave their texts with the separator between neighbours. -/
theorem text_separated (separator : String) {drafts : List (Draft Fault Note)}
    (ok : ∀ draft ∈ drafts, draft.fault? = none) :
    (separated separator drafts).text = separator.intercalate (drafts.map text) := by
  induction drafts with
  | nil => rfl
  | cons draft rest ih =>
      cases rest with
      | nil => rw [List.map_cons, List.map_nil, String.intercalate_singleton]; rfl
      | cons next later =>
          have unfolded : separated separator (draft :: next :: later) =
              draft ++ (.append separator ++ separated separator (next :: later)) := rfl
          have spaced : (.append separator : Draft Fault Note).text = separator := rfl
          have laterOk : ∀ other ∈ next :: later, other.fault? = none :=
            fun other found => ok other (List.mem_cons_of_mem draft found)
          rw [unfolded, text_append (ok draft (by simp)), text_append (fault?_fragment separator),
            spaced, ih laterOk]
          simp only [List.map_cons, String.intercalate_cons_cons, String.append_assoc]

/-- A row stays at the margin if each of its drafts does. -/
theorem staysFlush_separated (separator : String) {drafts : List (Draft Fault Note)}
    (flush : ∀ draft ∈ drafts, draft.StaysFlush) : (separated separator drafts).StaysFlush := by
  induction drafts with
  | nil => trivial
  | cons draft rest ih =>
      cases rest with
      | nil => exact flush draft (by simp)
      | cons next later =>
          have laterFlush := ih fun other found => flush other (List.mem_cons_of_mem draft found)
          exact ⟨flush draft (by simp), trivial, laterFlush⟩

end Draft

end StringForms
