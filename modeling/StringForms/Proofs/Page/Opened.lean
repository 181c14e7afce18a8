/-
Module: StringForms.Proofs.Page.Opened
Purpose: Drafts that stay in the line that they begin in, and pages whose line at hand has its
  indentation already.
Main exports: Draft.page_run_of_midLine, Draft.isFragment_opening, indentLines, Page.opened,
  Page.toList_content_opened_append
-/
import StringForms.Proofs.Page.Extends

/-!
An empty fragment at the start of a line writes the indentation and leaves the page in mid-line, so
a line may be indented before any of its text is there. Comparing pages with their line opened hides
that: each line feed is then followed by one indentation, whichever fragment brings it about.
-/

namespace StringForms

/-! ### Staying in a line -/

/-- A text without a line feed ends in mid-line unless it is empty. -/
theorem endsMidLine_of_notMem {text : String} (filled : text ≠ "") (single : '\n' ∉ text.toList) :
    EndsMidLine text := by
  cases last : text.toList.getLast? with
  | none => exact absurd (String.toList_eq_nil_iff.mp (List.getLast?_eq_none_iff.mp last)) filled
  | some character =>
      refine ⟨character, last, ?_⟩
      rintro rfl
      exact single (List.mem_of_getLast? last)

namespace Page

theorem atLineStart_write_eq_false {fragment : String} (closed : EndsMidLine fragment)
    (page : Page) : (page.write fragment).atLineStart = false := by
  obtain ⟨last, found, other⟩ := closed.append page.content
  rw [← Bool.not_eq_true, atLineStart_iff, write, found, Option.some.injEq]
  exact other

/-- Text without a line feed, even none at all, does not leave the line that it is in. -/
theorem atLineStart_write_of_midLine {page : Page} (midLine : page.atLineStart = false)
    {fragment : String} (single : '\n' ∉ fragment.toList) :
    (page.write fragment).atLineStart = false := by
  by_cases blank : fragment = ""
  · rw [blank, write_empty]
    exact midLine
  · exact atLineStart_write_eq_false (endsMidLine_of_notMem blank single) page

end Page

namespace Draft

variable {Fault Note : Type}

/-- In the middle of a line a draft that writes no line feed is written as it is, at every level and
with all its scopes. -/
theorem page_run_of_midLine {draft : Draft Fault Note} {page : Page}
    (midLine : page.atLineStart = false) (single : '\n' ∉ draft.text.toList) :
    (draft.run page).page = page.write draft.text := by
  induction draft generalizing page with
  | append fragment =>
      have unled := Page.lead_of_midLine midLine
      rw [run, Page.append_eq_write, unled, String.empty_append]
      rfl
  | write fragment => rfl
  | newline =>
      have lineFeed : '\n' ∈ "\n".toList := by decide
      exact absurd lineFeed single
  | indented inner ih =>
      have inside := @ih (page.atLevel (page.level + 1)) midLine single
      rw [run, inside]
      rfl
  | atRoot inner ih =>
      have inside := @ih (page.atLevel 0) midLine single
      rw [run, inside]
      rfl
  | andThen first second ihFirst ihSecond =>
      have unfolded : first.andThen second = first ++ second := rfl
      rw [unfolded] at single ⊢
      cases verdict : first.fault? with
      | some fault =>
          rw [text_append_of_halts verdict] at single ⊢
          rw [page_run_append_of_halts verdict, ihFirst midLine single]
      | none =>
          rw [text_append verdict, String.toList_append, List.mem_append, not_or] at single
          have later := Page.atLineStart_write_of_midLine midLine single.1
          rw [page_run_append_of_ok verdict, text_append verdict, ihFirst midLine single.1,
            ihSecond later single.2, Page.write_write]
  | _ => exact page.write_empty.symm

/-- Behind an opening that ends in mid-line, all that stays in the line goes with the opening as one
fragment. -/
theorem isFragment_opening {opening : String} (closed : EndsMidLine opening)
    {inner : Draft Fault Note} (single : '\n' ∉ inner.text.toList) :
    (.append opening ++ inner : Draft Fault Note).IsFragment := by
  intro page
  have opened : ((.append opening : Draft Fault Note).run page).page = page.append opening := rfl
  have written : (.append opening : Draft Fault Note).text = opening := rfl
  have midLine := Page.atLineStart_append_eq_false closed page
  rw [page_run_append_of_ok (fault?_fragment opening), text_append (fault?_fragment opening),
    opened, written, page_run_of_midLine midLine single, Page.append_write]

end Draft

/-! ### Opened lines -/

/-- A text with an indentation behind each of its line feeds. -/
def indentLines (indentation text : List Char) : List Char :=
  text.flatMap fun character => if character = '\n' then '\n' :: indentation else [character]

theorem indentLines_append (indentation first second : List Char) :
    indentLines indentation (first ++ second) =
      indentLines indentation first ++ indentLines indentation second :=
  List.flatMap_append

/-- A text in one line has no line feed to indent behind. -/
theorem indentLines_of_notMem (indentation : List Char) {text : List Char} (single : '\n' ∉ text) :
    indentLines indentation text = text := by
  induction text with
  | nil => rfl
  | cons character rest ih =>
      obtain ⟨other, singleRest⟩ := not_or.mp (mt List.mem_cons.mpr single)
      have later : indentLines indentation rest = rest := ih singleRest
      unfold indentLines at later ⊢
      rw [List.flatMap_cons, if_neg (Ne.symm other), later, List.singleton_append]

namespace Page

/-- The page with the line at hand indented, if that line has not begun. -/
def opened (page : Page) : Page :=
  page.append ""

/-- A page is opened by writing what the next fragment would be indented by. -/
theorem opened_eq_write (page : Page) : page.opened = page.write page.lead := by
  rw [opened, append_eq_write, String.append_empty]

theorem toList_content_write (page : Page) (fragment : String) :
    (page.write fragment).content.toList = page.content.toList ++ fragment.toList :=
  String.toList_append

/-- A fragment opens the line that it begins in. -/
theorem append_eq_opened_write (page : Page) (fragment : String) :
    page.append fragment = page.opened.write fragment := by
  rw [opened_eq_write, write_write, append_eq_write]

variable {page : Page}

/-- An opened line has begun, unless there is nothing to open it with. -/
theorem lead_opened (inLine : '\n' ∉ page.indentation.toList) : page.opened.lead = "" := by
  have single : '\n' ∉ page.lead.toList := by
    cases start : page.atLineStart with
    | true => rwa [lead, if_pos start]
    | false => simp [lead_of_midLine start]
  by_cases blank : page.lead = ""
  · rw [opened_eq_write, blank, write_empty, blank]
  · have begun := atLineStart_write_eq_false (endsMidLine_of_notMem blank single) page
    rw [← opened_eq_write] at begun
    exact lead_of_midLine begun

/-- On a page with its line opened, a fragment that has a line feed at most at its end leaves itself
with an indentation behind the line feed. -/
theorem toList_content_opened_append (inLine : '\n' ∉ page.indentation.toList) {fragment : String}
    (atEnd : '\n' ∉ fragment.toList.dropLast) :
    (page.append fragment).opened.content.toList =
      page.opened.content.toList ++ indentLines page.indentation.toList fragment.toList := by
  have wrote := page.append_eq_opened_write fragment
  rw [opened_eq_write (page.append fragment), toList_content_write, wrote, toList_content_write,
    List.append_assoc]
  congr 1
  cases last : fragment.toList.getLast? with
  | none =>
      -- Nothing is written, so the line is still as it was opened.
      have blank : fragment = "" := String.toList_eq_nil_iff.mp (List.getLast?_eq_none_iff.mp last)
      rw [blank, write_empty, lead_opened inLine]
      rfl
  | some character =>
      obtain ⟨front, written⟩ := List.getLast?_eq_some_iff.mp last
      rw [written, List.dropLast_concat] at atEnd
      rw [written, indentLines_append, indentLines_of_notMem _ atEnd]
      by_cases lineFeed : character = '\n'
      · subst lineFeed
        have start : (page.opened.write fragment).atLineStart = true := by
          rw [atLineStart_iff, toList_content_write, List.getLast?_append, last]
          rfl
        have same : (page.opened.write fragment).indentation = page.indentation := by
          rw [opened_eq_write]
          rfl
        rw [Page.lead, if_pos start, same]
        simp [indentLines]
      · have closed : EndsMidLine fragment := ⟨character, last, lineFeed⟩
        rw [lead_of_midLine (atLineStart_write_eq_false closed page.opened)]
        simp [indentLines, lineFeed]

end Page

end StringForms
