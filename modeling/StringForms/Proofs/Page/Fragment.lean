/-
Module: StringForms.Proofs.Page.Fragment
Purpose: Drafts that a page takes like one fragment: indented at their start or not at all.
Main exports: Page.lead, EndsMidLine, Page.append_append, Draft.IsFragment,
  Draft.IsFragment.andThen, Draft.isFragment_separated
-/
import StringForms.Proofs.Page.Flush

/-!
A page decides by its last character whether the next fragment is indented. Once a fragment has
ended in the middle of a line, that decision is settled: what follows is written as it is at every
level. So a draft whose fragments at the outer level each end in mid-line, and whose other parts
stand at the root, acts like a single fragment.
-/

namespace StringForms

/-- Text that is not empty and does not end a line. -/
def EndsMidLine (text : String) : Prop :=
  ∃ last, text.toList.getLast? = some last ∧ last ≠ '\n'

theorem EndsMidLine.append {text : String} (closed : EndsMidLine text) (before : String) :
    EndsMidLine (before ++ text) := by
  obtain ⟨last, found, other⟩ := closed
  refine ⟨last, ?_, other⟩
  rw [String.toList_append, List.getLast?_append, found]
  rfl

namespace Page

/-- What a fragment is indented by on a page. -/
def lead (page : Page) : String :=
  if page.atLineStart then page.indentation else ""

/-- A line starts behind a line feed and nowhere else, so not on an empty page. -/
theorem atLineStart_iff (page : Page) :
    page.atLineStart = true ↔ page.content.toList.getLast? = some '\n' := by
  rw [atLineStart, String.endsWith_char_eq_getLast?]
  simp

theorem atLineStart_newline (page : Page) : page.newline.atLineStart = true := by
  rw [atLineStart_iff, newline, write, String.toList_append, List.getLast?_append]
  rfl

/-- A fragment is written with what it is indented by in front of it. -/
theorem append_eq_write (page : Page) (fragment : String) :
    page.append fragment = page.write (page.lead ++ fragment) := by
  unfold append lead
  by_cases start : page.atLineStart = true
  · rw [if_pos start, if_pos start, write_write]
  · rw [if_neg start, if_neg start, String.empty_append]

theorem lead_of_midLine {page : Page} (midLine : page.atLineStart = false) : page.lead = "" := by
  rw [lead, midLine]
  rfl

theorem toList_content_append (page : Page) (fragment : String) :
    (page.append fragment).content.toList =
      page.content.toList ++ (page.lead.toList ++ fragment.toList) := by
  rw [append_eq_write, write, String.toList_append, String.toList_append]

theorem length_content_append (page : Page) (fragment : String) :
    (page.append fragment).content.length =
      page.content.length + page.lead.length + fragment.toList.length := by
  rw [← String.length_toList, toList_content_append, List.length_append, List.length_append,
    String.length_toList, String.length_toList, Nat.add_assoc]

/-- Text written behind a fragment might as well have been part of it. -/
theorem append_write (page : Page) (first second : String) :
    (page.append first).write second = page.append (first ++ second) := by
  rw [append_eq_write, append_eq_write, write_write, String.append_assoc]

/-- Behind a fragment that ends in mid-line no line starts. -/
theorem atLineStart_append_eq_false {fragment : String} (closed : EndsMidLine fragment)
    (page : Page) : (page.append fragment).atLineStart = false := by
  obtain ⟨last, found, other⟩ := (closed.append page.lead).append page.content
  rw [append_eq_write, ← Bool.not_eq_true, atLineStart_iff]
  intro start
  rw [write, found, Option.some.injEq] at start
  exact other start

/-- A fragment that ends in mid-line settles the indentation of the one after it. -/
theorem append_append {first : String} (closed : EndsMidLine first) (page : Page)
    (second : String) : (page.append first).append second = page.append (first ++ second) := by
  have unled := lead_of_midLine (atLineStart_append_eq_false closed page)
  rw [append_eq_write (page.append first), unled, String.empty_append, append_write]

/-- The first fragment on a blank page is not indented, whatever the unit. -/
theorem append_blank (unit fragment : String) :
    (blank unit).append fragment = { blank unit with content := fragment } := by
  have unled : (blank unit).lead = "" := by
    simp [lead, indentation, blank]
  rw [append_eq_write, unled, String.empty_append, write, blank, String.empty_append]

end Page

namespace Draft

variable {Fault Note : Type}

/-! ### The page after two drafts in a row -/

/-- Behind a fault nothing is carried out: the page keeps what was written before it. -/
theorem page_run_append_of_halts {first : Draft Fault Note} {fault : Fault}
    (halts : first.fault? = some fault) (second : Draft Fault Note) (page : Page) :
    ((first ++ second).run page).page = (first.run page).page := by
  have unfolded : (first ++ second).run page = (first.andThen second).run page := rfl
  have verdict := fault?_run first page
  rw [unfolded, run]
  simp only [verdict, halts]

/-- Without a fault the second draft starts on the page that the first leaves. -/
theorem page_run_append_of_ok {first : Draft Fault Note} (ok : first.fault? = none)
    (second : Draft Fault Note) (page : Page) :
    ((first ++ second).run page).page = (second.run (first.run page).page).page := by
  have unfolded : (first ++ second).run page = (first.andThen second).run page := rfl
  have verdict := fault?_run first page
  rw [unfolded, run]
  simp only [verdict, ok]

/-- Nor does anything behind a fault add to the text of a draft. -/
theorem text_append_of_halts {first : Draft Fault Note} {fault : Fault}
    (halts : first.fault? = some fault) (second : Draft Fault Note) :
    (first ++ second).text = first.text := by
  have unfolded : (first ++ second).text =
      if first.fault?.isSome then first.text else first.text ++ second.text := rfl
  rw [unfolded, halts]
  rfl

/-! ### Drafts that act as one fragment -/

/-- Every page takes the draft as it would take the text of the draft in one piece. -/
def IsFragment (draft : Draft Fault Note) : Prop :=
  ∀ page, (draft.run page).page = page.append draft.text

theorem isFragment_append (fragment : String) :
    (.append fragment : Draft Fault Note).IsFragment :=
  fun _ => rfl

/-- A note leaves no trace on the page, so the draft behind it is still one fragment. -/
theorem IsFragment.note {draft : Draft Fault Note} (whole : draft.IsFragment) (entry : Note) :
    (.note entry ++ draft).IsFragment := by
  intro page
  have unnoted : (.note entry : Draft Fault Note).text = "" := rfl
  rw [page_run_append_of_ok (fault?_note entry), text_append (fault?_note entry), unnoted,
    String.empty_append]
  exact whole page

/-- A fragment and what is written behind it at the root make one fragment. -/
theorem isFragment_atRoot (opening : String) {inner : Draft Fault Note}
    (flush : inner.StaysFlush) :
    (.append opening ++ .atRoot inner : Draft Fault Note).IsFragment := by
  intro page
  have opened : (.append opening : Draft Fault Note).text = opening := rfl
  have margin : ((page.append opening).atLevel 0).level = 0 := rfl
  rw [page_run_append_of_ok (fault?_fragment opening), text_append (fault?_fragment opening),
    opened, ← Page.append_write, run, run]
  simp only
  rw [page_run_of_flush flush margin]
  rfl

/-- Two drafts in a row act as one fragment if the first ends in mid-line where it ends well. -/
theorem IsFragment.andThen {first second : Draft Fault Note} (whole : first.IsFragment)
    (closed : first.fault? = none → EndsMidLine first.text) (wholeSecond : second.IsFragment) :
    (first ++ second).IsFragment := by
  intro page
  cases verdict : first.fault? with
  | some fault =>
      rw [page_run_append_of_halts verdict, text_append_of_halts verdict]
      exact whole page
  | none =>
      rw [page_run_append_of_ok verdict, text_append verdict, whole page, wholeSecond,
        Page.append_append (closed verdict)]

/-- A row of fragments is one fragment if every one of them, and the separator, ends in mid-line.
That is asked only of drafts without a fault, since the row ends at the first fault. -/
theorem isFragment_separated {separator : String} (closedSeparator : EndsMidLine separator)
    {drafts : List (Draft Fault Note)} (filled : drafts ≠ [])
    (whole : ∀ draft ∈ drafts, draft.IsFragment)
    (closed : ∀ draft ∈ drafts, draft.fault? = none → EndsMidLine draft.text) :
    (separated separator drafts).IsFragment := by
  induction drafts with
  | nil => exact absurd rfl filled
  | cons draft rest ih =>
      cases rest with
      | nil => exact whole draft (by simp)
      | cons next later =>
          have others := ih (List.cons_ne_nil next later)
            (fun other found => whole other (List.mem_cons_of_mem draft found))
            (fun other found => closed other (List.mem_cons_of_mem draft found))
          have spaced := (isFragment_append separator).andThen (fun _ => closedSeparator) others
          exact (whole draft (by simp)).andThen (closed draft (by simp)) spaced

end Draft

end StringForms
