/-
Module: StringForms.Proofs.Source.Splitting
Purpose: Splitting a string into quoted runs leaves what stands in it as it is.
Main exports: interior_of_breaksAfter, join_interior_runs, text_quoted, run_quoted_eq_run_interior
-/
import Mathlib
import StringForms.Proofs.Source.Interior

namespace StringForms.Source

/-!
A run begins without a splice before it. That matters only to a literal, and only if the part before
it was a splice. Yet two literals are parted only where the first of them is no splice, and the other
breaks have a nested string on one of their sides: no break stands between a splice and a literal.
-/

/-- A part that opens a new run is written there as it would be behind the run before. -/
theorem interior_of_breaksAfter {current : List Part} {part : Part}
    (breaks : breaksAfter current part = true) (mode : Mode) :
    part.interior mode (afterRow false current) = part.interior mode false := by
  cases ends : current.getLast? with
  | none => simp [breaksAfter, ends] at breaks
  | some last =>
      have behind : afterRow false current = last.isSplice := by simp [afterRow, ends]
      rw [behind]
      cases last with
      | splice code =>
          -- The only break behind a splice is before a nested string, which looks at nothing.
          have nested : part.isNested = true := by
            simpa [breaksAfter, ends, Part.isLiteral, Part.isNested] using breaks
          cases part with
          | nested parts => rw [Part.interior, Part.interior]
          | _ => cases nested
      | _ => rfl

/-- The same for all that follows the break. -/
theorem interiorFrom_of_breaksAfter {current : List Part} {part : Part}
    (breaks : breaksAfter current part = true) (mode : Mode) (rest : List Part) :
    interiorFrom mode (afterRow false current) (part :: rest) = interior mode (part :: rest) := by
  rw [interior, interiorFrom, interiorFrom, interior_of_breaksAfter breaks]

/-- The insides of the runs, one after the other, are the inside of the whole. -/
theorem join_interior_runsFrom {current parts : List Part}
    (ok : (current ++ parts).findSome? Part.fault? = none) (mode : Mode) :
    String.join ((runsFrom current parts).map fun run => (interior mode run).text) =
      (interior mode (current ++ parts)).text := by
  induction parts generalizing current with
  | nil => simp [runsFrom, String.join]
  | cons part rest ih =>
      by_cases breaks : breaksAfter current part = true
      · obtain ⟨okCurrent, okRest⟩ := ok_append_iff.mp ok
        have later := @ih [part] okRest
        calc String.join ((runsFrom current (part :: rest)).map fun run => (interior mode run).text)
            = (interior mode current).text ++
                String.join ((runsFrom [part] rest).map fun run => (interior mode run).text) := by
              simp only [runsFrom, breaks, if_true, List.map_cons, String.join_cons]
          _ = (interior mode current).text ++ (interior mode (part :: rest)).text := by
              rw [later, List.singleton_append]
          _ = (interior mode (current ++ part :: rest)).text := by
              rw [← interiorFrom_of_breaksAfter breaks, interior, interior,
                text_interiorFrom_append okCurrent]
      · have joined : current ++ part :: rest = (current ++ [part]) ++ rest := by simp
        have unbroken : runsFrom current (part :: rest) = runsFrom (current ++ [part]) rest := by
          simp only [runsFrom, breaks, Bool.false_eq_true, if_false]
        rw [joined] at ok ⊢
        rw [unbroken]
        exact ih ok

/-- The insides of the runs together are the inside of the whole. -/
theorem join_interior_runs {parts : List Part} (ok : parts.findSome? Part.fault? = none)
    (mode : Mode) :
    String.join ((runs parts).map fun run => (interior mode run).text) =
      (interior mode parts).text :=
  @join_interior_runsFrom [] parts ok mode

/-! ### The quotes -/

theorem runsFrom_ne_nil (current parts : List Part) : runsFrom current parts ≠ [] := by
  induction parts generalizing current with
  | nil => simp [runsFrom]
  | cons part rest ih =>
      by_cases breaks : breaksAfter current part = true
      · simp [runsFrom, breaks]
      · simpa [runsFrom, breaks] using ih (current ++ [part])

/-- Texts in quotes with spaces between them are a quote, the texts with a quote, a space and a quote
between them, and a quote. -/
theorem intercalate_quotes {bodies : List String} (filled : bodies ≠ []) :
    " ".intercalate (bodies.map fun body => "\"" ++ (body ++ "\"")) =
      "\"" ++ ("\" \"".intercalate bodies ++ "\"") := by
  induction bodies with
  | nil => exact absurd rfl filled
  | cons body rest ih =>
      cases rest with
      | nil => simp
      | cons next later =>
          have others := ih (List.cons_ne_nil next later)
          have separator : "\" \"" = "\"" ++ (" " ++ "\"") := by decide
          rw [List.map_cons] at others
          rw [List.map_cons, List.map_cons, String.intercalate_cons_cons, others,
            String.intercalate_cons_cons, separator]
          simp only [String.append_assoc]

/-- Without a fault in the parts there is none in a run. -/
theorem fault?_of_mem_runs {parts run : List Part} (ok : parts.findSome? Part.fault? = none)
    (found : run ∈ runs parts) : run.findSome? Part.fault? = none := by
  rw [List.findSome?_eq_none_iff] at ok ⊢
  exact fun part direct => ok part (mem_of_mem_run found direct)

/-- A run that can be written is its inside between quotes. -/
theorem text_quotedRun_of_ok {run : List Part} (ok : run.findSome? Part.fault? = none) :
    (quotedRun run).text = "\"" ++ ((interior .quoted run).text ++ "\"") := by
  have inside : (interior .quoted run).fault? = none := by rw [fault?_interior, ok]
  have unfolded : (quotedRun run).text =
      "\"" ++ (interior .quoted run ++ .append "\"" : Code).text := rfl
  rw [unfolded, Draft.text_append inside]
  rfl

/-- The text of the quoted form: the insides of the runs, parted and enclosed by quotes. -/
theorem text_quoted {parts : List Part} (filled : parts ≠ [])
    (ok : parts.findSome? Part.fault? = none) :
    (quoted parts).text =
      "\"" ++ ("\" \"".intercalate ((runs parts).map fun run => (interior .quoted run).text) ++
        "\"") := by
  have okRuns : ∀ literal ∈ (runs parts).map quotedRun, literal.fault? = none := by
    intro literal found
    rcases List.mem_map.mp found with ⟨run, member, rfl⟩
    rw [fault?_quotedRun]
    exact fault?_of_mem_runs ok member
  have literals : ((runs parts).map quotedRun).map Draft.text =
      ((runs parts).map fun run => (interior .quoted run).text).map
        fun body => "\"" ++ (body ++ "\"") := by
    rw [List.map_map, List.map_map]
    exact List.map_congr_left fun run found => text_quotedRun_of_ok (fault?_of_mem_runs ok found)
  have bodies : ((runs parts).map fun run => (interior .quoted run).text) ≠ [] :=
    fun none => runsFrom_ne_nil [] parts (List.map_eq_nil_iff.mp none)
  have unnoted : (.note (.split parts.length (runs parts).length) : Code).text = "" := rfl
  have notEmpty : ¬ parts.isEmpty = true := by simpa using filled
  rw [quoted, if_neg notEmpty, Draft.text_append (Draft.fault?_note _), unnoted,
    String.empty_append, Draft.text_separated " " okRuns, literals, intercalate_quotes bodies]

/-! ### The whole string -/

/-- On a page of its own a string comes to the same verdict in the quoted form as its inside does when
all its parts are written in one go. If it can be written, what stands between its quotes is one body
for each run, the inside of that run on a page of its own; and the bodies in a row are the inside of
the string. -/
theorem run_quoted_eq_run_interior {nodes : List Node} (filled : nodes ≠ []) (unit : String) :
    let parts := Part.ofNodes nodes
    let page := Page.blank unit
    let string := (quoted parts).run page
    let whole := (interior .quoted parts).run page
    let bodies := (runs parts).map fun run => (interior .quoted run).run page
    string.fault? = whole.fault? ∧
      (whole.fault? = none →
        (∀ body ∈ bodies, body.fault? = none) ∧
          string.page.content =
            "\"" ++ "\" \"".intercalate (bodies.map fun body => body.page.content) ++ "\"" ∧
          String.join (bodies.map fun body => body.page.content) = whole.page.content) := by
  intro parts page string whole bodies
  have some : parts ≠ [] := by
    simp only [parts, ofNodes_eq_map]
    exact fun none => filled (List.map_eq_nil_iff.mp none)
  have flush : ∀ part ∈ parts, part.StaysFlush :=
    staysFlush_ofNodes fun node _ => (staysFlush_code_and_ofNode node).2
  have verdict : whole.fault? = parts.findSome? Part.fault? := by
    rw [Draft.fault?_run, fault?_interior]
  -- A run on a blank page leaves its text there, and so does the whole.
  have contents : bodies.map (fun body => body.page.content) =
      (runs parts).map fun run => (interior .quoted run).text := by
    rw [List.map_map]
    apply List.map_congr_left
    intro run found
    exact content_run_interior_blank (fun part direct => flush part (mem_of_mem_run found direct))
      .quoted unit
  refine ⟨?_, fun succeeds => ?_⟩
  · rw [verdict, Draft.fault?_run, fault?_quoted]
  · have ok : parts.findSome? Part.fault? = none := verdict.symm.trans succeeds
    refine ⟨?_, ?_, ?_⟩
    · intro body found
      rcases List.mem_map.mp found with ⟨run, member, rfl⟩
      rw [Draft.fault?_run, fault?_interior]
      exact fault?_of_mem_runs ok member
    · have written : string.page.content = (quoted parts).text := by
        rw [show string.page = _ from isFragment_quoted flush page, Page.append_blank]
      rw [written, contents, text_quoted some ok, String.append_assoc]
    · rw [contents, join_interior_runs ok]
      exact (content_run_interior_blank flush .quoted unit).symm

/-- Breaks between texts and around a nested string. A line feed behind the nested string is escaped
although the nested string ends in a splice, and one behind a splice is not. -/
theorem run_quoted_of_four_runs :
    let nodes : List Node :=
      [.str "a", .str "b", .dstr [.str "c", .begin []], .str "\n", .begin [], .str "\n"]
    let page := Page.blank "  "
    let bodies := (runs (Part.ofNodes nodes)).map fun run => (interior .quoted run).run page
    nodes ≠ [] ∧ ((quoted (Part.ofNodes nodes)).run page).fault? = none ∧
      ((quoted (Part.ofNodes nodes)).run page).page.content =
        "\"" ++ "\" \"".intercalate (bodies.map fun body => body.page.content) ++ "\"" ∧
      bodies.map (fun body => body.page.content) = ["a", "b", "c#\x7b\x7d", "\\n#\x7b\x7d\n"] := by
  intro nodes page bodies
  have filled : nodes ≠ [] := List.cons_ne_nil _ _
  have ok : ((interior .quoted (Part.ofNodes nodes)).run page).fault? = none := by decide
  obtain ⟨verdict, same⟩ := run_quoted_eq_run_interior filled "  "
  obtain ⟨_, written, _⟩ := same ok
  exact ⟨filled, verdict.trans ok, written, by cbv⟩

end StringForms.Source
