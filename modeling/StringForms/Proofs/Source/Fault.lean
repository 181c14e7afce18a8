/-
Module: StringForms.Proofs.Source.Fault
Purpose: Writing a string fails exactly at the first of its offenders, in whichever form, mode and
  place it is written.
Main exports: firstFault, fault?_interior, fault?_quoted, fault?_code_and_ofNode,
  run_fault_eq_firstFault
-/
import StringForms.Proofs.Node.Offender
import StringForms.Proofs.Page.Fault
import StringForms.Proofs.Source.Parts

namespace StringForms.Source

/-! ### The fault of a list of parts -/

/-- The fault of a part, which is the same in each mode and after each part. -/
def Part.fault? (part : Part) : Option RenderError :=
  (part.interior .quoted false).fault?

/-- Neither the mode nor what stands before a part settles whether it can be written. -/
theorem fault?_interiorPart (mode : Mode) (afterSplice : Bool) (part : Part) :
    (part.interior mode afterSplice).fault? = part.fault? := by
  unfold Part.fault?
  cases part with
  | literal text =>
      rw [Part.interior, Part.interior]
      by_cases lone : (afterSplice && text == "\n") = true
      · rw [if_pos lone]
        rfl
      · rw [if_neg lone]
        rfl
  | _ => rw [Part.interior, Part.interior]

/-- Wherever a row of parts is written, its fault is the first of its parts. -/
theorem fault?_interiorFrom (mode : Mode) (afterSplice : Bool) (parts : List Part) :
    (interiorFrom mode afterSplice parts).fault? = parts.findSome? Part.fault? := by
  induction parts generalizing afterSplice with
  | nil => rw [interiorFrom, Draft.fault?_empty, List.findSome?_nil]
  | cons part rest ih =>
      rw [interiorFrom, Draft.fault?_append, fault?_interiorPart, ih, List.findSome?_cons]
      cases part.fault? <;> rfl

theorem fault?_interior (mode : Mode) (parts : List Part) :
    (interior mode parts).fault? = parts.findSome? Part.fault? :=
  fault?_interiorFrom mode false parts

/-! ### The fault of each form -/

theorem findSome?_congr {Item Answer : Type} {items : List Item} {first second : Item → Option Answer}
    (same : ∀ item ∈ items, first item = second item) :
    items.findSome? first = items.findSome? second := by
  induction items with
  | nil => rfl
  | cons item rest ih =>
      have later := ih fun other found => same other (by simp [found])
      rw [List.findSome?_cons, List.findSome?_cons, same item (by simp), later]

theorem findSome?_flatten {Item Answer : Type} (answer? : Item → Option Answer)
    (lists : List (List Item)) :
    lists.flatten.findSome? answer? = lists.findSome? fun items => items.findSome? answer? := by
  induction lists with
  | nil => rfl
  | cons items rest ih =>
      rw [List.flatten_cons, List.findSome?_append, ih, List.findSome?_cons]
      cases items.findSome? answer? <;> rfl

theorem fault?_quotedRun (run : List Part) :
    (quotedRun run).fault? = run.findSome? Part.fault? := by
  rw [quotedRun, Draft.fault?_append, Draft.fault?_fragment, Option.none_or, Draft.fault?_atRoot,
    Draft.fault?_append, Draft.fault?_fragment, Option.or_none, fault?_interior]

/-- Splitting into runs loses no fault and brings none. -/
theorem fault?_quoted (parts : List Part) :
    (quoted parts).fault? = parts.findSome? Part.fault? := by
  unfold quoted
  by_cases empty : parts.isEmpty = true
  · rw [if_pos empty, List.isEmpty_iff.mp empty]
    rfl
  · have joined : (runs parts).flatten = parts := flatten_runsFrom [] parts
    rw [if_neg empty, Draft.fault?_append, Draft.fault?_note, Option.none_or,
      Draft.fault?_separated, List.findSome?_map]
    calc (runs parts).findSome? (Draft.fault? ∘ quotedRun)
        = (runs parts).findSome? fun run => run.findSome? Part.fault? :=
          findSome?_congr fun run _ => fault?_quotedRun run
      _ = (runs parts).flatten.findSome? Part.fault? := (findSome?_flatten ..).symm
      _ = parts.findSome? Part.fault? := by rw [joined]

theorem Heredoc.fault?_body (doc : Heredoc) :
    doc.body.fault? = doc.parts.findSome? Part.fault? := by
  rw [Heredoc.body, Draft.fault?_append, Draft.fault?_newline, Option.none_or]
  cases doc.style with
  | squiggly => rw [Draft.fault?_indented, fault?_interior]
  | plain => rw [Draft.fault?_atRoot, fault?_interior]

/-- A string fails alike in both forms. -/
theorem Form.fault?_whole (form : Form) :
    form.whole.fault? = form.parts.findSome? Part.fault? := by
  rw [Form.whole, Draft.fault?_append]
  cases form with
  | quoted parts =>
      rw [Form.opening, Form.remainder, Draft.fault?_empty, Option.or_none, fault?_quoted]
      rfl
  | heredoc doc =>
      rw [Form.opening, Form.remainder, Heredoc.header, Heredoc.footer, Draft.fault?_fragment,
        Option.none_or, Draft.fault?_append, Draft.fault?_fragment, Option.or_none,
        Heredoc.fault?_body]
      rfl

/-! ### The fault of a tree -/

/-- The fault for the first of a list of offenders. -/
def firstFault (offenders : List Node) : Option RenderError :=
  offenders.head?.map fun offender => .bareExpression offender.kind

/-- The first fault of offenders in a row is found item by item. -/
theorem firstFault_flatMap {Item : Type} (items : List Item) (offenders : Item → List Node) :
    firstFault (items.flatMap offenders) = items.findSome? fun item => firstFault (offenders item) := by
  rw [firstFault, List.head?_flatMap, List.map_findSome?]
  rfl

theorem firstFault_append (first second : List Node) :
    firstFault (first ++ second) = (firstFault first).or (firstFault second) := by
  cases first <;> simp [firstFault]

/-- A list of nodes fails at the first offender of its members if each member does. -/
theorem findSome?_eq_firstFault {nodes : List Node} {answer? : Node → Option RenderError}
    {offenders : Node → List Node}
    (each : ∀ node ∈ nodes, answer? node = firstFault (offenders node)) :
    nodes.findSome? answer? = firstFault (nodes.flatMap offenders) := by
  rw [firstFault_flatMap]
  exact findSome?_congr each

/-- A row of nodes fails with the first offender in it. -/
theorem fault?_codes {nodes : List Node} (separator : String)
    (each : ∀ node ∈ nodes, node.code.fault? = firstFault node.offenders) :
    (Draft.separated separator (Node.codes nodes)).fault? =
      firstFault (nodes.flatMap Node.offenders) := by
  rw [Draft.fault?_separated, codes_eq_map, List.findSome?_map]
  exact findSome?_eq_firstFault each

/-- A receiver or a scope fails like the node that it is, and its absence does not fail. -/
theorem fault?_qualifier {place : Option Node} (mark : String)
    (each : ∀ node ∈ place.toList, node.code.fault? = firstFault node.offenders) :
    (Node.qualifier mark place).fault? = firstFault (place.toList.flatMap Node.offenders) := by
  cases place with
  | none => rw [Node.qualifier]; rfl
  | some node =>
      rw [Node.qualifier, Draft.fault?_append, Draft.fault?_fragment, Option.or_none,
        each node (by simp)]
      simp

theorem firstFault_offendersOfPart_of_isBare {part : Node} (bare : part.isBare = true) :
    firstFault (Node.offendersOfPart part) = some (.bareExpression part.kind) := by
  rw [Node.offendersOfPart, if_pos bare]
  rfl

theorem offendersOfPart_of_not_isBare {part : Node} (notBare : part.isBare = false) :
    Node.offendersOfPart part = part.offenders := by
  rw [Node.offendersOfPart, if_neg (by simp [notBare]), List.nil_append]

/-- The code of a node fails at the first offender below the node if what stands in it does. -/
theorem fault?_code_of_members {node : Node}
    (codes : ∀ member ∈ node.members, member.code.fault? = firstFault member.offenders)
    (parts : ∀ member ∈ node.members,
      (Part.ofNode member).fault? = firstFault (Node.offendersOfPart member)) :
    node.code.fault? = firstFault node.offenders := by
  cases node with
  | str text => rfl
  | dstr children =>
      rw [Node.code, fault?_quoted, ofNodes_eq_map, List.findSome?_map, Node.offenders_dstr]
      exact findSome?_eq_firstFault parts
  | begin statements =>
      rw [Node.code, Draft.fault?_enclosed, Node.offenders_of_isDstr_eq_false rfl]
      exact fault?_codes "; " codes
  | name sort text => cases sort <;> rfl
  | nthRef group => rfl
  | int value => rfl
  | word which => rfl
  | const scope label =>
      rw [Node.code, Draft.fault?_append, Draft.fault?_fragment, Option.or_none,
        fault?_qualifier "::" codes, Node.offenders_of_isDstr_eq_false rfl]
      rfl
  | send receiver method arguments =>
      -- The receiver is written before the arguments, in the order of the members.
      have ofReceiver := fault?_qualifier "." fun member found =>
        codes member (List.mem_append_left arguments found)
      have ofArguments := fault?_codes ", " fun member found =>
        codes member (List.mem_append_right receiver.toList found)
      rw [Node.code, Draft.fault?_append, ofReceiver, Draft.fault?_append, Draft.fault?_fragment,
        Option.none_or, Node.offenders_of_isDstr_eq_false rfl, Node.members, List.flatMap_append,
        firstFault_append]
      by_cases noArguments : arguments.isEmpty = true
      · rw [if_pos noArguments, List.isEmpty_iff.mp noArguments]
        rfl
      · rw [if_neg noArguments, Draft.fault?_enclosed, ofArguments]

/-- A part fails at itself if it is an offender, and otherwise at the first one below it. -/
theorem fault?_ofNode_of_members {node : Node}
    (codes : ∀ member ∈ node.members, member.code.fault? = firstFault member.offenders)
    (parts : ∀ member ∈ node.members,
      (Part.ofNode member).fault? = firstFault (Node.offendersOfPart member)) :
    (Part.ofNode node).fault? = firstFault (Node.offendersOfPart node) := by
  cases node with
  | str text => rfl
  | dstr children =>
      rw [offendersOfPart_of_not_isBare rfl, Node.offenders_dstr, Part.ofNode, Part.fault?,
        Part.interior, Draft.fault?_atRoot, fault?_interiorFrom, ofNodes_eq_map,
        List.findSome?_map]
      exact findSome?_eq_firstFault parts
  | begin statements =>
      rw [offendersOfPart_of_not_isBare rfl, Node.offenders_of_isDstr_eq_false rfl, Part.ofNode,
        Part.fault?, Part.interior, Draft.fault?_enclosed]
      exact fault?_codes "; " codes
  | name sort text => cases sort <;> rfl
  | nthRef group => rfl
  | int value => rw [firstFault_offendersOfPart_of_isBare rfl]; rfl
  | word which => rw [firstFault_offendersOfPart_of_isBare rfl]; rfl
  | const scope label => rw [firstFault_offendersOfPart_of_isBare rfl]; rfl
  | send receiver method arguments => rw [firstFault_offendersOfPart_of_isBare rfl]; rfl

/-- A node as code, and the same node as a part of a string, fail with the first offender. Both
follow by one induction on the node, since code has strings in it and their parts have code. -/
theorem fault?_code_and_ofNode (node : Node) :
    node.code.fault? = firstFault node.offenders ∧
      (Part.ofNode node).fault? = firstFault (Node.offendersOfPart node) := by
  induction node using Node.memberInduction with
  | step node ih =>
      have codes := fun member found => (ih member found).1
      have parts := fun member found => (ih member found).2
      exact ⟨fault?_code_of_members codes parts, fault?_ofNode_of_members codes parts⟩

/-- The parts of a string fail at its first offender. -/
theorem findSome?_ofNodes (nodes : List Node) :
    (Part.ofNodes nodes).findSome? Part.fault? = firstFault (Node.dstr nodes).offenders := by
  rw [ofNodes_eq_map, List.findSome?_map, Node.offenders_dstr]
  exact findSome?_eq_firstFault fun node _ => (fault?_code_and_ofNode node).2

theorem firstFault_eq_none_iff (offenders : List Node) :
    firstFault offenders = none ↔ ∀ child, child ∉ offenders := by
  rw [firstFault, Option.map_eq_none_iff, List.head?_eq_none_iff, List.eq_nil_iff_forall_not_mem]

/-- Every string has a form, and writing it succeeds on every page if no bare expression is a part
of a string in the tree; otherwise the first of those in preorder is reported. The quoted form and
the inside of either form come to the same verdict on the same parts. -/
theorem run_fault_eq_firstFault (nodes : List Node) (page : Page) (mode : Mode) :
    ∃ form, Form.ofNode (.dstr nodes) = .ok form ∧
      ((form.whole.run page).fault? = none ↔ ∀ child, ¬ Node.Offends child (.dstr nodes)) ∧
      (form.whole.run page).fault? = firstFault (Node.dstr nodes).offenders ∧
      ((quoted (Part.ofNodes nodes)).run page).fault? = firstFault (Node.dstr nodes).offenders ∧
      ((interior mode (Part.ofNodes nodes)).run page).fault? =
        firstFault (Node.dstr nodes).offenders := by
  refine ⟨Form.choose (Part.ofNodes nodes), rfl, ?_, ?_, ?_, ?_⟩
  · rw [Draft.fault?_run, Form.fault?_whole, Form.parts_choose, findSome?_ofNodes,
      firstFault_eq_none_iff]
    exact forall_congr' fun child => not_congr Node.mem_offenders_iff
  · rw [Draft.fault?_run, Form.fault?_whole, Form.parts_choose, findSome?_ofNodes]
  · rw [Draft.fault?_run, fault?_quoted, findSome?_ofNodes]
  · rw [Draft.fault?_run, fault?_interior, findSome?_ofNodes]

end StringForms.Source
