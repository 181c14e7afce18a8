/-
Module: StringForms.Proofs.Source.SpliceLines
Purpose: No line that ends in an expression is a label line, as long as no name in it holds a line
  feed.
Main exports: Node.NamesInLine, EndsNoLabel, Part.EndsNoLabel, endsNoLabel_code_and_ofNode
-/
import StringForms.Proofs.Source.LabelLines
import StringForms.Proofs.Source.Literal
import StringForms.Proofs.Source.Quoted
import StringForms.Proofs.Source.Symbols

namespace StringForms

/-!
Texts between quotes are escaped, so that an expression has a line feed in one place only: behind a
splice of a string inside it. The line that ends there holds the splice, and that is no label.
-/

/-- The name in a node that is written as it is. The name of a symbol is not: it is quoted where it has
to be. -/
def Node.bareName : Node → String
  | .name .sym _ => ""
  | .name _ text => text
  | .const _ label => label
  | .send _ method _ => method
  | _ => ""

/-- No name that stands somewhere in a tree holds a line feed. -/
def Node.NamesInLine (node : Node) : Prop :=
  ∀ inner : Node, inner.Occurs node → '\n' ∉ inner.bareName.toList

/-- Names that hold no line feed anywhere hold none in a member. -/
theorem Node.NamesInLine.member {node member : Node} (inLine : node.NamesInLine)
    (found : member ∈ node.members) : member.NamesInLine :=
  fun inner inside => inLine inner (.within found inside)

namespace Source

open Text

/-! ### Texts in one line -/

theorem lineFeed_notMem_decimal (number : Nat) : '\n' ∉ Decimal.digits number := by
  intro found
  have digit := Nat.isDigit_of_mem_toDigits (by decide) (by decide) found
  cases digit

theorem lineFeed_notMem_ofInt (number : Int) : '\n' ∉ Decimal.ofInt number := by
  cases number with
  | ofNat number => exact lineFeed_notMem_decimal number
  | negSucc below =>
      rw [Decimal.ofInt, List.mem_cons, not_or]
      exact ⟨by decide, lineFeed_notMem_decimal (below + 1)⟩

/-- One line of the table of escapes. -/
theorem lineFeed_notMem_named {character letter special : Char} {otherwise : List Char}
    (inLine : '\n' ≠ letter) (other : character ≠ special → '\n' ∉ otherwise) :
    '\n' ∉ if character = special then ['\\', letter] else otherwise := by
  by_cases same : character = special
  · rw [if_pos same]
    simp [inLine]
  · rw [if_neg same]
    exact other same

/-- No character is written as a line feed between quotes, a line feed included. -/
theorem lineFeed_notMem_quotedChar (character : Char) (next : Option Char) :
    '\n' ∉ Literal.quotedChar character next := by
  unfold Literal.quotedChar
  refine lineFeed_notMem_named (by decide) fun _ => lineFeed_notMem_named (by decide) fun _ => ?_
  by_cases hash : character = '#'
  · rw [if_pos hash]
    split <;> decide
  rw [if_neg hash]
  refine lineFeed_notMem_named (by decide) fun notLineFeed => ?_
  refine lineFeed_notMem_named (by decide) fun _ => lineFeed_notMem_named (by decide) fun _ =>
    lineFeed_notMem_named (by decide) fun _ => lineFeed_notMem_named (by decide) fun _ =>
    lineFeed_notMem_named (by decide) fun _ => lineFeed_notMem_named (by decide) fun _ =>
    lineFeed_notMem_named (by decide) fun _ => ?_
  split
  · have digits : '\n' ∉ Hex.upperDigits character.toNat :=
      fun found => absurd (Hex.isDigit_of_mem_upperDigits found) (by decide)
    simp [digits]
  · simp [notLineFeed, eq_comm]

/-- So escaped text is in one line. -/
theorem lineFeed_notMem_quoted (text : List Char) : '\n' ∉ Literal.quoted text := by
  induction text with
  | nil => exact List.not_mem_nil
  | cons character rest ih =>
      rw [Literal.quoted, List.mem_append, not_or]
      exact ⟨lineFeed_notMem_quotedChar character rest.head?, ih⟩

theorem lineFeed_notMem_of_isPlainName {name : List Char} (plain : isPlainName name = true) :
    '\n' ∉ name := by
  intro found
  rcases isWordPart_or_mark_of_isPlainName plain found with part | mark
  · exact absurd part (by decide)
  · exact absurd mark (by decide)

/-- A symbol is in one line, since a name with a line feed is quoted. -/
theorem lineFeed_notMem_symbolText (name : List Char) : '\n' ∉ symbolText name := by
  unfold symbolText
  by_cases plain : isPlainName name = true
  · rw [if_pos plain, List.mem_cons, not_or]
    exact ⟨by decide, lineFeed_notMem_of_isPlainName plain⟩
  · have inside := lineFeed_notMem_quoted name
    rw [if_neg plain]
    simp [inside]

/-! ### Names -/

/-- The code of a name is in one line if the name is, and for a symbol in any case. -/
theorem lineFeed_notMem_nameCode {sort : NameSort} {text : String}
    (inLine : '\n' ∉ (Node.name sort text).bareName.toList) :
    '\n' ∉ (nameCode sort text).text.toList := by
  cases sort with
  | sym =>
      rw [nameCode, Draft.text, String.toList_ofList]
      exact lineFeed_notMem_symbolText text.toList
  | _ => exact inLine

theorem lineFeed_notMem_groupCode (group : UInt32) : '\n' ∉ (groupCode group).text.toList := by
  rw [groupCode, Draft.text, String.toList_ofList, List.mem_cons, not_or]
  exact ⟨by decide, lineFeed_notMem_decimal group.toNat⟩

/-- Behind a `#`, a name does not bring the hope for a label back. -/
theorem read_reference {code : Code} (single : '\n' ∉ code.text.toList) (mode : Mode)
    (afterSplice : Bool) (reader : LabelReader) :
    reader.read ((Part.reference code).interior mode afterSplice).text.toList =
      { reader with shown := none } := by
  have written : ((Part.reference code).interior mode afterSplice).text.toList =
      '#' :: code.text.toList := by
    rw [Part.interior, Draft.text_append (Draft.fault?_fragment _), String.toList_append]
    rfl
  rw [written, LabelReader.read_cons, LabelReader.step_of_notMem (by decide) rfl (by decide),
    LabelReader.read_of_notMem single, foldl_progress_none]

/-! ### Expressions -/

/-- No line that ends in what a code writes is a label line, whatever stands before it. -/
def EndsNoLabel (code : Code) : Prop :=
  ∀ reader : LabelReader, (reader.read code.text.toList).ended = reader.ended

/-- What has no line feed ends no line. -/
theorem endsNoLabel_of_notMem {code : Code} (single : '\n' ∉ code.text.toList) :
    EndsNoLabel code := by
  intro reader
  rw [LabelReader.read_of_notMem single]

theorem endsNoLabel_fragment {fragment : String} (single : '\n' ∉ fragment.toList) :
    EndsNoLabel (.append fragment) :=
  endsNoLabel_of_notMem single

theorem endsNoLabel_empty : EndsNoLabel .empty :=
  fun _ => rfl

theorem endsNoLabel_append {first second : Code} (ofFirst : EndsNoLabel first)
    (ofSecond : EndsNoLabel second) : EndsNoLabel (first ++ second) := by
  intro reader
  cases verdict : first.fault? with
  | some fault =>
      rw [Draft.text_append_of_halts verdict]
      exact ofFirst reader
  | none =>
      rw [Draft.text_append verdict, String.toList_append, LabelReader.read_append, ofSecond,
        ofFirst]

theorem endsNoLabel_enclosed {opening closing : String} (opens : '\n' ∉ opening.toList)
    (closes : '\n' ∉ closing.toList) {inner : Code} (inside : EndsNoLabel inner) :
    EndsNoLabel (.append opening ++ (inner ++ .append closing)) :=
  endsNoLabel_append (endsNoLabel_fragment opens)
    (endsNoLabel_append inside (endsNoLabel_fragment closes))

theorem endsNoLabel_separated {separator : String} (single : '\n' ∉ separator.toList)
    {codes : List Code} (each : ∀ code ∈ codes, EndsNoLabel code) :
    EndsNoLabel (.separated separator codes) := by
  induction codes with
  | nil => exact endsNoLabel_empty
  | cons code rest ih =>
      obtain ⟨ofCode, ofRest⟩ := List.forall_mem_cons.mp each
      cases rest with
      | nil => exact ofCode
      | cons next later =>
          apply endsNoLabel_append ofCode
          exact endsNoLabel_append (endsNoLabel_fragment single) (ih ofRest)

theorem endsNoLabel_codes {separator : String} (single : '\n' ∉ separator.toList)
    {nodes : List Node} (each : ∀ node ∈ nodes, EndsNoLabel node.code) :
    EndsNoLabel (.separated separator (Node.codes nodes)) :=
  endsNoLabel_separated single (forall_mem_codes.mpr each)

/-- A receiver or a scope ends no label line if its node does not. -/
theorem endsNoLabel_qualifier {mark : String} (single : '\n' ∉ mark.toList) {place : Option Node}
    (each : ∀ node ∈ place.toList, EndsNoLabel node.code) :
    EndsNoLabel (Node.qualifier mark place) := by
  cases place with
  | none => exact endsNoLabel_empty
  | some node =>
      exact endsNoLabel_append (each node (by simp)) (endsNoLabel_fragment single)

/-! ### Parts between quotes -/

/-- A part between quotes ends no label line if the reader comes to a lone line feed behind a splice
with no label in sight. A splice makes sure of that. -/
def Part.EndsNoLabel (part : Part) : Prop :=
  ∀ (afterSplice : Bool) (reader : LabelReader), (afterSplice = true → reader.shown = none) →
    let later := reader.read (part.interior .quoted afterSplice).text.toList
    later.ended = reader.ended ∧
      (part.isSplice = true → part.fault? = none → later.shown = none)

/-- For a part that is no splice it is enough that its code ends no label line. -/
theorem Part.endsNoLabel_of_code {part : Part} (notSplice : part.isSplice = false)
    (ofCode : ∀ afterSplice, Source.EndsNoLabel (part.interior .quoted afterSplice)) :
    part.EndsNoLabel := by
  intro afterSplice reader _ later
  refine ⟨ofCode afterSplice reader, fun splice => ?_⟩
  rw [notSplice] at splice
  cases splice

/-- A text ends a line only where it is a lone line feed behind a splice, and no label is in sight
there. -/
theorem Part.endsNoLabel_literal (text : String) : (Part.literal text).EndsNoLabel := by
  intro afterSplice reader clear later
  refine ⟨?_, nofun⟩
  simp only [later]
  rw [Part.interior]
  by_cases lone : (afterSplice && text == "\n") = true
  · rw [Bool.and_eq_true] at lone
    have lineFeed : "\n".toList = ['\n'] := by decide
    have counted : reader.count = reader.ended := by
      rw [LabelReader.count, clear lone.1]
      rfl
    rw [lone.1, lone.2, Bool.and_true, if_pos rfl, Draft.text, lineFeed, LabelReader.read_cons]
    exact counted
  · have single : '\n' ∉ (Mode.quoted.escape text).toList := by
      rw [Mode.toList_escape_quoted]
      exact lineFeed_notMem_quoted text.toList
    rw [if_neg lone]
    exact endsNoLabel_fragment single reader

theorem fault?_splice (code : Code) : (Part.splice code).fault? = code.fault? := by
  rw [Part.fault?, Part.interior]
  exact Draft.fault?_enclosed "#\x7b" "\x7d" code

/-- Behind a splice, the line at hand is none with a label. -/
theorem read_splice {code : Code} (ofCode : EndsNoLabel code) (ok : code.fault? = none)
    (mode : Mode) (afterSplice : Bool) (reader : LabelReader) :
    reader.read ((Part.splice code).interior mode afterSplice).text.toList =
      { reader with shown := none } := by
  have written : ((Part.splice code).interior mode afterSplice).text.toList =
      "#\x7b".toList ++ (code.text.toList ++ ['\x7d']) := by
    rw [Part.interior, Draft.text_append (Draft.fault?_fragment _), Draft.text_append ok,
      String.toList_append, String.toList_append]
    rfl
  have opened : (reader.read "#\x7b".toList).ended = reader.ended := rfl
  have closed (before : LabelReader) : before.read ['\x7d'] = { before with shown := none } := by
    rw [LabelReader.read_cons, LabelReader.step_of_notMem (by decide) rfl (by decide)]
    rfl
  rw [written, LabelReader.read_append, LabelReader.read_append, closed, ofCode, opened]

/-- A splice ends no label line if its code does not. It leaves no label in sight, because of its
hash. -/
theorem Part.endsNoLabel_splice {code : Code} (ofCode : Source.EndsNoLabel code) :
    (Part.splice code).EndsNoLabel := by
  intro afterSplice reader _ later
  have inside : Source.EndsNoLabel ((Part.splice code).interior .quoted afterSplice) := by
    rw [Part.interior]
    exact endsNoLabel_enclosed (by decide) (by decide) ofCode
  refine ⟨inside reader, fun _ ok => ?_⟩
  rw [fault?_splice] at ok
  simp only [later]
  rw [read_splice ofCode ok]

theorem Part.endsNoLabel_referencePart {kind : Kind} {code : Code}
    (ofCode : Source.EndsNoLabel code) : (referencePart kind code).EndsNoLabel := by
  unfold referencePart
  by_cases flat : kind.isFlat = true
  · rw [if_pos flat]
    apply Part.endsNoLabel_of_code rfl
    intro afterSplice
    rw [Part.interior]
    exact endsNoLabel_append (endsNoLabel_fragment (by decide)) ofCode
  · rw [if_neg flat]
    exact Part.endsNoLabel_of_code rfl fun _ _ => rfl

/-- Along a row each splice clears the way for the line feed behind it. By induction on the row,
with what the reader shows behind a splice as the invariant. -/
theorem endsNoLabel_interiorFrom {parts : List Part} (each : ∀ part ∈ parts, part.EndsNoLabel)
    {afterSplice : Bool} {reader : LabelReader} (clear : afterSplice = true → reader.shown = none) :
    (reader.read (interiorFrom .quoted afterSplice parts).text.toList).ended = reader.ended := by
  induction parts generalizing afterSplice reader with
  | nil => rfl
  | cons part rest ih =>
      obtain ⟨ofPart, ofRest⟩ := List.forall_mem_cons.mp each
      obtain ⟨none, closed⟩ := ofPart afterSplice reader clear
      have verdict := fault?_interiorPart .quoted afterSplice part
      rw [interiorFrom]
      cases stops : part.fault? with
      | some fault =>
          rw [Draft.text_append_of_halts (verdict.trans stops)]
          exact none
      | none =>
          rw [Draft.text_append (verdict.trans stops), String.toList_append, LabelReader.read_append,
            ih ofRest fun splice => closed splice stops]
          exact none

theorem endsNoLabel_interior {parts : List Part} (each : ∀ part ∈ parts, part.EndsNoLabel) :
    EndsNoLabel (interior .quoted parts) :=
  fun _ => endsNoLabel_interiorFrom each (fun after => Bool.noConfusion after)

/-- A string between quotes ends no label line. -/
theorem endsNoLabel_quoted {parts : List Part} (each : ∀ part ∈ parts, part.EndsNoLabel) :
    EndsNoLabel (quoted parts) := by
  unfold quoted
  by_cases empty : parts.isEmpty = true
  · rw [if_pos empty]
    exact endsNoLabel_fragment (by decide)
  · rw [if_neg empty]
    apply endsNoLabel_append (fun _ => rfl)
    apply endsNoLabel_separated (by decide)
    intro literal found
    obtain ⟨run, member, rfl⟩ := List.mem_map.mp found
    have inside : EndsNoLabel (interior .quoted run) :=
      endsNoLabel_interior fun part direct => each part (mem_of_mem_run member direct)
    exact endsNoLabel_enclosed (by decide) (by decide) inside

/-! ### Trees -/

theorem endsNoLabel_literalCode (text : String) : EndsNoLabel (literalCode text) := by
  apply endsNoLabel_enclosed (by decide) (by decide)
  apply endsNoLabel_fragment
  rw [Mode.toList_escape_quoted]
  exact lineFeed_notMem_quoted text.toList

/-- An expression ends no label line if none of its members does and its own name is in one line. -/
theorem endsNoLabel_code_of_members {node : Node} (inLine : '\n' ∉ node.bareName.toList)
    (codes : ∀ member ∈ node.members, EndsNoLabel member.code)
    (parts : ∀ member ∈ node.members, (Part.ofNode member).EndsNoLabel) :
    EndsNoLabel node.code := by
  cases node with
  | str text => exact endsNoLabel_literalCode text
  | dstr children =>
      rw [Node.code]
      exact endsNoLabel_quoted (forall_mem_ofNodes.mpr parts)
  | begin statements =>
      rw [Node.code]
      exact endsNoLabel_enclosed (by decide) (by decide) (endsNoLabel_codes (by decide) codes)
  | name sort text => exact endsNoLabel_of_notMem (lineFeed_notMem_nameCode inLine)
  | nthRef group => exact endsNoLabel_of_notMem (lineFeed_notMem_groupCode group)
  | int value =>
      apply endsNoLabel_fragment
      rw [String.toList_ofList]
      exact lineFeed_notMem_ofInt value.toInt
  | word which => cases which <;> exact endsNoLabel_fragment (by decide)
  | const scope label =>
      rw [Node.code]
      exact endsNoLabel_append (endsNoLabel_qualifier (by decide) codes) (endsNoLabel_fragment inLine)
  | send receiver method arguments =>
      have ofReceiver := endsNoLabel_qualifier (by decide : '\n' ∉ ".".toList) fun member found =>
        codes member (List.mem_append_left arguments found)
      have ofArguments := endsNoLabel_codes (by decide : '\n' ∉ ", ".toList) fun member found =>
        codes member (List.mem_append_right receiver.toList found)
      rw [Node.code]
      apply endsNoLabel_append ofReceiver
      apply endsNoLabel_append (endsNoLabel_fragment inLine)
      by_cases noArguments : arguments.isEmpty = true
      · rw [if_pos noArguments]
        exact endsNoLabel_empty
      · rw [if_neg noArguments]
        exact endsNoLabel_enclosed (by decide) (by decide) ofArguments

theorem endsNoLabel_ofNode_of_members {node : Node} (inLine : '\n' ∉ node.bareName.toList)
    (codes : ∀ member ∈ node.members, EndsNoLabel member.code)
    (parts : ∀ member ∈ node.members, (Part.ofNode member).EndsNoLabel) :
    (Part.ofNode node).EndsNoLabel := by
  cases node with
  | str text => exact Part.endsNoLabel_literal text
  | dstr children =>
      apply Part.endsNoLabel_of_code rfl
      intro afterSplice reader
      rw [Part.ofNode, Part.interior]
      exact endsNoLabel_interior (forall_mem_ofNodes.mpr parts) reader
  | begin statements => exact Part.endsNoLabel_splice (endsNoLabel_codes (by decide) codes)
  | name sort text =>
      exact Part.endsNoLabel_referencePart (endsNoLabel_of_notMem (lineFeed_notMem_nameCode inLine))
  | nthRef group =>
      exact Part.endsNoLabel_referencePart (endsNoLabel_of_notMem (lineFeed_notMem_groupCode group))
  | _ => exact Part.endsNoLabel_of_code rfl fun _ _ => rfl

/-- No line that ends in an expression, or in a part of a string between quotes, is a label line. -/
theorem endsNoLabel_code_and_ofNode {node : Node} (inLine : node.NamesInLine) :
    EndsNoLabel node.code ∧ (Part.ofNode node).EndsNoLabel := by
  induction node using Node.memberInduction with
  | step node ih =>
      have codes := fun member found => (ih member found (inLine.member found)).1
      have parts := fun member found => (ih member found (inLine.member found)).2
      have own := inLine node .here
      exact ⟨endsNoLabel_code_of_members own codes parts,
        endsNoLabel_ofNode_of_members own codes parts⟩

end Source

end StringForms
