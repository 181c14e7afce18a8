/-
Module: StringForms.Proofs.Source.References
Purpose: When a name that follows a `#` without braces is read back from a literal as that name.
Main exports: Alphabet, Alphabet.readReference, Node.RefersBy, text_quoted_of_unbraced,
  readReference_quoted_iff
-/
import Mathlib.Data.List.TakeWhile
import StringForms.Proofs.Sexp.Cutting
import StringForms.Proofs.Source.Literal
import StringForms.Proofs.Source.Splitting
import StringForms.Proofs.Text.Words

namespace StringForms

open Text

/-!
A reader takes a name without braces as far as it goes. Behind the name stands whatever the next part
begins with: the quote that closes the literal, the `#` of another name, or the first character of a
text. Nothing parts a text from a name before it, neither an escape nor a break between literals, so
a text that begins like the rest of a name is read as a part of it.
-/

/-! ### Reading a name -/

/-- What a reader takes for the characters of a name: ASCII letters, digits and underscores, and beyond
ASCII whatever it counts as letters, control characters apart. -/
structure Alphabet where
  belongs : Char → Bool
  ascii : ∀ character : Char, character.toNat < 128 → belongs character = isWordPart character
  control : ∀ character, isControl character = true → belongs character = false

namespace Alphabet

/-- The reader that knows no letters beyond ASCII. -/
def asciiOnly : Alphabet where
  belongs := isWordPart
  ascii _ _ := rfl
  control _ := isWordPart_eq_false_of_isControl

/-- Whether a character behind the name of a node goes on with it. The number of a group goes on with
digits only. -/
def goesOn (alphabet : Alphabet) : Node → Char → Bool
  | .nthRef _ => Char.isDigit
  | _ => alphabet.belongs

/-- The variable or group that a text names at its start, as far as the name goes, and the text behind
it. -/
def readReference (alphabet : Alphabet) : List Char → Option (Node × List Char)
  | '@' :: '@' :: rest =>
      some (.name .cvar (String.ofList ('@' :: '@' :: rest.takeWhile alphabet.belongs)),
        rest.dropWhile alphabet.belongs)
  | '@' :: rest =>
      some (.name .ivar (String.ofList ('@' :: rest.takeWhile alphabet.belongs)),
        rest.dropWhile alphabet.belongs)
  | '$' :: rest =>
      if rest.head?.any Char.isDigit then
        some (.nthRef (UInt32.ofNat (Decimal.value (rest.takeWhile Char.isDigit))),
          rest.dropWhile Char.isDigit)
      else
        some (.name .gvar (String.ofList ('$' :: rest.takeWhile alphabet.belongs)),
          rest.dropWhile alphabet.belongs)
  | _ => none

/-- Whether the part behind a name is a text that goes on with it. -/
def continues (alphabet : Alphabet) (child : Node) : List Node → Bool
  | .str text :: _ => text.toList.head?.any (alphabet.goesOn child)
  | _ => false

end Alphabet

/-! ### Names -/

/-- Whether a text is an ASCII identifier. -/
def isIdentifier : List Char → Bool
  | [] => false
  | first :: rest => isWordStart first && rest.all isWordPart

/-- The nodes that a string holds without braces, with what stands behind the `#`: a sigil and an
identifier, or a dollar sign and the number of a group. -/
inductive Node.RefersBy : Node → List Char → Prop where
  | instanceVariable {label : List Char} (valid : isIdentifier label = true) :
      RefersBy (.name .ivar (String.ofList ('@' :: label))) ('@' :: label)
  | classVariable {label : List Char} (valid : isIdentifier label = true) :
      RefersBy (.name .cvar (String.ofList ('@' :: '@' :: label))) ('@' :: '@' :: label)
  | globalVariable {label : List Char} (valid : isIdentifier label = true) :
      RefersBy (.name .gvar (String.ofList ('$' :: label))) ('$' :: label)
  | group (number : UInt32) :
      RefersBy (.nthRef number) ('$' :: Decimal.digits number.toNat)

/-- Literal text, or a variable or group that a string holds without braces. -/
def Node.IsUnbraced (node : Node) : Prop :=
  node.isStr = true ∨ ∃ name, node.RefersBy name

/-- An identifier has a first character, and it is no digit. -/
theorem exists_first_of_isIdentifier {label : List Char} (valid : isIdentifier label = true) :
    ∃ first more, label = first :: more ∧ isWordStart first = true := by
  cases label with
  | nil => cases valid
  | cons first more =>
      rw [isIdentifier, Bool.and_eq_true] at valid
      exact ⟨first, more, rfl, valid.1⟩

/-- All of its characters are parts of words. -/
theorem isWordPart_of_mem_identifier {label : List Char} (valid : isIdentifier label = true)
    {character : Char} (found : character ∈ label) : isWordPart character = true := by
  cases label with
  | nil => cases found
  | cons first more =>
      rw [isIdentifier, Bool.and_eq_true, List.all_eq_true] at valid
      rcases List.mem_cons.mp found with rfl | later
      · exact isWordPart_of_isWordStart valid.1
      · exact valid.2 character later

namespace Alphabet

variable (alphabet : Alphabet)

/-- The whole of an identifier is in the alphabet, whatever else is. -/
theorem belongs_of_mem_identifier {label : List Char} (valid : isIdentifier label = true) :
    ∀ character ∈ label, alphabet.belongs character = true := by
  intro character found
  have part := isWordPart_of_mem_identifier valid found
  have small := (toNat_of_isWordPart part).2
  rw [alphabet.ascii character (by omega), part]

/-- No escape and no delimiter of a literal goes on with a name. -/
theorem unescaped_belongs : Source.Literal.Unescaped alphabet.belongs where
  quote := alphabet.ascii '"' (by decide)
  backslash := alphabet.ascii '\\' (by decide)
  hash := alphabet.ascii '#' (by decide)
  control := alphabet.control

/-- No digit is escaped between quotes. -/
theorem unescaped_isDigit : Source.Literal.Unescaped Char.isDigit where
  quote := rfl
  backslash := rfl
  hash := rfl
  control character control := by
    have noPart := isWordPart_eq_false_of_isControl control
    rw [isWordPart, Char.isAlphanum, Bool.or_eq_false_iff, Bool.or_eq_false_iff] at noPart
    exact noPart.1.2

/-- No character that goes on with a name is escaped between quotes. -/
theorem unescaped_goesOn (child : Node) : Source.Literal.Unescaped (alphabet.goesOn child) := by
  cases child with
  | nthRef group => exact unescaped_isDigit
  | _ => exact alphabet.unescaped_belongs

end Alphabet

/-! ### Reading a name back -/

/-- Nothing is dropped exactly if the first character does not belong. -/
theorem dropWhile_eq_self_iff_any_head? {belongs : Char → Bool} {rest : List Char} :
    rest.dropWhile belongs = rest ↔ rest.head?.any belongs = false := by
  rw [List.dropWhile_eq_self_iff]
  cases rest with
  | nil => simp
  | cons next later => simp

theorem takeWhile_eq_nil_of_any_head? {belongs : Char → Bool} {rest : List Char}
    (stops : rest.head?.any belongs = false) : rest.takeWhile belongs = [] := by
  cases rest with
  | nil => rfl
  | cons next later => simpa using stops

/-- The name of an instance variable goes on with all that the alphabet has behind it. -/
theorem readReference_ivar (alphabet : Alphabet) {label : List Char}
    (valid : isIdentifier label = true) (back : List Char) :
    alphabet.readReference ('@' :: (label ++ back)) =
      some (.name .ivar (String.ofList ('@' :: (label ++ back.takeWhile alphabet.belongs))),
        back.dropWhile alphabet.belongs) := by
  have inside := alphabet.belongs_of_mem_identifier valid
  obtain ⟨first, more, rfl, start⟩ := exists_first_of_isIdentifier valid
  have noSigil : first ≠ '@' := ne_of_belongs start rfl
  rw [← List.takeWhile_append_of_pos inside, ← List.dropWhile_append_of_pos inside,
    Alphabet.readReference]
  intro rest second
  exact noSigil (List.cons.inj second).1

theorem readReference_cvar (alphabet : Alphabet) {label : List Char}
    (valid : isIdentifier label = true) (back : List Char) :
    alphabet.readReference ('@' :: '@' :: (label ++ back)) =
      some (.name .cvar (String.ofList ('@' :: '@' :: (label ++ back.takeWhile alphabet.belongs))),
        back.dropWhile alphabet.belongs) := by
  have inside := alphabet.belongs_of_mem_identifier valid
  rw [← List.takeWhile_append_of_pos inside, ← List.dropWhile_append_of_pos inside,
    Alphabet.readReference]

theorem readReference_gvar (alphabet : Alphabet) {label : List Char}
    (valid : isIdentifier label = true) (back : List Char) :
    alphabet.readReference ('$' :: (label ++ back)) =
      some (.name .gvar (String.ofList ('$' :: (label ++ back.takeWhile alphabet.belongs))),
        back.dropWhile alphabet.belongs) := by
  have inside := alphabet.belongs_of_mem_identifier valid
  obtain ⟨first, more, rfl, start⟩ := exists_first_of_isIdentifier valid
  have noDigit : first.isDigit = false := isDigit_eq_false_of_isWordStart start
  rw [← List.takeWhile_append_of_pos inside, ← List.dropWhile_append_of_pos inside,
    Alphabet.readReference, List.cons_append, if_neg (by simp [noDigit])]

/-- The number of a group goes on with digits alone. -/
theorem readReference_group (alphabet : Alphabet) (number : Nat) (back : List Char) :
    alphabet.readReference ('$' :: (Decimal.digits number ++ back)) =
      some (.nthRef (UInt32.ofNat (Decimal.value
          (Decimal.digits number ++ back.takeWhile Char.isDigit))),
        back.dropWhile Char.isDigit) := by
  have inside : ∀ digit ∈ Decimal.digits number, digit.isDigit = true :=
    fun _ => Decimal.isDigit_of_mem_digits
  have leads : (Decimal.digits number ++ back).head?.any Char.isDigit = true := by
    cases spelled : Decimal.digits number with
    | nil => exact absurd spelled Nat.toDigits_ne_nil
    | cons first more => exact inside first (by simp [spelled])
  rw [← List.takeWhile_append_of_pos inside, ← List.dropWhile_append_of_pos inside,
    Alphabet.readReference, if_pos leads]

/-- What is read at the name of a node: that node if the name stops there, and never less than the
name. -/
theorem Node.RefersBy.exists_read {child : Node} {name : List Char} (refers : child.RefersBy name)
    (alphabet : Alphabet) (back : List Char) :
    ∃ node, alphabet.readReference (name ++ back) =
        some (node, back.dropWhile (alphabet.goesOn child)) ∧
      (back.head?.any (alphabet.goesOn child) = false → node = child) := by
  cases refers with
  | instanceVariable valid =>
      refine ⟨_, readReference_ivar alphabet valid back, fun stops => ?_⟩
      have ends : back.takeWhile alphabet.belongs = [] := takeWhile_eq_nil_of_any_head? stops
      rw [ends, List.append_nil]
  | classVariable valid =>
      refine ⟨_, readReference_cvar alphabet valid back, fun stops => ?_⟩
      have ends : back.takeWhile alphabet.belongs = [] := takeWhile_eq_nil_of_any_head? stops
      rw [ends, List.append_nil]
  | globalVariable valid =>
      refine ⟨_, readReference_gvar alphabet valid back, fun stops => ?_⟩
      have ends : back.takeWhile alphabet.belongs = [] := takeWhile_eq_nil_of_any_head? stops
      rw [ends, List.append_nil]
  | group number =>
      refine ⟨_, readReference_group alphabet number.toNat back, fun stops => ?_⟩
      have ends : back.takeWhile Char.isDigit = [] := takeWhile_eq_nil_of_any_head? stops
      rw [ends, List.append_nil, Decimal.value_digits, UInt32.ofNat_toNat]

/-- A name is read back as its node, with all behind it left, exactly if the name stops there. -/
theorem Node.RefersBy.readReference_eq_iff {child : Node} {name : List Char}
    (refers : child.RefersBy name) (alphabet : Alphabet) (back : List Char) :
    alphabet.readReference (name ++ back) = some (child, back) ↔
      back.head?.any (alphabet.goesOn child) = false := by
  obtain ⟨node, read, same⟩ := refers.exists_read alphabet back
  rw [read]
  constructor
  · intro whole
    have left : back.dropWhile (alphabet.goesOn child) = back := by
      simpa using congrArg (Option.map Prod.snd) whole
    exact dropWhile_eq_self_iff_any_head?.mp left
  · intro stops
    rw [same stops, dropWhile_eq_self_iff_any_head?.mpr stops]

namespace Source

/-! ### What stands between the quotes -/

/-- Parts that are literal text, or a name without braces. -/
def Part.IsUnbraced (part : Part) : Prop :=
  (∃ text, part = .literal text) ∨ ∃ name, part = .reference (.append name)

namespace Part.IsUnbraced

theorem fault?_eq_none {part : Part} (unbraced : part.IsUnbraced) : part.fault? = none := by
  rcases unbraced with ⟨text, rfl⟩ | ⟨name, rfl⟩ <;> rfl

theorem isSplice_eq_false {part : Part} (unbraced : part.IsUnbraced) : part.isSplice = false := by
  rcases unbraced with ⟨text, rfl⟩ | ⟨name, rfl⟩ <;> rfl

theorem isNested_eq_false {part : Part} (unbraced : part.IsUnbraced) : part.isNested = false := by
  rcases unbraced with ⟨text, rfl⟩ | ⟨name, rfl⟩ <;> rfl

end Part.IsUnbraced

/-- What stands in a row of texts and names between the outermost quotes: each part as it is written,
and a break wherever two texts meet. -/
def rowFrom (afterText : Bool) : List Part → String
  | [] => ""
  | part :: rest =>
      (if afterText && part.isLiteral then "\" \"" else "") ++
        ((part.interior .quoted false).text ++ rowFrom part.isLiteral rest)

/-- A name parts what is before it from what is behind it. -/
theorem rowFrom_append_reference (afterText : Bool) (before : List Part) (name : String)
    (after : List Part) :
    rowFrom afterText (before ++ .reference (.append name) :: after) =
      rowFrom afterText before ++ ("#" ++ name ++ rowFrom false after) := by
  induction before generalizing afterText with
  | nil =>
      have written : ((Part.reference (.append name)).interior .quoted false).text = "#" ++ name := rfl
      simp [rowFrom, Part.isLiteral, written]
  | cons part rest ih => simp only [List.cons_append, rowFrom, ih, String.append_assoc]

/-- Without splices and nested strings a break stands exactly between two texts. -/
theorem breaksAfter_of_unbraced {current : List Part} {part : Part}
    (unbracedCurrent : ∀ other ∈ current, other.IsUnbraced) (unbraced : part.IsUnbraced) :
    breaksAfter current part = (current.getLast?.any Part.isLiteral && part.isLiteral) := by
  have noSplice : current.any Part.isSplice = false := by
    rw [List.any_eq_false]
    exact fun other found => by simp [(unbracedCurrent other found).isSplice_eq_false]
  cases ends : current.getLast? with
  | none => simp [breaksAfter, ends]
  | some last =>
      have unbracedLast := unbracedCurrent last (List.mem_of_getLast? ends)
      simp [breaksAfter, ends, noSplice, unbraced.isNested_eq_false,
        unbracedLast.isNested_eq_false, Bool.and_comm]

theorem afterRow_of_unbraced {current : List Part}
    (unbraced : ∀ other ∈ current, other.IsUnbraced) : afterRow false current = false := by
  cases ends : current.getLast? with
  | none => simp [afterRow, ends]
  | some last =>
      have unbracedLast := unbraced last (List.mem_of_getLast? ends)
      simp [afterRow, ends, unbracedLast.isSplice_eq_false]

theorem ok_of_unbraced {parts : List Part} (unbraced : ∀ part ∈ parts, part.IsUnbraced) :
    parts.findSome? Part.fault? = none := by
  rw [List.findSome?_eq_none_iff]
  exact fun part found => (unbraced part found).fault?_eq_none

/-- The runs of such a row, with a break between neighbours. -/
theorem intercalate_runsFrom {current parts : List Part}
    (unbraced : ∀ part ∈ current ++ parts, part.IsUnbraced) :
    "\" \"".intercalate ((runsFrom current parts).map fun run => (interior .quoted run).text) =
      (interior .quoted current).text ++ rowFrom (current.getLast?.any Part.isLiteral) parts := by
  induction parts generalizing current with
  | nil => simp [runsFrom, rowFrom]
  | cons part rest ih =>
      have unbracedCurrent : ∀ other ∈ current, other.IsUnbraced :=
        fun other found => unbraced other (List.mem_append_left _ found)
      have unbracedRest : ∀ other ∈ part :: rest, other.IsUnbraced :=
        fun other found => unbraced other (List.mem_append_right current found)
      have unbracedPart := unbracedRest part List.mem_cons_self
      have breaks := breaksAfter_of_unbraced unbracedCurrent unbracedPart
      have alone : (interior .quoted [part]).text = (part.interior .quoted false).text := by
        rw [interior, text_interiorFrom_cons unbracedPart.fault?_eq_none]
        exact String.append_empty
      cases meet : (current.getLast?.any Part.isLiteral && part.isLiteral) with
      | true =>
          rw [meet] at breaks
          -- Two texts meet, so the part starts a run and the quotes come between.
          have filled : (runsFrom [part] rest).map (fun run => (interior .quoted run).text) ≠ [] :=
            fun none => runsFrom_ne_nil [part] rest (List.map_eq_nil_iff.mp none)
          have later := @ih [part] unbracedRest
          rw [runsFrom, if_pos breaks, List.map_cons, String.intercalate_cons_of_ne_nil filled, later,
            alone, rowFrom, meet, if_pos rfl, String.append_assoc]
          rfl
      | false =>
          rw [meet] at breaks
          -- The part goes on with the run at hand, and nothing comes between.
          have joined : current ++ part :: rest = (current ++ [part]) ++ rest := by simp
          have grown : (interior .quoted (current ++ [part])).text =
              (interior .quoted current).text ++ (part.interior .quoted false).text := by
            rw [← alone, interior, text_interiorFrom_append (ok_of_unbraced unbracedCurrent),
              afterRow_of_unbraced unbracedCurrent]
            rfl
          have later := @ih (current ++ [part]) (joined ▸ unbraced)
          rw [List.getLast?_concat] at later
          rw [runsFrom, if_neg (by simp [breaks]), later, grown, rowFrom, meet,
            if_neg Bool.false_ne_true, String.empty_append, String.append_assoc]
          rfl

/-- A string of texts and names is a row of them between two quotes. -/
theorem text_quoted_of_unbraced {parts : List Part} (filled : parts ≠ [])
    (unbraced : ∀ part ∈ parts, part.IsUnbraced) :
    (quoted parts).text = "\"" ++ (rowFrom false parts ++ "\"") := by
  have row := @intercalate_runsFrom [] parts unbraced
  have nothing : (interior .quoted []).text = "" := rfl
  rw [nothing, String.empty_append] at row
  rw [text_quoted filled (ok_of_unbraced unbraced), runs, row]
  rfl

/-! ### What stands behind a name -/

/-- A name without braces becomes a reference by that name. -/
theorem ofNode_of_refersBy {child : Node} {name : List Char} (refers : child.RefersBy name) :
    Part.ofNode child = .reference (.append (String.ofList name)) := by
  cases refers <;> rw [Part.ofNode] <;> rfl

theorem isUnbraced_ofNode {node : Node} (unbraced : node.IsUnbraced) :
    (Part.ofNode node).IsUnbraced := by
  rcases unbraced with literal | ⟨name, refers⟩
  · cases node with
    | str text => exact .inl ⟨text, by rw [Part.ofNode]⟩
    | _ => cases literal
  · exact .inr ⟨_, ofNode_of_refersBy refers⟩

theorem isUnbraced_of_mem_ofNodes {nodes : List Node} (unbraced : ∀ node ∈ nodes, node.IsUnbraced) :
    ∀ part ∈ Part.ofNodes nodes, part.IsUnbraced :=
  forall_mem_ofNodes.mpr fun node member => isUnbraced_ofNode (unbraced node member)

variable {belongs : Char → Bool}

/-- A reference begins with its hash, which goes on with nothing that is not escaped. -/
theorem any_head?_reference (unescaped : Literal.Unescaped belongs) (afterText : Bool) (name : String)
    (rest : List Part) (behind : List Char) :
    ((rowFrom afterText (.reference (.append name) :: rest)).toList ++ behind).head?.any belongs =
      false := by
  have written : (rowFrom afterText (.reference (.append name) :: rest)).toList =
      '#' :: (name ++ rowFrom false rest).toList := by
    have row := rowFrom_append_reference afterText [] name rest
    rw [List.nil_append] at row
    rw [row, String.append_assoc]
    simp [rowFrom]
  rw [written]
  exact unescaped.hash

/-- Behind a text stands a quote, or the `#` of a name. -/
theorem any_head?_behind_text (unescaped : Literal.Unescaped belongs) {rest : List Part}
    (unbraced : ∀ part ∈ rest, part.IsUnbraced) :
    ((rowFrom true rest).toList ++ ['"']).head?.any belongs = false := by
  cases rest with
  | nil => exact unescaped.quote
  | cons part later =>
      rcases unbraced part List.mem_cons_self with ⟨text, rfl⟩ | ⟨name, rfl⟩
      · have parted : (rowFrom true (.literal text :: later)).toList = '"' :: ' ' :: '"' ::
            (((Part.literal text).interior .quoted false).text ++ rowFrom true later).toList := by
          simp [rowFrom, Part.isLiteral]
        rw [parted]
        exact unescaped.quote
      · exact any_head?_reference unescaped true name later ['"']

/-- What stands behind a name goes on with it exactly if the next part is a text that does. -/
theorem any_head?_behind_name (alphabet : Alphabet) (child : Node) {after : List Node}
    (unbraced : ∀ node ∈ after, node.IsUnbraced) :
    ((rowFrom false (Part.ofNodes after)).toList ++ ['"']).head?.any (alphabet.goesOn child) =
      alphabet.continues child after := by
  have unescaped := alphabet.unescaped_goesOn child
  cases after with
  | nil => exact unescaped.quote
  | cons node rest =>
      have unbracedRest : ∀ other ∈ rest, other.IsUnbraced :=
        fun other found => unbraced other (List.mem_cons_of_mem node found)
      rcases unbraced node List.mem_cons_self with literal | ⟨name, refers⟩
      · cases node with
        | str text =>
            have written : (rowFrom false (Part.ofNodes (.str text :: rest))).toList =
                Literal.quoted text.toList ++ (rowFrom true (Part.ofNodes rest)).toList := by
              rw [Part.ofNodes, Part.ofNode, rowFrom, Bool.false_and, if_neg Bool.false_ne_true,
                String.empty_append, String.toList_append, ← Mode.toList_escape_quoted]
              rfl
            rw [written, List.append_assoc, unescaped.any_head?_quoted, Alphabet.continues]
            cases text.toList with
            | nil => exact any_head?_behind_text unescaped (isUnbraced_of_mem_ofNodes unbracedRest)
            | cons character later => rfl
        | _ => cases literal
      · have other : alphabet.continues child (node :: rest) = false := by
          cases refers <;> rfl
        rw [Part.ofNodes, ofNode_of_refersBy refers, any_head?_reference unescaped, other]

/-- A string of literal texts and of variables and groups without braces is written on every page.
Wherever a variable or group stands in it, `front` is what is written before it, so that up to it the
string reads `front` and the name and is then closed. The character behind the name goes on with it
exactly if the next part is a text that begins with such a character; and exactly if it is not, the
name is read back as that variable or group, with everything behind it left as it is. -/
theorem readReference_quoted_iff (alphabet : Alphabet) {before after : List Node} {child : Node}
    {name : List Char} (unbraced : ∀ node ∈ before ++ child :: after, node.IsUnbraced)
    (refers : child.RefersBy name) :
    ∃ front back : List Char,
      (quoted (Part.ofNodes (before ++ [child]))).text.toList = front ++ '#' :: name ++ ['"'] ∧
      (∀ page, ((quoted (Part.ofNodes (before ++ child :: after))).run page).fault? = none ∧
        ((quoted (Part.ofNodes (before ++ child :: after))).run page).page =
          page.append (String.ofList (front ++ '#' :: name ++ back))) ∧
      back ≠ [] ∧ back.head?.any (alphabet.goesOn child) = alphabet.continues child after ∧
      (alphabet.readReference (name ++ back) = some (child, back) ↔
        alphabet.continues child after = false) := by
  -- Up to the name the text is the same with all parts behind it and with none.
  have text : ∀ later, (∀ node ∈ before ++ child :: later, node.IsUnbraced) →
      (quoted (Part.ofNodes (before ++ child :: later))).text.toList =
        '"' :: (rowFrom false (Part.ofNodes before)).toList ++ '#' :: name ++
          ((rowFrom false (Part.ofNodes later)).toList ++ ['"']) := by
    intro later unbracedLater
    have parts : Part.ofNodes (before ++ child :: later) =
        Part.ofNodes before ++ .reference (.append (String.ofList name)) :: Part.ofNodes later := by
      simp only [ofNodes_eq_map, List.map_append, List.map_cons, ofNode_of_refersBy refers]
    rw [text_quoted_of_unbraced (by simp [parts]) (isUnbraced_of_mem_ofNodes unbracedLater), parts,
      rowFrom_append_reference]
    simp
  have stops := any_head?_behind_name alphabet child
    fun node found => unbraced node (List.mem_append_right before (List.mem_cons_of_mem child found))
  refine ⟨'"' :: (rowFrom false (Part.ofNodes before)).toList,
    (rowFrom false (Part.ofNodes after)).toList ++ ['"'], ?_, fun page => ⟨?_, ?_⟩, by simp, stops,
    ?_⟩
  · apply text []
    intro node found
    rcases List.mem_append.mp found with inBefore | alone
    · exact unbraced node (List.mem_append_left _ inBefore)
    · rw [List.mem_singleton.mp alone]
      exact .inr ⟨name, refers⟩
  · rw [Draft.fault?_run, fault?_quoted]
    exact ok_of_unbraced (isUnbraced_of_mem_ofNodes unbraced)
  · rw [← text after unbraced, String.ofList_toList]
    exact isFragment_quoted_ofNodes _ page
  · rw [refers.readReference_eq_iff, stops]

/-- A letter does not go on with the number of a group. -/
theorem readReference_quoted_of_group :
    (∀ node ∈ [Node.str "a#", .name .ivar "@b", .str ""] ++ .nthRef 12 :: [.str "x"],
      node.IsUnbraced) ∧
    (Node.nthRef 12).RefersBy ['$', '1', '2'] ∧
    ∃ front back : List Char,
      (quoted (Part.ofNodes ([Node.str "a#", .name .ivar "@b", .str ""] ++ [.nthRef 12]))).text.toList =
        front ++ '#' :: ['$', '1', '2'] ++ ['"'] ∧
      Alphabet.asciiOnly.readReference (['$', '1', '2'] ++ back) = some (.nthRef 12, back) := by
  have label : (Node.name .ivar "@b").RefersBy ['@', 'b'] :=
    .instanceVariable (rfl : isIdentifier ['b'] = true)
  have number : (Node.nthRef 12).RefersBy ['$', '1', '2'] := .group 12
  have unbraced : ∀ node ∈ [Node.str "a#", .name .ivar "@b", .str ""] ++ .nthRef 12 :: [.str "x"],
      node.IsUnbraced := by
    intro node found
    simp only [List.cons_append, List.nil_append, List.mem_cons, List.not_mem_nil, or_false] at found
    rcases found with rfl | rfl | rfl | rfl | rfl
    · exact .inl rfl
    · exact .inr ⟨_, label⟩
    · exact .inl rfl
    · exact .inr ⟨_, number⟩
    · exact .inl rfl
  obtain ⟨front, back, stands, _, _, _, read⟩ :=
    readReference_quoted_iff Alphabet.asciiOnly unbraced number
  exact ⟨unbraced, number, front, back, stands, read.mpr rfl⟩

/-- A text behind a name is read as a part of it. -/
theorem quoted_extends_name_by_text :
    (∀ node ∈ [Node.name .ivar "@a", .str "b"], node.IsUnbraced) ∧
      ((quoted (Part.ofNodes [.name .ivar "@a", .str "b"])).run (Page.blank "  ")).page.content =
        "\"#@ab\"" ∧
      Alphabet.asciiOnly.goesOn (.name .ivar "@a") 'b' = true ∧
      Alphabet.asciiOnly.readReference "@ab\"".toList = some (.name .ivar "@ab", ['"']) := by
  have label : (Node.name .ivar "@a").RefersBy ['@', 'a'] :=
    .instanceVariable (rfl : isIdentifier ['a'] = true)
  have written : (quoted (Part.ofNodes [.name .ivar "@a", .str "b"])).text = "\"#@ab\"" := by decide
  refine ⟨?_, ?_, rfl, rfl⟩
  · simpa [Node.IsUnbraced, Node.isStr] using ⟨_, label⟩
  · rw [isFragment_quoted_ofNodes, Page.append_blank]
    exact written

end Source

end StringForms
