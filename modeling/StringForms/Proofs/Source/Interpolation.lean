/-
Module: StringForms.Proofs.Source.Interpolation
Purpose: How many interpolations a reader finds in the quoted form of a string whose splices are
  empty: its splices, and the places where two of its texts meet and open one by accident.
Main exports: Leaf.opens, Leaf.meetings, Shows, Displays, count_quoted_of_hollow
-/
import StringForms.Proofs.Source.Hollow
import StringForms.Proofs.Source.Literal
import StringForms.Proofs.Source.Quoted
import StringForms.Proofs.Source.Scanner
import StringForms.Proofs.Text.Hex

namespace StringForms.Source

open Text

/-!
A `#` is escaped if the next character of its own text makes it open an interpolation. What stands
behind the last character of a text is not looked at. Between two literals that is safe, since a
quote stands there; but a nested string is dissolved into the literal around it, and after a splice
several texts share one literal. There a `#` at the end of one text may meet a brace at the start of
the next.
-/

namespace Leaf

/-- Whether a row of leaves goes on a `#` before it to an interpolation. If there is no text in the
row, `next` says so of what stands behind it. -/
def opens (next : Bool) : List Leaf → Bool
  | [] => next
  | .splice :: _ => false
  | .text [] :: rest => opens next rest
  | .text (character :: _) :: _ => Literal.startsInterpolation character

/-- In how many places of a row a text ends in a `#` that what follows goes on to an interpolation. -/
def meetings (next : Bool) : List Leaf → Nat
  | [] => 0
  | .splice :: rest => meetings next rest
  | .text characters :: rest =>
      (characters.getLast? == some '#' && opens next rest).toNat + meetings next rest

/-- What stands behind a row is asked only if the row has no text to say it. -/
theorem opens_append (next : Bool) (first second : List Leaf) :
    opens next (first ++ second) = opens (opens next second) first := by
  induction first with
  | nil => rfl
  | cons leaf rest ih =>
      cases leaf with
      | splice => rfl
      | text characters =>
          cases characters with
          | nil => exact ih
          | cons character later => rfl

/-- A place where two rows meet counts for the first row, with what the second opens. -/
theorem meetings_append (next : Bool) (first second : List Leaf) :
    meetings next (first ++ second) = meetings (opens next second) first + meetings next second := by
  induction first with
  | nil => exact (Nat.zero_add _).symm
  | cons leaf rest ih =>
      cases leaf with
      | splice => exact ih
      | text characters =>
          rw [List.cons_append, meetings, meetings, ih, opens_append, Nat.add_assoc]

end Leaf

/-! ### One text -/

/-- A hash between quotes opens an interpolation by what stands behind it. -/
theorem count_literals_hash (rest : List Char) :
    Scanner.literals.count .inside ('#' :: rest) =
      (Scanner.literals.Opens rest).toNat + Scanner.literals.count .inside rest :=
  Scanner.count_hash (by decide) rest

/-- A text that opens nothing, whatever stands behind it. -/
def Dull (body : List Char) : Prop :=
  ∀ rest, Scanner.literals.count .inside (body ++ rest) = Scanner.literals.count .inside rest

namespace Dull

theorem nil : Dull [] :=
  fun _ => rfl

theorem append {first second : List Char} (dull : Dull first) (dullSecond : Dull second) :
    Dull (first ++ second) := by
  intro rest
  rw [List.append_assoc, dull, dullSecond]

/-- An escape opens nothing, whichever character it is of. -/
theorem escape (character : Char) : Dull ['\\', character] :=
  fun rest => Scanner.count_escape character rest

theorem plain {character : Char} (inert : Scanner.literals.Inert character) : Dull [character] :=
  fun rest => Scanner.count_inert inert rest

theorem digits {run : List Char} (inside : ∀ digit ∈ run, Hex.isDigit digit = true) :
    Dull run := by
  induction run with
  | nil => exact nil
  | cons digit rest ih =>
      have here := inside digit (by simp)
      have inert : Scanner.literals.Inert digit := by
        refine ⟨ne_of_belongs here rfl, ne_of_belongs here rfl, ?_⟩
        exact fun quote => ne_of_belongs here rfl (Option.some.inj quote)
      exact (plain inert).append (ih fun other found => inside other (by simp [found]))

end Dull

namespace Literal

/-- A character other than a hash opens nothing, however it is written. -/
theorem Written.dull {character : Char} {body : List Char} (written : Written character body)
    (notHash : character ≠ '#') : Dull body := by
  cases written with
  | escape letter => exact .escape letter
  | hash same => exact absurd same notHash
  | control =>
      have inside : ∀ digit ∈ (Hex.upperDigits character.toNat).leftpad 4 '0',
          Hex.isDigit digit = true :=
        fun _ => Hex.isDigit_of_mem_leftpad fun _ => Hex.isDigit_of_mem_upperDigits
      exact (Dull.escape 'u').append (.digits inside)
  | plain notQuote notBackslash _ =>
      exact .plain ⟨notBackslash, notHash, fun quote => notQuote (Option.some.inj quote)⟩

/-- A hash is escaped only where the next character of its own text would go on with it. -/
theorem quotedChar_hash (next : Option Char) :
    quotedChar '#' next = if next.any startsInterpolation then ['\\', '#'] else ['#'] := by
  simp [quotedChar]

/-- The characters that go on a `#` to an interpolation are written as they are. -/
theorem unescaped_startsInterpolation : Unescaped startsInterpolation where
  quote := rfl
  backslash := rfl
  hash := rfl
  control := by
    intro character control
    rw [← Bool.not_eq_true]
    intro starts
    have three : character = '{' ∨ character = '$' ∨ character = '@' := by
      simpa [startsInterpolation, or_assoc] using starts
    rcases three with rfl | rfl | rfl <;> cases control

/-- Escaping a character never hides that it goes on a `#` before it. -/
theorem opens_quotedChar (character : Char) (next : Option Char) (rest : List Char) :
    Scanner.literals.Opens (quotedChar character next ++ rest) = startsInterpolation character :=
  unescaped_startsInterpolation.any_head?_quotedChar character next rest

/-- Escaped text goes on with a hash before it exactly if the text does, since the first character
of an interpolation is never escaped. -/
theorem opens_quoted (text rest : List Char) :
    Scanner.literals.Opens (quoted text ++ rest) =
      Leaf.opens (Scanner.literals.Opens rest) [.text text] := by
  cases text with
  | nil => rfl
  | cons character later =>
      rw [quoted, List.append_assoc, opens_quotedChar]
      rfl

/-- An escaped text opens an interpolation only with its last character and what follows it. -/
theorem count_quoted (text rest : List Char) :
    Scanner.literals.count .inside (quoted text ++ rest) =
      (text.getLast? == some '#' && Scanner.literals.Opens rest).toNat +
        Scanner.literals.count .inside rest := by
  induction text with
  | nil => exact (Nat.zero_add _).symm
  | cons character later ih =>
      rw [quoted, List.append_assoc]
      by_cases hash : character = '#'
      · subst hash
        have bare := count_literals_hash (quoted later ++ rest)
        cases later with
        | nil =>
            rw [quotedChar_hash, if_neg (by simp)]
            exact bare
        | cons following others =>
            rw [List.getLast?_cons_cons, ← ih, List.head?_cons, quotedChar_hash]
            by_cases starts : startsInterpolation following = true
            · rw [if_pos (by simpa using starts)]
              exact Scanner.count_escape '#' _
            · rw [if_neg (by simpa using starts)]
              rw [Bool.not_eq_true] at starts
              rw [opens_quoted, Leaf.opens, starts] at bare
              simpa using bare
      · rw [(written_quotedChar character later.head?).dull hash]
        cases later with
        | nil => simp [hash, quoted]
        | cons following others => rw [List.getLast?_cons_cons, ih]

end Literal

/-! ### The inside of a literal -/

/-- Code that shows a row of leaves to a reader inside a literal: each splice opens an
interpolation, and so does each meeting. -/
structure Shows (code : Code) (leaves : List Leaf) : Prop where
  succeeds : code.fault? = none
  opens : ∀ rest, Scanner.literals.Opens (code.text.toList ++ rest) =
    Leaf.opens (Scanner.literals.Opens rest) leaves
  counts : ∀ rest, Scanner.literals.count .inside (code.text.toList ++ rest) =
    leaves.countP Leaf.isSplice + Leaf.meetings (Scanner.literals.Opens rest) leaves +
      Scanner.literals.count .inside rest

namespace Shows

theorem empty : Shows .empty [] where
  succeeds := rfl
  opens _ := rfl
  counts rest := (Nat.zero_add (Scanner.literals.count .inside rest)).symm

theorem append {code code' : Code} {leaves leaves' : List Leaf} (first : Shows code leaves)
    (second : Shows code' leaves') : Shows (code ++ code') (leaves ++ leaves') where
  succeeds := by rw [Draft.fault?_append, first.succeeds, second.succeeds, Option.or_none]
  opens rest := by
    rw [Draft.text_append first.succeeds, String.toList_append, List.append_assoc, first.opens,
      second.opens, Leaf.opens_append]
  counts rest := by
    rw [Draft.text_append first.succeeds, String.toList_append, List.append_assoc, first.counts,
      second.counts, second.opens, Leaf.meetings_append, List.countP_append]
    omega

/-- A text between quotes shows itself: inside it nothing opens, and at its end the next leaf
decides. -/
theorem literal (text : String) : Shows (.append (Mode.quoted.escape text)) [.text text.toList] where
  succeeds := rfl
  opens rest := by
    have written : (.append (Mode.quoted.escape text) : Code).text.toList =
        Literal.quoted text.toList := Mode.toList_escape_quoted text
    rw [written, Literal.opens_quoted]
  counts rest := by
    have written : (.append (Mode.quoted.escape text) : Code).text.toList =
        Literal.quoted text.toList := Mode.toList_escape_quoted text
    rw [written, Literal.count_quoted]
    simp [Leaf.meetings, Leaf.opens, Leaf.isSplice]

/-- A line feed that is written as it is opens as little as an escaped one. -/
theorem newline : Shows (.append "\n") [.text ['\n']] where
  succeeds := rfl
  opens _ := rfl
  counts rest := by
    have inert : Scanner.literals.Inert '\n' := by simp [Scanner.Inert, Scanner.literals]
    rw [show (.append "\n" : Code).text.toList = ['\n'] from rfl, List.singleton_append,
      Scanner.count_inert inert]
    exact (Nat.zero_add _).symm

/-- An empty splice shows one splice. -/
theorem splice : Shows (.append "#\x7b" ++ (.empty ++ .append "\x7d")) [.splice] where
  succeeds := rfl
  opens _ := rfl
  counts rest := by
    have written : (.append "#\x7b" ++ (.empty ++ .append "\x7d") : Code).text.toList =
        ['#', '{', '}'] := by decide
    have opening : Scanner.literals.Inert '{' := by simp [Scanner.Inert, Scanner.literals]
    have closing : Scanner.literals.Inert '}' := by simp [Scanner.Inert, Scanner.literals]
    have hash := count_literals_hash ('{' :: '}' :: rest)
    rw [Scanner.count_inert opening, Scanner.count_inert closing] at hash
    rw [written]
    exact hash

end Shows

mutual

/-- The inside of a hollow part shows its leaves. -/
theorem shows_part : ∀ {part : Part}, part.IsHollow → ∀ afterSplice,
    Shows (part.interior .quoted afterSplice) part.leaves
  | .literal text, _, afterSplice => by
      rw [Part.interior, Part.leaves]
      by_cases lone : (afterSplice && text == "\n") = true
      · rw [Bool.and_eq_true, beq_iff_eq] at lone
        rw [lone.1, lone.2]
        exact .newline
      · rw [if_neg lone]
        exact .literal text
  | .splice code, hollow, _ => by
      rw [Part.IsHollow] at hollow
      rw [Part.interior, Part.leaves, hollow]
      exact .splice
  | .nested parts, hollow, _ => by
      rw [Part.IsHollow] at hollow
      rw [Part.interior, Part.leaves]
      have inside := shows_parts hollow false
      exact ⟨inside.succeeds, inside.opens, inside.counts⟩
  | .reference _, hollow, _ => by simp [Part.IsHollow] at hollow
  | .bare _, hollow, _ => by simp [Part.IsHollow] at hollow

/-- The inside of a row of hollow parts shows their leaves in a row. -/
theorem shows_parts : ∀ {parts : List Part}, Part.AllHollow parts → ∀ afterSplice,
    Shows (interiorFrom .quoted afterSplice parts) (Part.leavesOfAll parts)
  | [], _, _ => by
      rw [interiorFrom, Part.leavesOfAll]
      exact .empty
  | part :: rest, hollow, afterSplice => by
      rw [Part.AllHollow] at hollow
      rw [interiorFrom, Part.leavesOfAll]
      exact (shows_part hollow.1 afterSplice).append (shows_parts hollow.2 part.isSplice)

end

/-! ### A row of literals -/

/-- Code that a reader comes to and leaves between literals, with so many openings on the way. -/
structure Displays (code : Code) (openings : Nat) : Prop where
  succeeds : code.fault? = none
  counts : ∀ rest, Scanner.literals.count .outside (code.text.toList ++ rest) =
    openings + Scanner.literals.count .outside rest

/-- The openings of one literal. -/
def literalOpenings (run : List Part) : Nat :=
  (Part.leavesOfAll run).countP Leaf.isSplice + Leaf.meetings false (Part.leavesOfAll run)

namespace Displays

theorem append {code code' : Code} {openings openings' : Nat} (first : Displays code openings)
    (second : Displays code' openings') : Displays (code ++ code') (openings + openings') where
  succeeds := by rw [Draft.fault?_append, first.succeeds, second.succeeds, Option.or_none]
  counts rest := by
    rw [Draft.text_append first.succeeds, String.toList_append, List.append_assoc, first.counts,
      second.counts, Nat.add_assoc]

theorem space : Displays (.append " ") 0 where
  succeeds := rfl
  counts rest := by
    rw [Nat.zero_add]
    exact Scanner.count_between (by decide) rest

/-- A literal has the openings of its leaves. Its quotes keep a hash at its end from what follows.
-/
theorem literal {run : List Part} (hollow : Part.AllHollow run) :
    Displays (quotedRun run) (literalOpenings run) where
  succeeds := by
    rw [fault?_quotedRun, ← fault?_interior .quoted]
    exact (shows_parts hollow false).succeeds
  counts rest := by
    have inside := shows_parts hollow false
    have unfolded : (quotedRun run).text =
        "\"" ++ (interiorFrom .quoted false run ++ .append "\"" : Code).text := rfl
    have ended : (.append "\"" : Code).text = "\"" := rfl
    have quote : "\"".toList = ['"'] := rfl
    have silent : Scanner.literals.Opens ('"' :: rest) = false := rfl
    rw [unfolded, Draft.text_append inside.succeeds, ended, String.toList_append,
      String.toList_append, quote, List.append_assoc, List.append_assoc, List.singleton_append,
      List.singleton_append, Scanner.count_opening_quote rfl, inside.counts, silent,
      Scanner.count_closing_quote rfl (by decide)]
    rfl

/-- A row of literals has the openings of all of them. -/
theorem separated {runs : List (List Part)} (hollow : ∀ run ∈ runs, Part.AllHollow run) :
    Displays (.separated " " (runs.map quotedRun)) (runs.map literalOpenings).sum := by
  induction runs with
  | nil => exact ⟨rfl, fun rest => (Nat.zero_add _).symm⟩
  | cons run others ih =>
      have first := literal (hollow run (by simp))
      cases others with
      | nil => simpa [Draft.separated] using first
      | cons next later =>
          have rest := ih fun other found => hollow other (List.mem_cons_of_mem run found)
          have row := first.append (space.append rest)
          rw [Nat.zero_add] at row
          exact row

end Displays

/-! ### The whole string -/

/-- Splitting a row of parts moves no splice from or to the literals. -/
theorem sum_literalOpenings (groups : List (List Part)) :
    (groups.map literalOpenings).sum =
      (Part.leavesOfAll groups.flatten).countP Leaf.isSplice +
        (groups.map fun run => Leaf.meetings false (Part.leavesOfAll run)).sum := by
  induction groups with
  | nil => rfl
  | cons run rest ih =>
      have joined : Part.leavesOfAll (run ++ rest.flatten) =
          Part.leavesOfAll run ++ Part.leavesOfAll rest.flatten := by
        simp only [leavesOfAll_eq_flatMap, List.flatMap_append]
      rw [List.map_cons, List.map_cons, List.sum_cons, List.sum_cons, ih, List.flatten_cons, joined,
        List.countP_append, literalOpenings]
      omega

/-- What a reader finds in the quoted form of hollow parts. -/
theorem displays_quoted {parts : List Part} (hollow : Part.AllHollow parts) :
    Displays (quoted parts)
      ((Part.leavesOfAll parts).countP Leaf.isSplice +
        ((runs parts).map fun run => Leaf.meetings false (Part.leavesOfAll run)).sum) := by
  have joined : (runs parts).flatten = parts := flatten_runsFrom [] parts
  have total := sum_literalOpenings (runs parts)
  have inRuns : ∀ run ∈ runs parts, Part.AllHollow run := by
    intro run found
    rw [allHollow_iff] at hollow ⊢
    exact fun part direct => hollow part (mem_of_mem_run found direct)
  rw [joined] at total
  rw [← total, quoted]
  by_cases empty : parts.isEmpty = true
  · rw [if_pos empty, List.isEmpty_iff.mp empty]
    refine ⟨rfl, fun rest => ?_⟩
    simp [Draft.text, Scanner.count_between, Scanner.literals, runs, runsFrom, literalOpenings,
      Part.leavesOfAll, Leaf.meetings]
  · rw [if_neg empty, ← Nat.zero_add ((runs parts).map literalOpenings).sum]
    exact Displays.append ⟨rfl, fun rest => (Nat.zero_add _).symm⟩ (Displays.separated inRuns)

/-- The quoted form of a hollow string is written on every page as one text. A reader finds in it
an interpolation for each splice of the tree, and besides one for each place of a literal where a
text that ends in a `#` meets what goes on from there. So literal text is safe exactly in those
strings in which no two texts meet in that way. -/
theorem count_quoted_of_hollow {nodes : List Node} (hollow : ∀ node ∈ nodes, node.IsHollow) :
    ∃ text : String,
      (∀ page, ((quoted (Part.ofNodes nodes)).run page).fault? = none ∧
        ((quoted (Part.ofNodes nodes)).run page).page = page.append text) ∧
      Scanner.literals.count .outside text.toList =
        (Node.dstr nodes).descendants.countP Node.isBegin +
          ((runs (Part.ofNodes nodes)).map fun run =>
            Leaf.meetings false (Part.leavesOfAll run)).sum := by
  have whole := isHollow_ofNode (Node.isHollow_dstr hollow)
  have root : (Node.dstr nodes).isBegin = false := rfl
  rw [Part.ofNode, Part.IsHollow, Part.leaves, List.countP_cons_of_neg (by simp [root])] at whole
  have shown := displays_quoted whole.1
  refine ⟨(quoted (Part.ofNodes nodes)).text, fun page => ⟨?_, ?_⟩, ?_⟩
  · rw [Draft.fault?_run, shown.succeeds]
  · exact isFragment_quoted_ofNodes nodes page
  · have counted := shown.counts []
    rw [List.append_nil, whole.2] at counted
    exact counted

/-- After a splice, and in a nested string, texts meet across their ends; with nothing but an empty
text or an empty string between them they still do. -/
theorem count_quoted_of_meetings :
    (∀ node ∈ [Node.begin [], .str "a#", .str "@b", .str "c#", .dstr [.str "d#", .dstr [], .str "$"]],
      node.IsHollow) ∧
    ∃ text : String,
      (∀ page,
        ((quoted (Part.ofNodes [.begin [], .str "a#", .str "@b", .str "c#",
          .dstr [.str "d#", .dstr [], .str "$"]])).run page).fault? = none ∧
        ((quoted (Part.ofNodes [.begin [], .str "a#", .str "@b", .str "c#",
          .dstr [.str "d#", .dstr [], .str "$"]])).run page).page = page.append text) ∧
      Scanner.literals.count .outside text.toList = 1 + 2 := by
  have inner : (Node.dstr [.str "d#", .dstr [], .str "$"]).IsHollow := by
    apply Node.isHollow_dstr
    simp [Node.isHollow_str, Node.isHollow_dstr]
  have hollow : ∀ node ∈ [Node.begin [], .str "a#", .str "@b", .str "c#",
      .dstr [.str "d#", .dstr [], .str "$"]], node.IsHollow := by
    simp [Node.isHollow_str, Node.isHollow_begin, inner]
  exact ⟨hollow, count_quoted_of_hollow hollow⟩

/-- A text that ends in a `#` and one that starts with a brace are written as an interpolation
although the tree has no splice. -/
theorem quoted_opens_interpolation_in_text :
    (∀ node ∈ [Node.dstr [.str "#", .str "\x7bx\x7d"]], node.IsHollow) ∧
      ((quoted (Part.ofNodes [.dstr [.str "#", .str "\x7bx\x7d"]])).run (Page.blank "  ")).page.content =
        "\"#\x7bx\x7d\"" ∧
      Scanner.literals.count .outside "\"#\x7bx\x7d\"".toList ≠
        (Node.dstr [.dstr [.str "#", .str "\x7bx\x7d"]]).descendants.countP Node.isBegin := by
  have inner : (Node.dstr [.str "#", .str "\x7bx\x7d"]).IsHollow := by
    apply Node.isHollow_dstr
    simp [Node.isHollow_str]
  have written : (quoted (Part.ofNodes [.dstr [.str "#", .str "\x7bx\x7d"]])).text =
      "\"#\x7bx\x7d\"" := by decide
  refine ⟨by simp [inner], ?_, by decide⟩
  rw [isFragment_quoted_ofNodes, Page.append_blank]
  exact written

end StringForms.Source
