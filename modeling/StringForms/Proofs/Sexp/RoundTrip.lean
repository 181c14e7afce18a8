/-
Module: StringForms.Proofs.Sexp.RoundTrip
Purpose: The written form of a node is cut into tokens from which the grammar derives the node, so
  reading gives it back, unless a group with number zero occurs in it.
Main exports: Writes, row_cut, form_cut, spell_cut, free_of_derivesNode, read_display_iff
-/
import StringForms.Proofs.Node.Occurrence
import StringForms.Proofs.Sexp.Cutting
import StringForms.Proofs.Sexp.Reading

namespace StringForms.Sexp

open Text

/-! ### Children -/

/-- A text with which a child is over: it starts with a comma or a closing parenthesis. -/
def EndsChild (rest : List Char) : Prop :=
  ∀ next ∈ rest.head?, next = ',' ∨ next = ')'

/-- What ends a child ends every run of characters that has no comma or closing parenthesis. -/
theorem EndsChild.stops {belongs : Char → Bool} {rest : List Char} (ends : EndsChild rest)
    (comma : belongs ',' = false) (parenthesis : belongs ')' = false) : Stops belongs rest := by
  intro next found
  rcases ends next found with rfl | rfl
  · exact comma
  · exact parenthesis

/-- Wherever the text stands as a child, it is cut into tokens that are the atom. -/
def Writes (text : List Char) (atom : Atom) : Prop :=
  ∀ offset, ∃ tokens, DerivesAtom tokens atom ∧ ∀ rest, EndsChild rest → Cut offset text tokens rest

/-- A text between quotes is a child, however it is spelled there. -/
theorem writes_quotedText {body : List Char} {text : String} (spells : Spells body text.toList) :
    Writes ('"' :: (body ++ ['"'])) (.text text) := by
  intro offset
  refine ⟨_, .token ?_, fun rest _ => cut_string offset spells rest⟩
  apply Denotes.string rfl
  have inside := spells.unescape_eq (offset + 1)
  simpa [Token.quotedBody, piece] using inside

theorem writes_bareSymbol {name : String} (bare : isBareName name.toList = true) :
    Writes (':' :: name.toList) (.symbol name) := by
  intro offset
  refine ⟨_, ?_, fun rest ends => cut_symbol offset bare (ends.stops rfl rfl)⟩
  have denotes : Denotes (piece .symbol (':' :: name.toList) offset) _ := .symbol rfl
  simpa [Token.symbolName, piece] using DerivesAtom.token denotes

/-- So is a name between quotes. -/
theorem writes_quotedSymbol {body : List Char} {name : String} (spells : Spells body name.toList) :
    Writes (':' :: '"' :: (body ++ ['"'])) (.symbol name) := by
  intro offset
  refine ⟨_, .token ?_, fun rest _ => cut_quotedSymbol offset spells rest⟩
  apply Denotes.quotedSymbol rfl
  have inside := spells.unescape_eq (offset + 2)
  simpa [Token.quotedBody, piece] using inside

theorem writes_text (text : String) : Writes (spellText text.toList) (.text text) :=
  writes_quotedText (spells_encode text.toList)

theorem writes_symbol (name : String) : Writes (spellSymbol name.toList) (.symbol name) := by
  by_cases bare : isBareName name.toList = true
  · rw [spellSymbol, if_pos bare]
    exact writes_bareSymbol bare
  · rw [spellSymbol, if_neg bare]
    exact writes_quotedSymbol (spells_encode name.toList)

/-- A number is read back from its digits and its sign. -/
theorem intValue_ofInt (number : Int) : Decimal.intValue (Decimal.ofInt number) = number := by
  cases number with
  | ofNat number =>
      have noSign : ∀ text, Decimal.digits number = '-' :: text → False := by
        intro text signed
        have sign : '-' ∈ Decimal.digits number := by simp [signed]
        exact absurd (Decimal.isDigit_of_mem_digits sign) (by decide)
      rw [Decimal.ofInt, Decimal.intValue, Decimal.value_digits]
      exact noSign
  | negSucc below =>
      rw [Decimal.ofInt, Decimal.intValue, Decimal.value_digits]
      rfl

/-- The digits of a machine integer stand for it, at both ends of the range as well. -/
theorem writes_integer (value : Int64) : Writes (Decimal.ofInt value.toInt) (.integer value) := by
  intro offset
  refine ⟨_, .token ?_, fun rest ends =>
    cut_integer offset value.toInt (ends.stops rfl rfl)⟩
  apply Denotes.integer rfl
  simp [piece, intValue_ofInt]

theorem writes_nil : Writes ['n', 'i', 'l'] .nil := by
  intro offset
  refine ⟨_, .token ?_, fun rest ends =>
    cut_identifier offset rfl (List.all_eq_true.mp rfl) (ends.stops rfl rfl)⟩
  exact .nil rfl rfl

/-! ### Forms -/

/-- No tag needs quotes. -/
theorem tag_isBareName (kind : Kind) : isBareName kind.tag.toList = true := by
  have all : ∀ kind ∈ Kind.all, isBareName kind.tag.toList = true := by decide
  exact all kind (Kind.mem_all kind)

/-- How a row of children is written: each after a comma and a space. -/
def rowText (texts : List (List Char)) : List Char :=
  texts.flatMap ([',', ' '] ++ ·)

/-- What follows a child in a row is a comma, or the parenthesis that closes the node. -/
theorem endsChild_row (texts : List (List Char)) (rest : List Char) :
    EndsChild (rowText texts ++ ')' :: rest) := by
  intro next found
  cases texts with
  | nil =>
      cases found
      exact .inr rfl
  | cons text texts =>
      cases found
      exact .inl rfl

/-- A row of children up to the parenthesis that closes the node. -/
theorem row_cut {children : List (List Char × Atom)}
    (each : ∀ child ∈ children, Writes child.1 child.2) (offset : Nat) :
    ∃ tokens, DerivesChildren tokens (children.map Prod.snd) ∧
      ∀ rest, Cut offset (rowText (children.map Prod.fst)) tokens (')' :: rest) := by
  induction children generalizing offset with
  | nil => exact ⟨[], .nil, fun rest => .nil⟩
  | cons child children ih =>
      obtain ⟨text, atom⟩ := child
      let texts := children.map Prod.fst
      let start := offset + byteSize [','] + byteSize [' ']
      obtain ⟨tokens, derived, cut⟩ := each (text, atom) (by simp) start
      have eachLater : ∀ child ∈ children, Writes child.1 child.2 :=
        fun child found => each child (by simp [found])
      obtain ⟨later, derivedLater, cutLater⟩ := ih eachLater (start + byteSize text)
      refine ⟨piece .comma [','] offset :: (tokens ++ later), .cons rfl derived derivedLater, ?_⟩
      intro rest
      have child : Cut start (text ++ rowText texts) (tokens ++ later) (')' :: rest) :=
        (cut _ (endsChild_row texts rest)).append (cutLater rest)
      have spaced := (cut_blank rfl).append child
      have separated := (cut_comma offset _).append spaced
      simpa [rowText, texts] using separated

/-- A node whose children are written well is cut into tokens that derive it. -/
theorem form_cut {kind : Kind} {children : List (List Char × Atom)} {node : Node}
    (each : ∀ child ∈ children, Writes child.1 child.2)
    (fits : Fits kind (children.map Prod.snd) node) (offset : Nat) :
    ∃ tokens, DerivesNode tokens node ∧
      ∀ rest, Cut offset (spellForm kind (children.map Prod.fst)) tokens rest := by
  -- Each piece starts at the byte where the one before it ends.
  let tag := kind.tag.toList
  let texts := children.map Prod.fst
  let opening := offset + byteSize ['s']
  let start := opening + byteSize ['(']
  let behind := start + byteSize (':' :: tag)
  obtain ⟨tokens, derived, cut⟩ := row_cut each behind
  let closing := behind + byteSize (rowText texts)
  have tagName : (piece .symbol (':' :: tag) start).symbolName = kind.tag := by
    simp [Token.symbolName, piece, tag]
  have known : Kind.ofTag? (piece .symbol (':' :: tag) start).symbolName = some kind := by
    rw [tagName]
    exact Kind.ofTag?_tag kind
  have head : (piece .identifier ['s'] offset).startsNode = true := by
    simp [Token.startsNode, piece]
  refine ⟨piece .identifier ['s'] offset :: piece .leftParenthesis ['('] opening ::
    piece .symbol (':' :: tag) start :: (tokens ++ [piece .rightParenthesis [')'] closing]),
    .form head rfl rfl known derived rfl fits, ?_⟩
  intro rest
  have closed := (cut rest).append (cut_rightParenthesis closing rest)
  have stops : Stops isSymbolPart (rowText texts ++ [')'] ++ rest) := by
    rw [List.append_assoc]
    exact (endsChild_row texts rest).stops rfl rfl
  have tagged := (cut_symbol start (tag_isBareName kind) stops).append closed
  have opened := (cut_leftParenthesis opening _).append tagged
  have wordEnds : Stops isWordPart ('(' :: (':' :: tag ++ (rowText texts ++ [')']) ++ rest)) := by
    intro next found
    cases found
    decide
  have whole := (cut_identifier offset rfl (by simp) wordEnds).append opened
  simpa [spellForm, rowText, texts, tag] using whole

/-! ### Whole nodes -/

/-- The children of a node as the printer writes them, each with the atom that it stands for. -/
def writtenChildren : Node → List (List Char × Atom)
  | .str text => [(spellText text.toList, .text text)]
  | .dstr parts => parts.map fun part => (part.spell, .node part)
  | .begin statements => statements.map fun statement => (statement.spell, .node statement)
  | .name _ text => [(spellSymbol text.toList, .symbol text)]
  | .nthRef group => [(Decimal.digits group.toNat, .integer (.ofInt group.toNat))]
  | .int value => [(Decimal.ofInt value.toInt, .integer value)]
  | .word _ => []
  | .const scope label =>
      [(Node.spellOptional scope, .ofOptional scope), (spellSymbol label.toList, .symbol label)]
  | .send receiver method arguments =>
      (Node.spellOptional receiver, .ofOptional receiver) ::
        (spellSymbol method.toList, .symbol method) ::
        arguments.map fun argument => (argument.spell, .node argument)

theorem spellAll_eq_map (nodes : List Node) : Node.spellAll nodes = nodes.map Node.spell := by
  induction nodes with
  | nil => rw [Node.spellAll, List.map_nil]
  | cons node rest ih => rw [Node.spellAll, ih, List.map_cons]

/-- A node is spelled as its tag and its children, whatever its kind. -/
theorem spell_eq_form (node : Node) :
    node.spell = spellForm node.kind ((writtenChildren node).map Prod.fst) := by
  cases node <;>
    simp [Node.spell, Node.kind, writtenChildren, spellAll_eq_map, Function.comp_def]

theorem toInt_groupNumber (group : UInt32) :
    (Int64.ofInt group.toNat).toInt = Int.ofNat group.toNat := by
  have bound := group.toNat_lt
  exact Int64.toInt_ofInt_of_le (by omega) (by omega)

theorem atoms_of_written (nodes : List Node) :
    (nodes.map fun node => (node.spell, Atom.node node)).map Prod.snd = nodes.map .node := by
  rw [List.map_map]
  rfl

/-- What is written for a node fits its kind again, for all nodes but the group zero. -/
theorem fits_writtenChildren {node : Node} (noZero : .nthRef 0 ≠ node) :
    Fits node.kind ((writtenChildren node).map Prod.snd) node := by
  cases node with
  | dstr parts =>
      rw [writtenChildren, atoms_of_written]
      exact .dstr parts
  | begin statements =>
      rw [writtenChildren, atoms_of_written]
      exact .begin statements
  | nthRef group =>
      have number := toInt_groupNumber group
      have bound := group.toNat_lt
      have positive : group.toNat ≠ 0 := by
        intro zero
        exact noZero (congrArg Node.nthRef (UInt32.toNat_inj.mp zero.symm))
      refine .nthRef (.ofInt group.toNat) group ?_ ?_ number.symm
      · rw [number, Int.ofNat_eq_natCast]
        omega
      · rw [number, Int.ofNat_eq_natCast]
        omega
  | send receiver method arguments =>
      rw [writtenChildren, List.map_cons, List.map_cons, atoms_of_written]
      exact .send receiver method arguments
  | str text => exact .str text
  | name sort text => exact .name sort text
  | int value => exact .int value
  | word which => exact .word which
  | const scope label => exact .const scope label

/-- A place for a node is written as the node or as `nil`. -/
theorem writes_optional {place : Option Node}
    (each : ∀ node ∈ place.toList, Writes node.spell (.node node)) :
    Writes (Node.spellOptional place) (.ofOptional place) := by
  cases place with
  | none => exact writes_nil
  | some node => exact each node (by simp)

/-- The children of a node are written as what they are, if its members are. -/
theorem writes_writtenChildren {node : Node}
    (each : ∀ member ∈ node.members, Writes member.spell (.node member)) :
    ∀ child ∈ writtenChildren node, Writes child.1 child.2 := by
  cases node with
  | str text => simpa [writtenChildren] using writes_text text
  | dstr parts => simpa [writtenChildren, Node.members] using each
  | begin statements => simpa [writtenChildren, Node.members] using each
  | name sort text => simpa [writtenChildren] using writes_symbol text
  | nthRef group =>
      have writes := writes_integer (.ofInt group.toNat)
      rw [toInt_groupNumber, Decimal.ofInt] at writes
      simpa [writtenChildren] using writes
  | int value => simpa [writtenChildren] using writes_integer value
  | word which => simp [writtenChildren]
  | const scope label =>
      have ofScope : Writes _ _ := writes_optional each
      simpa [writtenChildren] using ⟨ofScope, writes_symbol label⟩
  | send receiver method arguments =>
      have ofReceiver : Writes _ _ := writes_optional fun node found =>
        each node (List.mem_append_left _ found)
      have ofArguments : ∀ argument ∈ arguments, Writes argument.spell (.node argument) :=
        fun argument found => each argument (List.mem_append_right _ found)
      simpa [writtenChildren] using ⟨ofReceiver, writes_symbol method, ofArguments⟩

/-- The written form of a node is cut into tokens that derive the node. -/
theorem spell_cut (node : Node) (free : ¬ Node.Occurs (.nthRef 0) node) (offset : Nat) :
    ∃ tokens, DerivesNode tokens node ∧ ∀ rest, Cut offset node.spell tokens rest := by
  induction node using Node.memberInduction generalizing offset with
  | step node ih =>
      obtain ⟨noZero, freeMembers⟩ := Node.not_occurs_iff.mp free
      have each : ∀ member ∈ node.members, Writes member.spell (.node member) := by
        intro member found offset
        obtain ⟨tokens, derived, cut⟩ := ih member found (freeMembers member found) offset
        exact ⟨tokens, .node derived, fun rest _ => cut rest⟩
      rw [spell_eq_form]
      exact form_cut (writes_writtenChildren each) (fits_writtenChildren noZero) offset

/-! ### Nodes that have been read -/

/-- No children fit the group with the number zero. -/
theorem Fits.ne_zeroGroup {kind : Kind} {atoms : List Atom} {node : Node}
    (fits : Fits kind atoms node) : .nthRef 0 ≠ node := by
  rintro rfl
  cases fits with
  | nthRef value group positive bounded numbered =>
      rw [← numbered] at positive
      exact absurd positive (by decide)

/-- The members of a node are among its children. -/
theorem Fits.mem_atoms {kind : Kind} {atoms : List Atom} {node member : Node}
    (fits : Fits kind atoms node) (found : member ∈ node.members) : .node member ∈ atoms := by
  have ofPlace {place : Option Node} (found : member ∈ place.toList) :
      Atom.node member = .ofOptional place := by
    obtain rfl : place = some member := by simpa using found
    rfl
  cases fits with
  | dstr parts => exact List.mem_map_of_mem found
  | begin statements => exact List.mem_map_of_mem found
  | const scope label =>
      rw [ofPlace found]
      simp
  | send receiver method arguments =>
      rcases List.mem_append.mp found with found | found
      · rw [ofPlace found]
        simp
      · simp [found]
  | _ => cases found

mutual

/-- What the grammar derives has no group zero anywhere in it. -/
theorem free_of_derivesNode :
    ∀ {tokens : List Token} {node : Node}, DerivesNode tokens node →
      ¬ Node.Occurs (.nthRef 0) node
  | _, _, .form _ _ _ _ derived _ fits => by
      refine Node.not_occurs_iff.mpr ⟨fits.ne_zeroGroup, fun member found => ?_⟩
      exact free_of_derivesChildren derived (fits.mem_atoms found)

theorem free_of_derivesAtom :
    ∀ {tokens : List Token} {atom : Atom}, DerivesAtom tokens atom →
      ∀ {member : Node}, .node member = atom → ¬ Node.Occurs (.nthRef 0) member
  | _, _, .node derived, _, rfl => free_of_derivesNode derived
  | _, _, .token denotes, _, same => by
      subst same
      cases denotes

theorem free_of_derivesChildren :
    ∀ {tokens : List Token} {atoms : List Atom}, DerivesChildren tokens atoms →
      ∀ {member : Node}, .node member ∈ atoms → ¬ Node.Occurs (.nthRef 0) member
  | _, _, .nil, _, found => by cases found
  | _, _, .cons _ first later, _, found => by
      rcases List.mem_cons.mp found with same | found
      · exact free_of_derivesAtom first same
      · exact free_of_derivesChildren later found

end

/-- Nor has what is read, so a node with that group is not read back. -/
theorem free_of_read {source : String} {node : Node} (made : read source = .ok node) :
    ¬ Node.Occurs (.nthRef 0) node := by
  rcases Except.bind_eq_ok_iff.mp made with ⟨tokens, _, taken⟩
  exact free_of_derivesNode (readTokens_eq_ok_iff.mp taken)

/-- A text that is cut into tokens that derive a node is read as that node. -/
theorem read_of_cut {text : List Char} {tokens : List Token} {node : Node}
    (derived : DerivesNode tokens node) (cut : Cut 0 text tokens []) :
    read (String.ofList text) = .ok node := by
  rw [read, cut.lex_eq, Except.ok_bind]
  exact readTokens_eq_ok_iff.mpr derived

/-- Without a group zero a node is read back from its display. -/
theorem read_display {node : Node} (free : ¬ Node.Occurs (.nthRef 0) node) :
    read node.display = .ok node := by
  obtain ⟨tokens, derived, cut⟩ := spell_cut node free 0
  exact read_of_cut derived (cut [])

/-- A node is read back from its written form exactly if no group in it has number zero. No text is
read as a node with such a group, so what has been read once can always be written and read again. -/
theorem read_display_iff :
    (∀ node : Node, read node.display = .ok node ↔ ¬ Node.Occurs (.nthRef 0) node) ∧
    (∀ (source : String) (node : Node), read source = .ok node →
      ¬ Node.Occurs (.nthRef 0) node ∧ read node.display = .ok node) := by
  constructor
  · intro node
    exact ⟨free_of_read, read_display⟩
  · intro source node made
    have free := free_of_read made
    exact ⟨free, read_display free⟩

/-- A group that is not zero, below a splice. -/
theorem read_display_group :
    read (Node.dstr [.begin [.nthRef 1]]).display = .ok (.dstr [.begin [.nthRef 1]]) ∧
      ¬ Node.Occurs (.nthRef 0) (.dstr [.begin [.nthRef 1]]) := by
  have group : ¬ Node.Occurs (.nthRef 0) (.nthRef 1) :=
    Node.not_occurs_iff.mpr ⟨by simp, by simp [Node.members]⟩
  have splice : ¬ Node.Occurs (.nthRef 0) (.begin [.nthRef 1]) :=
    Node.not_occurs_iff.mpr ⟨by simp, by simpa [Node.members] using group⟩
  have free : ¬ Node.Occurs (.nthRef 0) (.dstr [.begin [.nthRef 1]]) :=
    Node.not_occurs_iff.mpr ⟨by simp, by simpa [Node.members] using splice⟩
  have made := (read_display_iff.1 _).mpr free
  exact ⟨made, (read_display_iff.2 _ _ made).1⟩

end StringForms.Sexp
