/-
Module: StringForms.Proofs.Sexp.Positions
Purpose: Errors of the reader point at what they speak of: the text that they report stands in the
  source at the byte that they give.
Main exports: ReadError.offset?, ReadError.Shown, Token.Peels, Refusal, refusal_of_readTokens,
  read_error_position
-/
import StringForms.Proofs.Sexp.Escapes
import StringForms.Proofs.Sexp.Moves
import StringForms.Proofs.Sexp.Tokenization

namespace StringForms.Sexp

open Text

/-!
An error is made from a token: from the one that is refused or, when the children of a node are,
from the tag of that node, which was taken long before and is kept on the stack. So there are three
things to know: which errors a token gives, that the stack remembers tags where they stand, and that
tokens and the insides of quotes stand in the source where they say.
-/

/-! ### What an error says -/

/-- The byte that an error points at. A missing end has none. -/
def ReadError.offset? : ReadError → Option Nat
  | .invalidCharacter offset => some offset
  | .unexpectedToken _ _ offset => some offset
  | .unexpectedEnd _ => none
  | .unknownKind _ offset => some offset
  | .invalidChildren _ offset _ => some offset
  | .invalidEscape _ offset => some offset
  | .integerOutOfRange _ offset => some offset
  | .trailingInput offset => some offset

/-- What an error says of the source from the byte on that it points at. -/
def ReadError.Shown : ReadError → List Char → Prop
  | .invalidCharacter _, rest => Stuck rest
  | .unexpectedToken _ found _, rest => found.toList <+: rest
  | .unexpectedEnd _, _ => True
  | .unknownKind tag _, rest => ':' :: tag.toList <+: rest
  | .invalidChildren kind _ _, rest => ':' :: kind.tag.toList <+: rest
  | .invalidEscape escape _, rest =>
      (∃ piece, escape.toList = '\\' :: piece) ∧ escape.toList <+: rest
  | .integerOutOfRange text _, rest => text.toList <+: rest
  | .trailingInput _, rest => ∃ kind text, LongestMatch kind text rest

/-! ### The insides of tokens -/

/-- What is taken off a token stands at its ends: the colon of a symbol, and the quotes of a quoted
text. -/
def Token.Peels (token : Token) : Prop :=
  match token.kind with
  | .symbol => token.text.toList = [':'] ++ token.symbolName.toList
  | .quotedSymbol => token.text.toList = [':', '"'] ++ (token.quotedBody 2).toList ++ ['"']
  | .string => token.text.toList = ['"'] ++ (token.quotedBody 1).toList ++ ['"']
  | _ => True

/-- The text of a token is peeled by what its kind starts and ends with. -/
theorem Token.peels_of_mem {token : Token} (belongs : token.text.toList ∈ token.kind.language) :
    token.Peels := by
  obtain ⟨kind, text, offset⟩ := token
  cases kind with
  | symbol =>
      obtain ⟨name, _, same⟩ := mem_symbol_iff.mp belongs
      simp [Peels, symbolName, same]
  | quotedSymbol =>
      obtain ⟨_, ⟨body, _, _, rfl, rfl⟩, same⟩ := mem_quotedSymbol_iff.mp belongs
      simp [Peels, quotedBody, same]
  | string =>
      obtain ⟨_, ⟨body, _, _, rfl, rfl⟩, same⟩ := mem_string_iff.mp belongs
      simp [Peels, quotedBody, same]
  | _ => trivial

/-! ### The errors of the machine -/

/-- The unfinished nodes of a state, the innermost first. -/
def State.frames : State → List Frame
  | .head => []
  | .opening below => below
  | .tag below => below
  | .child top below => top :: below
  | .separator top below => top :: below
  | .done _ => []

/-- `Refusal token frames problem` lists the errors that a token can give while some nodes are
unfinished. -/
inductive Refusal (token : Token) (frames : List Frame) : ReadError → Prop where
  | unexpected (expected : Expectation) : Refusal token frames (token.unexpected expected)
  | unknownKind (sort : token.kind = .symbol) :
      Refusal token frames (.unknownKind token.symbolName token.offset)
  | quotedSymbol {problem : ReadError} (sort : token.kind = .quotedSymbol)
      (failed : unescape (token.quotedBody 2) (token.offset + 2) = .error problem) :
      Refusal token frames problem
  | string {problem : ReadError} (sort : token.kind = .string)
      (failed : unescape (token.quotedBody 1) (token.offset + 1) = .error problem) :
      Refusal token frames problem
  | integer : Refusal token frames (.integerOutOfRange token.text token.offset)
  | children {frame : Frame} (unfinished : frame ∈ frames) (problem : ChildProblem) :
      Refusal token frames (.invalidChildren frame.kind frame.offset problem)
  | trailing : Refusal token frames (.trailingInput token.offset)

theorem eq_of_require_error {token : Token} {kind : TokenKind} {expected : Expectation}
    {problem : ReadError} (failed : token.require kind expected = .error problem) :
    problem = token.unexpected expected := by
  unfold Token.require at failed
  split at failed <;> cases failed
  rfl

/-- A node that cannot be finished is reported by its kind and the place of its tag. -/
theorem exists_of_close_error {frame : Frame} {problem : ReadError}
    (failed : frame.close = .error problem) :
    ∃ why, problem = .invalidChildren frame.kind frame.offset why := by
  unfold Frame.close Node.build at failed
  split at failed <;> cases failed
  exact ⟨_, rfl⟩

/-- A token that stands for no atom is refused, or something inside it is. -/
theorem refusal_of_ofToken {token : Token} {frames : List Frame} {problem : ReadError}
    (failed : Atom.ofToken token = .error problem) : Refusal token frames problem := by
  unfold Atom.ofToken at failed
  split at failed
  next => cases failed
  next sort => exact .quotedSymbol sort (Except.map_eq_error_iff.mp failed)
  next sort => exact .string sort (Except.map_eq_error_iff.mp failed)
  next =>
    split at failed <;> cases failed
    exact .integer
  next =>
    split at failed <;> cases failed
    exact .unexpected .atom
  all_goals
    cases failed
    exact .unexpected .atom

/-- A step fails in one of the ways in which a token is refused, with the nodes that were unfinished
then. -/
theorem refusal_of_step {state : State} {token : Token} {problem : ReadError}
    (failed : state.step token = .error problem) : Refusal token state.frames problem := by
  cases state with
  | head =>
      simp only [State.step] at failed
      split at failed <;> cases failed
      exact .unexpected .nodeStart
  | opening below =>
      rcases Except.bind_eq_error_iff.mp failed with refused | ⟨_, _, later⟩
      · rw [eq_of_require_error refused]
        exact .unexpected .openParenthesis
      · cases later
  | tag below =>
      rcases Except.bind_eq_error_iff.mp failed with refused | ⟨_, required, later⟩
      · rw [eq_of_require_error refused]
        exact .unexpected .nodeKind
      · obtain ⟨sort, rfl⟩ := require_eq_ok_iff.mp required
        split at later <;> cases later
        exact .unknownKind sort
  | child top below =>
      simp only [State.step] at failed
      split at failed
      next => cases failed
      next =>
        rcases Except.bind_eq_error_iff.mp failed with refused | ⟨_, _, later⟩
        · exact refusal_of_ofToken refused
        · cases later
  | separator top below =>
      simp only [State.step] at failed
      split at failed
      next => cases failed
      next =>
        rcases Except.bind_eq_error_iff.mp failed with refused | ⟨_, _, later⟩
        · rw [eq_of_require_error refused]
          exact .unexpected .separator
        · rcases Except.bind_eq_error_iff.mp later with refused | ⟨_, _, delivered⟩
          · obtain ⟨why, rfl⟩ := exists_of_close_error refused
            exact .children List.mem_cons_self why
          · cases delivered
  | done node =>
      cases failed
      exact .trailing

/-! ### Tags on the stack -/

/-- A token that is the tag of an unfinished node. -/
structure Token.Tags (token : Token) (frame : Frame) : Prop where
  sort : token.kind = .symbol
  known : Kind.ofTag? token.symbolName = some frame.kind
  offset : token.offset = frame.offset

theorem Token.Tags.push {token : Token} {frame : Frame} (tags : token.Tags frame) (child : Atom) :
    token.Tags (frame.push child) where
  sort := tags.sort
  known := tags.known
  offset := tags.offset

/-- The unfinished nodes of a stack have their tags among some tokens. -/
def Tagged (tokens : List Token) (frames : List Frame) : Prop :=
  ∀ frame ∈ frames, ∃ tag ∈ tokens, tag.Tags frame

/-- A child changes neither the kind of its node nor the place of the tag. -/
theorem Tagged.push {tokens : List Token} {top : Frame} {below : List Frame}
    (tagged : Tagged tokens (top :: below)) (child : Atom) :
    Tagged tokens (top.push child :: below) := by
  obtain ⟨⟨tag, found, tags⟩, ofBelow⟩ := List.forall_mem_cons.mp tagged
  exact List.forall_mem_cons.mpr ⟨⟨tag, found, tags.push child⟩, ofBelow⟩

theorem Tagged.deliver {tokens : List Token} {below : List Frame} (tagged : Tagged tokens below)
    (node : Node) : Tagged tokens (State.deliver node below).frames := by
  cases below with
  | nil => exact nofun
  | cons top below => exact tagged.push (.node node)

/-- Each move keeps the tags, and adds the one that it takes. -/
theorem Moves.tagged {state next : State} {token : Token} {tokens : List Token}
    (moves : Moves state token next) (taken : token ∈ tokens)
    (tagged : Tagged tokens state.frames) : Tagged tokens next.frames := by
  cases moves with
  | enter => exact tagged
  | opens => exact tagged
  | tag sort known =>
      exact List.forall_mem_cons.mpr ⟨⟨token, taken, sort, known, rfl⟩, tagged⟩
  | descend => exact tagged
  | atom => exact Tagged.push tagged _
  | comma => exact tagged
  | close => exact Tagged.deliver (List.forall_mem_cons.mp tagged).2 _

/-- An error of a run is the refusal of one of its tokens. -/
theorem refusal_of_run {tokens rest : List Token} {state : State} {problem : ReadError}
    (within : ∀ token ∈ rest, token ∈ tokens) (tagged : Tagged tokens state.frames)
    (failed : state.run rest = .error problem) :
    ∃ token ∈ tokens, ∃ frames, Tagged tokens frames ∧ Refusal token frames problem := by
  induction rest generalizing state with
  | nil => cases failed
  | cons token rest ih =>
      obtain ⟨here, later⟩ := List.forall_mem_cons.mp within
      rcases Except.bind_eq_error_iff.mp failed with refused | ⟨next, stepped, refusedLater⟩
      · exact ⟨token, here, _, tagged, refusal_of_step refused⟩
      · exact ih later ((Moves.of_step stepped).tagged here tagged) refusedLater

/-- An error with a place is the refusal of a token. -/
theorem refusal_of_readTokens {tokens : List Token} {problem : ReadError} {offset : Nat}
    (failed : readTokens tokens = .error problem) (placed : problem.offset? = some offset) :
    ∃ token ∈ tokens, ∃ frames, Tagged tokens frames ∧ Refusal token frames problem := by
  rcases Except.bind_eq_error_iff.mp failed with refused | ⟨last, _, unfinished⟩
  · have tagged : Tagged tokens State.head.frames := fun _ found => nomatch found
    exact refusal_of_run (fun _ found => found) tagged refused
  · cases last <;> cases unfinished <;> cases placed

/-! ### Places in the source -/

/-- Behind what has been passed over, the rest starts at the byte that the sum gives. -/
theorem RestAt.skip {input front rest : List Char} {offset : Nat}
    (placed : RestAt input offset (front ++ rest)) :
    RestAt input (offset + byteSize front) rest := by
  obtain ⟨before, rfl, rfl⟩ := placed
  exact ⟨before ++ front, (List.append_assoc _ _ _).symm, byteSize_append _ _⟩

/-- A place with something behind it is a boundary of two characters and not the end. -/
theorem RestAt.isValid {source : String} {offset : Nat} {rest : List Char}
    (placed : RestAt source.toList offset rest) (filled : rest ≠ []) :
    String.Pos.Raw.IsValid source ⟨offset⟩ ∧ offset < source.utf8ByteSize := by
  obtain ⟨before, split, rfl⟩ := placed
  have joined : source = String.ofList before ++ String.ofList rest := by
    rw [← String.ofList_append, ← split, String.ofList_toList]
  have bytes : (String.ofList before).utf8ByteSize = byteSize before := by
    rw [← byteSize_toList, String.toList_ofList]
  constructor
  · rw [String.Pos.Raw.isValid_iff_exists_append]
    exact ⟨_, _, joined, congrArg String.Pos.Raw.mk bytes.symm⟩
  · obtain ⟨first, more, rfl⟩ := List.exists_cons_of_ne_nil filled
    have some := first.utf8Size_pos
    rw [← byteSize_toList, split, byteSize_append, byteSize]
    omega

/-- An error that points into the input at what it speaks of. -/
def ReadError.ShownIn (problem : ReadError) (input : List Char) : Prop :=
  ∀ offset ∈ problem.offset?, ∃ rest, RestAt input offset rest ∧ rest ≠ [] ∧ problem.Shown rest

/-- A broken escape is shown inside the token that holds it. -/
theorem shownIn_of_unescape_error {input opening rest : List Char} {body : String} {offset : Nat}
    {problem : ReadError} (placed : RestAt input offset (opening ++ body.toList ++ rest))
    (failed : unescape body (offset + byteSize opening) = .error problem) :
    problem.ShownIn input := by
  obtain ⟨before, piece, after, split, _, rfl⟩ := exists_of_unescape_error failed
  have inside : RestAt input (offset + byteSize opening + byteSize before)
      ('\\' :: (piece ++ after) ++ rest) := by
    rw [split, List.append_assoc, List.append_assoc] at placed
    exact placed.skip.skip
  rintro _ ⟨⟩
  refine ⟨_, inside, List.cons_ne_nil _ _, ?_⟩
  simp [ReadError.Shown]

/-- A token stands in an input where it says, as the longest one there. -/
def Token.StandsIn (token : Token) (input : List Char) : Prop :=
  ∃ rest, RestAt input token.offset rest ∧ LongestMatch token.kind token.text.toList rest

/-- The name of a symbol that stands in a text stands there with its colon. -/
theorem Token.StandsIn.exists_symbol {token : Token} {input : List Char}
    (stands : token.StandsIn input) (sort : token.kind = .symbol) :
    ∃ rest, RestAt input token.offset rest ∧ rest ≠ [] ∧
      ':' :: token.symbolName.toList <+: rest := by
  obtain ⟨rest, placed, matched⟩ := stands
  have peels := Token.peels_of_mem matched.belongs
  rw [Token.Peels, sort] at peels
  have begins := matched.begins
  rw [peels] at begins
  obtain ⟨after, rfl⟩ := begins
  exact ⟨_, placed, List.cons_ne_nil _ _, List.prefix_append _ _⟩

/-- The errors of tokens that stand in the input are shown there. -/
theorem shownIn_of_refusal {input : List Char} {tokens : List Token} {token : Token}
    {frames : List Frame} {problem : ReadError} (stands : ∀ token ∈ tokens, token.StandsIn input)
    (found : token ∈ tokens) (tagged : Tagged tokens frames)
    (refusal : Refusal token frames problem) : problem.ShownIn input := by
  obtain ⟨rest, placed, matched⟩ := stands token found
  have peels := Token.peels_of_mem matched.belongs
  obtain ⟨after, standing⟩ := matched.begins
  have filled : rest ≠ [] := by
    obtain ⟨first, more, text⟩ := TokenKind.exists_cons_of_mem matched.belongs
    simp [← standing, text]
  cases refusal with
  | unexpected expected =>
      rintro _ ⟨⟩
      exact ⟨rest, placed, filled, matched.begins⟩
  | unknownKind sort =>
      rintro _ ⟨⟩
      exact (stands token found).exists_symbol sort
  | quotedSymbol sort failed =>
      rw [Token.Peels, sort] at peels
      rw [← standing, peels, List.append_assoc] at placed
      exact @shownIn_of_unescape_error _ [':', '"'] _ _ _ _ placed failed
  | string sort failed =>
      rw [Token.Peels, sort] at peels
      rw [← standing, peels, List.append_assoc] at placed
      exact @shownIn_of_unescape_error _ ['"'] _ _ _ _ placed failed
  | integer =>
      rintro _ ⟨⟩
      exact ⟨rest, placed, filled, matched.begins⟩
  | children unfinished why =>
      -- The tag may be far from the token at hand. That it stands in the input is known from the
      -- stack.
      obtain ⟨tag, foundTag, tags⟩ := tagged _ unfinished
      have named : _ = tag.symbolName := Kind.tag_of_ofTag? tags.known
      have shown := (stands tag foundTag).exists_symbol tags.sort
      rw [tags.offset, ← named] at shown
      rintro _ ⟨⟩
      exact shown
  | trailing =>
      rintro _ ⟨⟩
      exact ⟨rest, placed, filled, _, _, matched⟩

/-- The tokens of a text stand in it, each at its own offset. -/
theorem standsIn_of_lex {source : String} {tokens : List Token} (lexed : lex source = .ok tokens) :
    ∀ token ∈ tokens, token.StandsIn source.toList := by
  intro token found
  have stands := (lex_eq_ok_iff.mp lexed).exists_restAt found
  rwa [List.append_nil] at stands

/-- What the reader says of a text is true of it. -/
theorem shownIn_of_read_error {source : String} {problem : ReadError}
    (failed : read source = .error problem) : problem.ShownIn source.toList := by
  intro offset placed
  rcases Except.bind_eq_error_iff.mp failed with unlexed | ⟨tokens, lexed, refused⟩
  · obtain ⟨before, ahead, _, split, _, stuck, rfl⟩ := lex_eq_error_iff.mp unlexed
    cases placed
    refine ⟨ahead, ⟨before, split, rfl⟩, ?_, stuck⟩
    obtain ⟨first, following, rfl, _⟩ := stuck
    exact List.cons_ne_nil _ _
  · obtain ⟨token, found, frames, tagged, refusal⟩ := refusal_of_readTokens refused placed
    exact shownIn_of_refusal (standsIn_of_lex lexed) found tagged refusal offset placed

/-- An error with a place is given at the start of a character of the source, and what the error
speaks of stands there. The pieces that errors are made of are cut out between characters of what
they are cut from: a broken escape, whose end is counted in bytes, out of the inside of the quotes,
and that inside and the name of a symbol out of their tokens. -/
theorem read_error_position :
    (∀ (source : String) (problem : ReadError) (offset : Nat), read source = .error problem →
      problem.offset? = some offset →
        String.Pos.Raw.IsValid source ⟨offset⟩ ∧ offset < source.utf8ByteSize ∧
          ∃ rest, RestAt source.toList offset rest ∧ problem.Shown rest) ∧
    (∀ (body : String) (offset : Nat) (problem : ReadError),
      unescape body offset = .error problem →
        ∃ before piece after, body.toList = before ++ ('\\' :: piece) ++ after ∧
          problem = .invalidEscape (String.ofList ('\\' :: piece)) (offset + byteSize before) ∧
          Quoted.escape (piece ++ after) = .error (byteSize piece) ∧
          (piece = [] ∧ after = [] ∨ ∃ letter narrow, piece = letter :: narrow ∧
            byteSize piece = letter.utf8Size + narrow.length)) ∧
    (∀ (source : String) (tokens : List Token), lex source = .ok tokens →
      ∀ token ∈ tokens, token.Peels) := by
  refine ⟨fun source problem offset failed placed => ?_, fun body offset problem failed => ?_,
    fun source tokens lexed token found => ?_⟩
  · obtain ⟨rest, stands, filled, shown⟩ := shownIn_of_read_error failed offset placed
    obtain ⟨boundary, inside⟩ := stands.isValid filled
    exact ⟨boundary, inside, rest, stands, shown⟩
  · obtain ⟨before, piece, after, split, broken, same⟩ := exists_of_unescape_error failed
    refine ⟨before, piece, after, ?_, same, broken.escape_eq, broken.byteSize_eq⟩
    rw [split, List.append_assoc, List.cons_append]
  · obtain ⟨rest, _, matched⟩ := standsIn_of_lex lexed token found
    exact Token.peels_of_mem matched.belongs

/-- A broken escape behind a character of two bytes. -/
theorem read_error_position_of_escape :
    let source := "s(:str, \"\u00e9\\q\")"
    read source = .error (.invalidEscape "\\q" 11) ∧
      String.Pos.Raw.IsValid source ⟨11⟩ ∧ 11 < source.utf8ByteSize ∧
        ∃ rest, RestAt source.toList 11 rest ∧ "\\q".toList <+: rest := by
  intro source
  have failed : read source = .error (.invalidEscape "\\q" 11) := by
    simp only [source]
    cbv
  obtain ⟨boundary, inside, rest, placed, _, shown⟩ :=
    read_error_position.1 source _ 11 failed rfl
  exact ⟨failed, boundary, inside, rest, placed, shown⟩

end StringForms.Sexp
