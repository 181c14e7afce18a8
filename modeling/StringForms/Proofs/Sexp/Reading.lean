/-
Module: StringForms.Proofs.Sexp.Reading
Purpose: The reading machine accepts exactly the tokens that the grammar derives, and so does the
  reader of whole texts.
Main exports: run_of_derivesNode, Opened, Pending, Consumed, Consumed.run, readTokens_eq_ok_iff,
  read_eq_ok_iff_derives
-/
import StringForms.Proofs.Sexp.Moves

namespace StringForms.Sexp

/-!
A derivation drives the machine: over the tokens of a node it goes from any state that lets a node
start to the state that holds the finished node, whatever the stack and whatever follows.
-/

/-- Adds a row of children to an unfinished node. -/
def Frame.extend (frame : Frame) (atoms : List Atom) : Frame :=
  { frame with children := atoms.reverse ++ frame.children }

@[simp] theorem Frame.extend_nil (frame : Frame) : frame.extend [] = frame := rfl

theorem Frame.extend_push (frame : Frame) (atom : Atom) (atoms : List Atom) :
    (frame.push atom).extend atoms = frame.extend (atom :: atoms) := by
  simp [Frame.extend, Frame.push]

mutual

/-- Over the tokens of a node the machine goes from where the node may start to where it has ended. -/

theorem run_of_derivesNode :
    ∀ {tokens : List Token} {node : Node}, DerivesNode tokens node →
      ∀ {state : State} {below : List Frame},
        (∀ {token : Token}, token.startsNode = true → Moves state token (.opening below)) →
        ∀ rest, state.run (tokens ++ rest) = (State.deliver node below).run rest
  | _, _, @DerivesNode.form _ _ tag _ _ kind atoms node starts opens tagged known derived closes fits,
      _, _, enters, rest => by
      let top : Frame := { kind := kind, offset := tag.offset, children := [] }
      have full : Fits (top.extend atoms).kind (top.extend atoms).children.reverse node := by
        simpa [Frame.extend, top] using fits
      simp only [List.cons_append, List.append_assoc]
      rw [State.run_cons_of_moves (enters starts), State.run_cons_of_moves (.opens opens),
        State.run_cons_of_moves (.tag tagged known), run_of_derivesChildren derived,
        List.nil_append, State.run_cons_of_moves (.close closes full)]

/-- Over the tokens of a child the machine adds it to the node that waits for one. -/
theorem run_of_derivesAtom :
    ∀ {tokens : List Token} {atom : Atom}, DerivesAtom tokens atom →
      ∀ {top : Frame} {below : List Frame} (rest : List Token),
        (State.child top below).run (tokens ++ rest) =
          (State.separator (top.push atom) below).run rest
  | _, _, .node derived, _, _, rest => run_of_derivesNode derived .descend rest
  | _, _, .token denotes, _, _, rest => State.run_cons_of_moves (.atom denotes) rest

theorem run_of_derivesChildren :
    ∀ {tokens : List Token} {atoms : List Atom}, DerivesChildren tokens atoms →
      ∀ {top : Frame} {below : List Frame} (rest : List Token),
        (State.separator top below).run (tokens ++ rest) =
          (State.separator (top.extend atoms) below).run rest
  | _, _, .nil, _, _, rest => rfl
  | _, _, .cons separates first later, _, _, rest => by
      simp only [List.cons_append, List.append_assoc]
      rw [State.run_cons_of_moves (.comma separates), run_of_derivesAtom first,
        run_of_derivesChildren later, Frame.extend_push]

end

/-!
The other way round, an invariant says what the machine has read when it is in a state: each
unfinished node on the stack is the beginning of a written node, with a comma after it if another
node is being read inside. A move keeps the invariant, and so does a run.
-/

/-- Tokens that begin a written node and end with the last of the children read so far. -/
inductive Opened : List Token → Frame → Prop where
  | form {head opening tag : Token} {children : List Token} {frame : Frame}
      (starts : head.startsNode = true) (opens : opening.kind = .leftParenthesis)
      (tagged : tag.kind = .symbol) (known : Kind.ofTag? tag.symbolName = some frame.kind)
      (derived : DerivesChildren children frame.children.reverse) :
      Opened (head :: opening :: tag :: children) frame

/-- Tokens after which a node may start inside the unfinished nodes of a stack. -/
inductive Pending : List Token → List Frame → Prop where
  | nil : Pending [] []
  | cons {before tokens : List Token} {comma : Token} {frame : Frame} {below : List Frame}
      (outside : Pending before below) (opened : Opened tokens frame)
      (separates : comma.kind = .comma) :
      Pending (before ++ tokens ++ [comma]) (frame :: below)

/-- Tokens that the machine has taken when it is in a state. -/
inductive Consumed : List Token → State → Prop where
  | head : Consumed [] .head
  | opening {before : List Token} {head : Token} {below : List Frame}
      (outside : Pending before below) (starts : head.startsNode = true) :
      Consumed (before ++ [head]) (.opening below)
  | tag {before : List Token} {head opening : Token} {below : List Frame}
      (outside : Pending before below) (starts : head.startsNode = true)
      (opens : opening.kind = .leftParenthesis) :
      Consumed (before ++ [head, opening]) (.tag below)
  | child {before : List Token} {top : Frame} {below : List Frame}
      (outside : Pending before (top :: below)) : Consumed before (.child top below)
  | separator {before tokens : List Token} {top : Frame} {below : List Frame}
      (outside : Pending before below) (opened : Opened tokens top) :
      Consumed (before ++ tokens) (.separator top below)
  | done {tokens : List Token} {node : Node} (derived : DerivesNode tokens node) :
      Consumed tokens (.done node)

/-- One more child, behind a comma, still begins the same node. -/
theorem Opened.push {tokens atomTokens : List Token} {comma : Token} {frame : Frame} {atom : Atom}
    (opened : Opened tokens frame) (separates : comma.kind = .comma)
    (derived : DerivesAtom atomTokens atom) :
    Opened (tokens ++ comma :: atomTokens) (frame.push atom) := by
  cases opened with
  | form starts opens tagged known children =>
      refine .form starts opens tagged known ?_
      simpa [Frame.push] using children.concat separates derived

/-- A finished node is handed to the innermost unfinished one, or it is the whole. -/
theorem Consumed.deliver {before tokens : List Token} {below : List Frame} {node : Node}
    (outside : Pending before below) (derived : DerivesNode tokens node) :
    Consumed (before ++ tokens) (.deliver node below) := by
  cases outside with
  | nil => exact .done derived
  | cons outside opened separates =>
      have pushed := opened.push separates (.node derived)
      simpa [State.deliver] using Consumed.separator outside pushed

/-- The invariant over one move, by cases on the move. -/
theorem Consumed.step {before : List Token} {state next : State} {token : Token}
    (consumed : Consumed before state) (moves : Moves state token next) :
    Consumed (before ++ [token]) next := by
  cases moves with
  | enter starts =>
      cases consumed
      exact .opening .nil starts
  | opens sort =>
      cases consumed with
      | opening outside starts => simpa using Consumed.tag outside starts sort
  | tag sort known =>
      cases consumed with
      | tag outside starts opens =>
          have opened := @Opened.form _ _ token _ ⟨_, token.offset, []⟩ starts opens sort known .nil
          simpa using Consumed.separator outside opened
  | descend starts =>
      cases consumed with
      | child outside => exact .opening outside starts
  | atom denotes =>
      cases consumed with
      | child outside =>
          cases outside with
          | cons outside opened separates =>
              have pushed := opened.push separates (.token denotes)
              simpa using Consumed.separator outside pushed
  | comma sort =>
      cases consumed with
      | separator outside opened => exact .child (.cons outside opened sort)
  | close sort fits =>
      cases consumed with
      | separator outside opened =>
          cases opened with
          | form starts opens tagged known children =>
              have derived := DerivesNode.form starts opens tagged known children sort fits
              simpa using Consumed.deliver outside derived

/-- The invariant over a run, by induction on the tokens. -/
theorem Consumed.run {before tokens : List Token} {state next : State}
    (consumed : Consumed before state) (ran : state.run tokens = .ok next) :
    Consumed (before ++ tokens) next := by
  induction tokens generalizing before state with
  | nil =>
      cases ran
      simpa using consumed
  | cons token rest ih =>
      rcases Except.bind_eq_ok_iff.mp ran with ⟨middle, stepped, later⟩
      have taken := consumed.step (.of_step stepped)
      simpa using ih taken later

/-- A list of tokens is read as a node exactly if the grammar derives the node from it. -/
theorem readTokens_eq_ok_iff {tokens : List Token} {node : Node} :
    readTokens tokens = .ok node ↔ DerivesNode tokens node := by
  rw [readTokens_eq_ok_iff_run]
  constructor
  · intro ran
    cases Consumed.head.run ran with
    | done derived => simpa using derived
  · intro derived
    have ran := run_of_derivesNode derived .enter []
    simpa [State.deliver, State.run] using ran

/-- A text is read as a node exactly if it can be cut into tokens and the grammar derives the node
from all of them, and no tokens derive two nodes. -/
theorem read_eq_ok_iff_derives :
    (∀ (source : String) (node : Node),
      read source = .ok node ↔ ∃ tokens, lex source = .ok tokens ∧ DerivesNode tokens node) ∧
    (∀ (tokens : List Token) (first second : Node),
      DerivesNode tokens first → DerivesNode tokens second → first = second) := by
  constructor
  · intro source node
    unfold read
    rw [Except.bind_eq_ok_iff]
    simp only [readTokens_eq_ok_iff]
  · intro tokens first second derivedFirst derivedSecond
    have readFirst := readTokens_eq_ok_iff.mpr derivedFirst
    rw [readTokens_eq_ok_iff.mpr derivedSecond] at readFirst
    exact (Except.ok.inj readFirst).symm

/-- A constant without a scope is all that its tokens derive. -/
theorem derives_unscoped_const :
    ∃ tokens, DerivesNode tokens (.const none "A") ∧
      ∀ other, DerivesNode tokens other → .const none "A" = other := by
  let token (kind : TokenKind) (text : String) : Token := ⟨kind, text, 0⟩
  have scope : DerivesAtom [token .identifier "nil"] .nil := .token (.nil rfl rfl)
  have label : DerivesAtom [token .symbol ":A"] (.symbol "A") := by
    have named : (token .symbol ":A").symbolName = "A" := by decide
    rw [← named]
    exact .token (.symbol rfl)
  have comma : (token .comma ",").kind = .comma := rfl
  have children : DerivesChildren _ [.nil, .symbol "A"] :=
    .cons comma scope (.cons comma label .nil)
  have tagged : Kind.ofTag? (token .symbol ":const").symbolName = some .const := by decide
  have derived := @DerivesNode.form (token .identifier "s") (token .leftParenthesis "(")
    (token .symbol ":const") (token .rightParenthesis ")") _ .const _ _ rfl rfl rfl tagged
    children rfl (.const none "A")
  exact ⟨_, derived, fun other => read_eq_ok_iff_derives.2 _ _ other derived⟩

end StringForms.Sexp
