/-
Module: StringForms.Sexp.Reader
Purpose: Reading tokens into a node with a machine that keeps the unfinished nodes on a stack.
Main exports: Frame, State, State.step, State.run, State.finish, readTokens, read
-/
import StringForms.Sexp.Atom
import StringForms.Sexp.Lexeme

namespace StringForms.Sexp

/-!
A node is written `s(:kind, child, …)`. The machine takes one token at a time. Its state says what
may come next and holds the unfinished nodes, the innermost first. A node is checked against its
kind when its closing parenthesis comes, so errors come in the order of the tokens that cause them.
-/

/-- An unfinished node: its kind, where its tag stands, and the children read so far, the latest
first. -/
structure Frame where
  kind : Kind
  offset : Nat
  children : List Atom
deriving Repr, Inhabited

namespace Frame

/-- Adds a child. -/
def push (frame : Frame) (child : Atom) : Frame :=
  { frame with children := child :: frame.children }

/-- The finished node. -/
def close (frame : Frame) : Except ReadError Node :=
  Node.build frame.kind frame.offset frame.children.reverse

end Frame

/-- What may come next: the start of the outermost node, the parenthesis after an `s`, a tag, a
child of the innermost node, a comma or parenthesis after a child, or nothing. -/
inductive State where
  | head
  | opening (below : List Frame)
  | tag (below : List Frame)
  | child (top : Frame) (below : List Frame)
  | separator (top : Frame) (below : List Frame)
  | done (node : Node)
deriving Repr, Inhabited

namespace State

/-- Hands a finished node to the node that it is a child of. -/
def deliver (node : Node) : List Frame → State
  | [] => .done node
  | top :: below => .separator (top.push (.node node)) below

/-- Takes one token. -/
def step (state : State) (token : Token) : Except ReadError State :=
  match state with
  | .head =>
      if token.startsNode then .ok (.opening []) else .error (token.unexpected .nodeStart)
  | .opening below => do
      let _ ← token.require .leftParenthesis .openParenthesis
      pure (.tag below)
  | .tag below => do
      let token ← token.require .symbol .nodeKind
      match Kind.ofTag? token.symbolName with
      | some kind => pure (.separator { kind := kind, offset := token.offset, children := [] } below)
      | none => throw (.unknownKind token.symbolName token.offset)
  | .child top below =>
      if token.startsNode then .ok (.opening (top :: below))
      else do
        let atom ← Atom.ofToken token
        pure (.separator (top.push atom) below)
  | .separator top below =>
      if token.kind = .comma then .ok (.child top below)
      else do
        let _ ← token.require .rightParenthesis .separator
        let node ← top.close
        pure (deliver node below)
  | .done _ => .error (.trailingInput token.offset)

/-- Takes tokens until one is refused. -/
def run (state : State) : List Token → Except ReadError State
  | [] => .ok state
  | token :: rest => do
      let next ← state.step token
      next.run rest

/-- The node that has been read, or what is still missing. -/
def finish : State → Except ReadError Node
  | .head => .error (.unexpectedEnd .nodeStart)
  | .opening _ => .error (.unexpectedEnd .openParenthesis)
  | .tag _ => .error (.unexpectedEnd .nodeKind)
  | .child _ _ => .error (.unexpectedEnd .atom)
  | .separator _ _ => .error (.unexpectedEnd .separator)
  | .done node => .ok node

end State

/-- Reads tokens that are, all together, one node. -/
def readTokens (tokens : List Token) : Except ReadError Node := do
  let state ← State.head.run tokens
  state.finish

/-- Reads a text that is one node. The whole text is cut into tokens first. -/
def read (source : String) : Except ReadError Node := do
  let tokens ← lex source
  readTokens tokens

end StringForms.Sexp
