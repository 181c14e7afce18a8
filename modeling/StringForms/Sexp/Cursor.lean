/-
Module: StringForms.Sexp.Cursor
Purpose: Stepping through tokens by hand: looking at the next one, taking it, asking for a kind; and
  reading a node in this way, by descent.
Main exports: Cursor, Cursor.current?, Cursor.bump, Cursor.isAt, Cursor.eat, Cursor.expect,
  Cursor.child, Cursor.nodeWithin, Cursor.childrenWithin, Cursor.read
-/
import StringForms.Sexp.Atom

namespace StringForms.Sexp

/-- A place in a list of tokens: the tokens from there on. -/
structure Cursor where
  remaining : List Token
deriving Repr, Inhabited, DecidableEq

namespace Cursor

/-- The next token, which stays in place. -/
def current? (cursor : Cursor) : Option Token :=
  cursor.remaining.head?

/-- Takes the next token, whatever it is. -/
def bump (cursor : Cursor) : Option Token × Cursor :=
  (cursor.current?, { remaining := cursor.remaining.tail })

/-- Whether the next token is of a given kind. -/
def isAt (cursor : Cursor) (kind : TokenKind) : Bool :=
  cursor.current?.any fun token => token.kind == kind

/-- Takes the next token if it is of a given kind, and says whether it was. -/
def eat (cursor : Cursor) (kind : TokenKind) : Bool × Cursor :=
  if cursor.isAt kind then (true, { remaining := cursor.remaining.tail }) else (false, cursor)

/-- Takes a token of a given kind; on any other, and at the end, the cursor stays. -/
def expect (cursor : Cursor) (kind : TokenKind) (expected : Expectation) :
    Except ReadError Token × Cursor :=
  match cursor.remaining with
  | [] => (.error (.unexpectedEnd expected), cursor)
  | token :: rest =>
      match token.require kind expected with
      | .ok token => (.ok token, { remaining := rest })
      | .error problem => (.error problem, cursor)

/-! ### Descent -/

/-!
A node is read with one call for each of the nodes inside it. The descent goes no deeper than there
are tokens, and a limit on their number that is met leaves nothing to read.
-/

/-- Takes a token of a given kind where a refusal is the end of reading. -/
def require (cursor : Cursor) (kind : TokenKind) (expected : Expectation) :
    Except ReadError (Token × Cursor) :=
  match cursor.expect kind expected with
  | (.ok token, next) => .ok (token, next)
  | (.error problem, _) => .error problem

/-- The child at a cursor, and the cursor behind it. Nodes are left to a reader of nodes. -/
def child (node : Cursor → Except ReadError (Node × Cursor)) (cursor : Cursor) :
    Except ReadError (Atom × Cursor) :=
  match cursor.current? with
  | none => .error (.unexpectedEnd .atom)
  | some token =>
      if token.startsNode then (fun read => (.node read.1, read.2)) <$> node cursor
      else (fun atom => (atom, cursor.bump.2)) <$> Atom.ofToken token

mutual

/-- The node at a cursor that has at most `limit` tokens, and the cursor behind it. -/
def nodeWithin (limit : Nat) (cursor : Cursor) : Except ReadError (Node × Cursor) :=
  match limit with
  | 0 => .error (.unexpectedEnd .nodeStart)
  | limit + 1 => do
      let (head, cursor) ← cursor.require .identifier .nodeStart
      if head.text = "s" then
        let (_, cursor) ← cursor.require .leftParenthesis .openParenthesis
        let (tag, cursor) ← cursor.require .symbol .nodeKind
        match Kind.ofTag? tag.symbolName with
        | some kind =>
            let (atoms, cursor) ← childrenWithin limit cursor
            let (_, cursor) ← cursor.require .rightParenthesis .separator
            let node ← Node.build kind tag.offset atoms
            pure (node, cursor)
        | none => throw (.unknownKind tag.symbolName tag.offset)
      else throw (head.unexpected .nodeStart)

/-- The children at a cursor that has at most `limit` tokens, each behind a comma, and the cursor
behind the last of them. -/
def childrenWithin (limit : Nat) (cursor : Cursor) : Except ReadError (List Atom × Cursor) :=
  match limit with
  | 0 => .ok ([], cursor)
  | limit + 1 =>
      match cursor.eat .comma with
      | (false, cursor) => .ok ([], cursor)
      | (true, cursor) => do
          let (first, cursor) ← cursor.child (nodeWithin limit)
          let (later, cursor) ← childrenWithin limit cursor
          pure (first :: later, cursor)

end

/-- Reads all tokens from here on as one node. -/
def read (cursor : Cursor) : Except ReadError Node := do
  let (node, cursor) ← cursor.nodeWithin cursor.remaining.length
  match cursor.current? with
  | some token => throw (.trailingInput token.offset)
  | none => pure node

end Cursor

end StringForms.Sexp
