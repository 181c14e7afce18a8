/-
Module: StringForms.Proofs.Sexp.Descent
Purpose: Reading by descent, with a cursor and a call for each node, gives the same nodes and the same
  errors as the machine that keeps the unfinished nodes on a stack.
Main exports: State.answer, Cursor.nodeWithin_suffix, Cursor.childrenWithin_suffix,
  Cursor.FollowsNode, Cursor.FollowsChildren, Cursor.read_eq_readTokens, read_eq_descent
-/
import StringForms.Proofs.Sexp.Reading
import StringForms.Sexp.Cursor

namespace StringForms.Sexp

/-!
The stack of the machine is what the calls of the descent still have to do. So the machine, started
where a call begins and with any stack, answers as the call does, followed by the machine with what the
call has read put on that stack. Of the tokens that are left the descent has to know one thing only:
they never become more, so the limit that it counts down is never met.
-/

/-- What the machine answers to some tokens. -/
def State.answer (state : State) (tokens : List Token) : Except ReadError Node :=
  state.run tokens >>= State.finish

namespace State

/-- A refused token is the answer, whatever comes behind it. -/
theorem answer_cons (state : State) (token : Token) (rest : List Token) :
    state.answer (token :: rest) = state.step token >>= fun next => next.answer rest := by
  simp only [answer, run, bind_assoc]

end State

namespace Cursor

/-! ### The cursor only goes forward -/

/-- A cursor asks the next token to be of a kind, and takes it then. -/
theorem require_cons (token : Token) (rest : List Token) (kind : TokenKind)
    (expected : Expectation) :
    Cursor.require { remaining := token :: rest } kind expected =
      (fun accepted => (accepted, { remaining := rest })) <$> token.require kind expected := by
  simp only [require, expect]
  cases token.require kind expected <;> rfl

theorem require_suffix {cursor next : Cursor} {kind : TokenKind} {expected : Expectation}
    {token : Token} (taken : cursor.require kind expected = .ok (token, next)) :
    next.remaining <:+ cursor.remaining := by
  obtain ⟨remaining⟩ := cursor
  cases remaining with
  | nil => cases taken
  | cons first rest =>
      rw [require_cons] at taken
      obtain ⟨_, _, made⟩ := Except.map_eq_ok_iff.mp taken
      cases made
      exact List.suffix_cons first rest

theorem eat_suffix (cursor : Cursor) (kind : TokenKind) :
    (cursor.eat kind).2.remaining <:+ cursor.remaining := by
  unfold eat
  split
  · exact List.tail_suffix _
  · exact List.suffix_rfl

/-- What a reader of children leaves over was there before, if that is so for its reader of nodes. -/
theorem child_suffix {node : Cursor → Except ReadError (Node × Cursor)}
    (forward : ∀ {cursor next : Cursor} {read : Node},
      node cursor = .ok (read, next) → next.remaining <:+ cursor.remaining)
    {cursor next : Cursor} {atom : Atom} (read : cursor.child node = .ok (atom, next)) :
    next.remaining <:+ cursor.remaining := by
  unfold child at read
  split at read
  · cases read
  · split at read
    · obtain ⟨⟨inner, behind⟩, readNode, made⟩ := Except.map_eq_ok_iff.mp read
      cases made
      exact forward readNode
    · obtain ⟨_, _, made⟩ := Except.map_eq_ok_iff.mp read
      cases made
      exact List.tail_suffix _

mutual

/-- Behind a node there are only tokens that were there before it. -/
theorem nodeWithin_suffix :
    ∀ (limit : Nat) {cursor next : Cursor} {node : Node},
      nodeWithin limit cursor = .ok (node, next) → next.remaining <:+ cursor.remaining
  | limit + 1, cursor, next, node, read => by
      rw [nodeWithin] at read
      -- Step by step, what is left ends what was left before.
      obtain ⟨⟨head, afterHead⟩, tookHead, read⟩ := Except.bind_eq_ok_iff.mp read
      dsimp only at read
      split at read
      · obtain ⟨⟨_, afterOpening⟩, tookOpening, read⟩ := Except.bind_eq_ok_iff.mp read
        obtain ⟨⟨tag, afterTag⟩, tookTag, read⟩ := Except.bind_eq_ok_iff.mp read
        dsimp only at read
        split at read
        · obtain ⟨⟨atoms, afterAtoms⟩, tookAtoms, read⟩ := Except.bind_eq_ok_iff.mp read
          obtain ⟨⟨_, afterClosing⟩, tookClosing, read⟩ := Except.bind_eq_ok_iff.mp read
          obtain ⟨built, _, finished⟩ := Except.bind_eq_ok_iff.mp read
          cases finished
          exact (require_suffix tookClosing).trans <| (childrenWithin_suffix limit tookAtoms).trans <|
            (require_suffix tookTag).trans <| (require_suffix tookOpening).trans
              (require_suffix tookHead)
        · cases read
      · cases read

/-- Behind some children there are only tokens that were there before them. -/
theorem childrenWithin_suffix :
    ∀ (limit : Nat) {cursor next : Cursor} {atoms : List Atom},
      childrenWithin limit cursor = .ok (atoms, next) → next.remaining <:+ cursor.remaining
  | 0, cursor, next, atoms, read => by
      cases read
      exact List.suffix_rfl
  | limit + 1, cursor, next, atoms, read => by
      have ate := eat_suffix cursor .comma
      rw [childrenWithin] at read
      split at read
      · rename_i eaten
        cases read
        rwa [eaten] at ate
      · rename_i eaten
        obtain ⟨⟨first, afterFirst⟩, tookFirst, read⟩ := Except.bind_eq_ok_iff.mp read
        obtain ⟨⟨later, afterLater⟩, tookLater, finished⟩ := Except.bind_eq_ok_iff.mp read
        cases finished
        rw [eaten] at ate
        exact (childrenWithin_suffix limit tookLater).trans <|
          (child_suffix (nodeWithin_suffix limit) tookFirst).trans ate

end

/-! ### Asking for a token -/

/-- A cursor that is at a kind has a token of that kind before it. -/
theorem exists_of_isAt {cursor : Cursor} {kind : TokenKind} (there : cursor.isAt kind = true) :
    ∃ token rest, cursor.remaining = token :: rest ∧ token.kind = kind := by
  obtain ⟨remaining⟩ := cursor
  cases remaining with
  | nil => cases there
  | cons token rest => exact ⟨token, rest, rfl, by simpa [isAt, current?] using there⟩

/-- A state that takes the next token only if it is of one kind answers as a cursor does that asks for
that kind. -/
theorem answer_of_require {state : State} {cursor : Cursor} {kind : TokenKind}
    {expected : Expectation} (next : Token → Except ReadError State)
    (ends : state.finish = .error (.unexpectedEnd expected))
    (asks : ∀ {token : Token}, cursor.current? = some token →
      state.step token = token.require kind expected >>= next) :
    state.answer cursor.remaining =
      cursor.require kind expected >>= fun taken =>
        next taken.1 >>= fun state => state.answer taken.2.remaining := by
  obtain ⟨remaining⟩ := cursor
  cases remaining with
  | nil => exact ends
  | cons token rest =>
      rw [State.answer_cons, asks rfl, bind_assoc, require_cons, bind_map_left]

/-- Behind the `s` of a node comes its parenthesis. -/
theorem answer_opening (below : List Frame) (cursor : Cursor) :
    (State.opening below).answer cursor.remaining =
      cursor.require .leftParenthesis .openParenthesis >>= fun taken =>
        (State.tag below).answer taken.2.remaining :=
  answer_of_require (fun _ => .ok (.tag below)) rfl fun _ => rfl

/-- Behind the parenthesis comes the tag. A symbol that is the tag of no kind is a different error than
a token that is no symbol. -/
theorem answer_tag (below : List Frame) (cursor : Cursor) :
    (State.tag below).answer cursor.remaining =
      cursor.require .symbol .nodeKind >>= fun taken =>
        match Kind.ofTag? taken.1.symbolName with
        | some kind => (State.separator ⟨kind, taken.1.offset, []⟩ below).answer taken.2.remaining
        | none => .error (.unknownKind taken.1.symbolName taken.1.offset) := by
  let next (tag : Token) : Except ReadError State :=
    match Kind.ofTag? tag.symbolName with
    | some kind => .ok (.separator ⟨kind, tag.offset, []⟩ below)
    | none => .error (.unknownKind tag.symbolName tag.offset)
  rw [answer_of_require next rfl fun _ => rfl]
  refine bind_congr fun taken => ?_
  simp only [next]
  cases Kind.ofTag? taken.1.symbolName <;> rfl

/-- Where no comma follows, an unfinished node has to be closed. -/
theorem answer_separator {cursor : Cursor} (last : cursor.isAt .comma = false) (top : Frame)
    (below : List Frame) :
    (State.separator top below).answer cursor.remaining =
      cursor.require .rightParenthesis .separator >>= fun taken =>
        top.close >>= fun node => (State.deliver node below).answer taken.2.remaining := by
  let next (_ : Token) : Except ReadError State := do
    let node ← top.close
    pure (.deliver node below)
  have asks : ∀ {token : Token}, cursor.current? = some token →
      (State.separator top below).step token =
        token.require .rightParenthesis .separator >>= next := by
    intro token follows
    have other : token.kind ≠ .comma := by simpa [isAt, follows] using last
    rw [State.step, if_neg other]
  rw [answer_of_require next rfl asks]
  simp only [next, bind_assoc, pure_bind]

/-! ### The machine follows the descent -/

/-- After the head of a node the machine answers as the call for that node does, and goes on behind the
node that the call has read. -/
def FollowsNode (limit : Nat) : Prop :=
  ∀ (head : Token) (rest : List Token) (below : List Frame), head.startsNode = true →
    rest.length < limit →
    (State.opening below).answer rest =
      nodeWithin limit { remaining := head :: rest } >>= fun read =>
        (State.deliver read.1 below).answer read.2.remaining

/-- Behind a child the machine answers as the call for the children that are left does, and closes the
node that they belong to. -/
def FollowsChildren (limit : Nat) : Prop :=
  ∀ (cursor : Cursor) (top : Frame) (below : List Frame), cursor.remaining.length ≤ limit →
    (State.separator top below).answer cursor.remaining =
      childrenWithin limit cursor >>= fun read =>
        read.2.require .rightParenthesis .separator >>= fun taken =>
          (top.extend read.1).close >>= fun node =>
            (State.deliver node below).answer taken.2.remaining

/-- Where a child may start, the machine takes one as the descent does. It goes on with the node that
the child is in, whether the child is a node itself or a single token. -/
theorem answer_child {limit : Nat} (node : FollowsNode limit) {tokens : List Token} (top : Frame)
    (below : List Frame) (short : tokens.length ≤ limit) :
    (State.child top below).answer tokens =
      Cursor.child (nodeWithin limit) { remaining := tokens } >>= fun read =>
        (State.separator (top.push read.1) below).answer read.2.remaining := by
  cases tokens with
  | nil => rfl
  | cons token rest =>
      rw [State.answer_cons, State.step, child]
      dsimp only [current?, List.head?_cons]
      split
      · rename_i starts
        rw [bind_map_left, Except.ok_bind]
        exact node token rest (top :: below) starts short
      · rw [bind_map_left, bind_assoc]
        rfl

/-- A call for a node asks for three tokens in the order in which the machine wants them, and the
children follow. Taking the tokens leaves fewer, so the call for the children has a limit that is high
enough. -/
theorem FollowsNode.succ {limit : Nat} (children : FollowsChildren limit) :
    FollowsNode (limit + 1) := by
  intro head rest below starts short
  obtain ⟨sort, text⟩ : head.kind = .identifier ∧ head.text = "s" := by
    simpa [Token.startsNode] using starts
  rw [nodeWithin, require_cons, require_eq_ok_iff.mpr ⟨sort, rfl⟩]
  simp only [Except.map_ok, Except.ok_bind, text, if_true, bind_assoc]
  refine (answer_opening below { remaining := rest }).trans ?_
  apply Except.bind_congr_of_ok
  rintro ⟨_, afterOpening⟩ tookOpening
  refine (answer_tag below afterOpening).trans ?_
  apply Except.bind_congr_of_ok
  rintro ⟨tag, afterTag⟩ tookTag
  dsimp only
  cases Kind.ofTag? tag.symbolName with
  | none => rfl
  | some kind =>
      have left : afterTag.remaining <:+ rest :=
        (require_suffix tookTag).trans (require_suffix tookOpening)
      have fewer : afterTag.remaining.length ≤ limit :=
        left.length_le.trans (Nat.le_of_lt_succ short)
      refine (children afterTag ⟨kind, tag.offset, []⟩ below fewer).trans ?_
      have closes (atoms : List Atom) :
          (Frame.extend ⟨kind, tag.offset, []⟩ atoms).close = Node.build kind tag.offset atoms := by
        simp [Frame.extend, Frame.close]
      simp only [bind_assoc, pure_bind, closes]

/-- A call for children takes a comma and a child, and is where it was before, with the child added. -/
theorem FollowsChildren.succ {limit : Nat} (node : FollowsNode limit)
    (children : FollowsChildren limit) : FollowsChildren (limit + 1) := by
  intro cursor top below short
  -- Without a comma the node is closed, which is what the machine does on every other token.
  rw [childrenWithin, eat]
  cases comma : cursor.isAt .comma with
  | false =>
      refine (answer_separator comma top below).trans ?_
      simp
  | true =>
      obtain ⟨token, rest, tokens, sort⟩ := exists_of_isAt comma
      have fewer : rest.length ≤ limit := by simpa [tokens] using short
      rw [tokens, State.answer_cons, (Moves.comma sort).step_eq, Except.ok_bind,
        answer_child node top below fewer]
      simp only [if_true, List.tail_cons, bind_assoc, pure_bind]
      apply Except.bind_congr_of_ok
      rintro ⟨first, behind⟩ readFirst
      have left : behind.remaining <:+ rest := child_suffix (nodeWithin_suffix limit) readFirst
      refine (children behind (top.push first) below (left.length_le.trans fewer)).trans ?_
      simp only [Frame.extend_push]

/-- What is not the head of a node is refused where a node should start. -/
theorem nodeWithin_of_not_startsNode {head : Token} (other : ¬ head.startsNode = true)
    (rest : List Token) (limit : Nat) :
    nodeWithin (limit + 1) { remaining := head :: rest } =
      .error (head.unexpected .nodeStart) := by
  rw [nodeWithin, require_cons, Token.require]
  split
  · rename_i sort
    have text : head.text ≠ "s" := by simpa [Token.startsNode, sort] using other
    simp only [Except.map_ok, Except.ok_bind, if_neg text]
    rfl
  · rfl

/-- The two calls are followed together, since each makes the other with a lower limit. -/
theorem followsNode_and_followsChildren (limit : Nat) :
    FollowsNode limit ∧ FollowsChildren limit := by
  induction limit with
  | zero =>
      constructor
      · intro head rest below starts short
        exact absurd short (Nat.not_lt_zero _)
      · intro cursor top below short
        have ended : cursor.remaining = [] := List.length_eq_zero_iff.mp (Nat.le_zero.mp short)
        have last : cursor.isAt .comma = false := by simp [isAt, current?, ended]
        refine (answer_separator last top below).trans ?_
        rw [childrenWithin, Except.ok_bind, Frame.extend_nil]
  | succ limit ih => exact ⟨.succ ih.2, .succ ih.1 ih.2⟩

/-- Reading with a cursor gives what the machine gives, node or error. -/
theorem read_eq_readTokens (cursor : Cursor) : cursor.read = readTokens cursor.remaining := by
  obtain ⟨tokens⟩ := cursor
  change _ = State.head.answer tokens
  cases tokens with
  | nil => rfl
  | cons head rest =>
      rw [State.answer_cons, State.step, read, List.length_cons]
      split
      · rename_i starts
        have node := (followsNode_and_followsChildren (rest.length + 1)).1
        rw [Except.ok_bind, node head rest [] starts (Nat.lt_succ_self _)]
        apply bind_congr
        rintro ⟨whole, _ | ⟨extra, more⟩⟩ <;> rfl
      · rename_i other
        rw [nodeWithin_of_not_startsNode other]
        rfl

end Cursor

/-- A text is read by cutting it into tokens and descending through them. -/
theorem read_eq_descent (source : String) :
    read source = lex source >>= fun tokens => Cursor.read { remaining := tokens } := by
  simp only [read, Cursor.read_eq_readTokens]

end StringForms.Sexp
