/-
Module: StringForms.Proofs.Sexp.Moves
Purpose: What the reading machine does on one token as a relation, and its runs over token lists.
Main exports: Moves, Moves.step_eq, Moves.of_step, State.run_cons_of_moves, State.run_append,
  finish_eq_ok_iff
-/
import StringForms.Proofs.Sexp.Grammar

namespace StringForms.Sexp

/-!
Everything that the machine can do on one token is one of seven moves. Later proofs take a step apart
by cases on the move and never look at the step function again.
-/

/-- `Moves state token next` says that the machine takes the token in the state and is in the next
state then. -/
inductive Moves : State → Token → State → Prop where
  | enter {token : Token} (starts : token.startsNode = true) : Moves .head token (.opening [])
  | opens {token : Token} {below : List Frame} (sort : token.kind = .leftParenthesis) :
      Moves (.opening below) token (.tag below)
  | tag {token : Token} {below : List Frame} {kind : Kind} (sort : token.kind = .symbol)
      (known : Kind.ofTag? token.symbolName = some kind) :
      Moves (.tag below) token
        (.separator { kind := kind, offset := token.offset, children := [] } below)
  | descend {token : Token} {top : Frame} {below : List Frame}
      (starts : token.startsNode = true) :
      Moves (.child top below) token (.opening (top :: below))
  | atom {token : Token} {top : Frame} {below : List Frame} {atom : Atom}
      (denotes : Denotes token atom) :
      Moves (.child top below) token (.separator (top.push atom) below)
  | comma {token : Token} {top : Frame} {below : List Frame} (sort : token.kind = .comma) :
      Moves (.separator top below) token (.child top below)
  | close {token : Token} {top : Frame} {below : List Frame} {node : Node}
      (sort : token.kind = .rightParenthesis) (fits : Fits top.kind top.children.reverse node) :
      Moves (.separator top below) token (.deliver node below)

/-- A demand for a kind gives back the token that meets it. -/
theorem require_eq_ok_iff {token accepted : Token} {kind : TokenKind} {expected : Expectation} :
    token.require kind expected = .ok accepted ↔ token.kind = kind ∧ accepted = token := by
  unfold Token.require
  split <;> simp_all [eq_comm]

/-- A node is finished exactly if its children fit its kind. -/
theorem close_eq_ok_iff {frame : Frame} {node : Node} :
    frame.close = .ok node ↔ Fits frame.kind frame.children.reverse node := by
  unfold Frame.close Node.build
  constructor
  · intro closed
    split at closed
    · rename_i made
      cases closed
      exact fits_of_ofAtoms made
    · cases closed
  · intro fits
    rw [ofAtoms_of_fits fits]

/-- The machine makes every move. -/
theorem Moves.step_eq {state next : State} {token : Token} (moves : Moves state token next) :
    state.step token = .ok next := by
  cases moves with
  | enter starts => simp only [State.step, starts, if_true]
  | opens sort =>
      simp only [State.step]
      rw [require_eq_ok_iff.mpr ⟨sort, rfl⟩]
      rfl
  | tag sort known =>
      simp only [State.step]
      rw [require_eq_ok_iff.mpr ⟨sort, rfl⟩, Except.ok_bind, known]
      rfl
  | descend starts => simp only [State.step, starts, if_true]
  | atom denotes =>
      simp only [State.step, startsNode_eq_false_of_denotes denotes]
      rw [ofToken_eq_ok_iff.mpr denotes]
      rfl
  | comma sort => simp only [State.step, sort, if_true]
  | close sort fits =>
      have notComma : ¬ TokenKind.rightParenthesis = .comma := by decide
      simp only [State.step, sort, if_neg notComma]
      rw [require_eq_ok_iff.mpr ⟨sort, rfl⟩, Except.ok_bind, close_eq_ok_iff.mpr fits]
      rfl

/-- The machine makes no other step than a move. -/
theorem Moves.of_step {state next : State} {token : Token} (stepped : state.step token = .ok next) :
    Moves state token next := by
  cases state with
  | head =>
      simp only [State.step] at stepped
      split at stepped <;> cases stepped
      exact .enter (by assumption)
  | opening below =>
      rcases Except.bind_eq_ok_iff.mp stepped with ⟨_, required, continued⟩
      cases continued
      exact .opens (require_eq_ok_iff.mp required).1
  | tag below =>
      rcases Except.bind_eq_ok_iff.mp stepped with ⟨accepted, required, continued⟩
      rcases require_eq_ok_iff.mp required with ⟨sort, rfl⟩
      split at continued
      · rename_i known
        cases continued
        exact .tag sort known
      · cases continued
  | child top below =>
      simp only [State.step] at stepped
      split at stepped
      · rename_i starts
        cases stepped
        exact .descend starts
      · rcases Except.bind_eq_ok_iff.mp stepped with ⟨atom, made, continued⟩
        cases continued
        exact .atom (ofToken_eq_ok_iff.mp made)
  | separator top below =>
      simp only [State.step] at stepped
      split at stepped
      · rename_i sort
        cases stepped
        exact .comma sort
      · rcases Except.bind_eq_ok_iff.mp stepped with ⟨_, required, continued⟩
        rcases Except.bind_eq_ok_iff.mp continued with ⟨node, closed, delivered⟩
        cases delivered
        exact .close (require_eq_ok_iff.mp required).1 (close_eq_ok_iff.mp closed)
  | done node => cases stepped

/-! ### Runs -/

theorem State.run_cons_of_moves {state next : State} {token : Token}
    (moves : Moves state token next) (rest : List Token) :
    state.run (token :: rest) = next.run rest := by
  rw [State.run, moves.step_eq, Except.ok_bind]

/-- A run over a row is a run over its first part, and then over the rest from where that has led.
-/
theorem State.run_append (state : State) (first second : List Token) :
    state.run (first ++ second) = state.run first >>= fun next => next.run second := by
  induction first generalizing state with
  | nil => rfl
  | cons token rest ih =>
      simp only [List.cons_append, State.run]
      cases state.step token with
      | error problem => rfl
      | ok next => exact ih next

/-- Only a machine that is done has read a node. -/
theorem finish_eq_ok_iff {state : State} {node : Node} :
    state.finish = .ok node ↔ state = .done node := by
  cases state <;> simp [State.finish]

/-- Tokens are read as a node exactly if they take the machine to where it has that node. -/
theorem readTokens_eq_ok_iff_run {tokens : List Token} {node : Node} :
    readTokens tokens = .ok node ↔ State.head.run tokens = .ok (.done node) := by
  unfold readTokens
  rw [Except.bind_eq_ok_iff]
  constructor
  · rintro ⟨state, ran, finished⟩
    rw [ran, finish_eq_ok_iff.mp finished]
  · intro ran
    exact ⟨_, ran, rfl⟩

end StringForms.Sexp
