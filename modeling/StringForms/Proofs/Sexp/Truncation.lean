/-
Module: StringForms.Proofs.Sexp.Truncation
Purpose: A written node has no other written node as a beginning: what is cut off early is reported as
  unfinished, and what goes on behind it as trailing.
Main exports: Token.missingBehind, missingAfter, Moves.finish_eq, finish_of_run, readTokens_of_cut,
  readTokens_of_extended, read_of_cut_and_extended
-/
import StringForms.Proofs.Sexp.Descent

namespace StringForms.Sexp

/-!
The machine takes its tokens one by one and never looks ahead, so it takes each beginning of a row that
it takes. It is not done there, since a machine that is done takes nothing more. What it misses depends
on no stack: the last token that it took tells it.
-/

/-- What has to come behind a token that does not end the outermost node. -/
def Token.missingBehind (token : Token) : Expectation :=
  if token.startsNode then .openParenthesis
  else
    match token.kind with
    | .leftParenthesis => .nodeKind
    | .comma => .atom
    | _ => .separator

/-- What is missing behind the beginning of a written node. -/
def missingAfter (tokens : List Token) : Expectation :=
  (tokens.getLast?.map Token.missingBehind).getD .nodeStart

theorem Token.missingBehind_of_kind {token : Token} :
    token.kind ≠ .identifier →
      token.missingBehind =
        match token.kind with
        | .leftParenthesis => .nodeKind
        | .comma => .atom
        | _ => .separator := by
  intro other
  have starts : token.startsNode = false := by simp [Token.startsNode, other]
  rw [Token.missingBehind, starts]
  rfl

theorem Token.missingBehind_of_startsNode {token : Token} (starts : token.startsNode = true) :
    token.missingBehind = .openParenthesis := by
  rw [Token.missingBehind, if_pos starts]

/-- After a move the machine is done, or it misses what its token asks for. -/
theorem Moves.finish_eq {state next : State} {token : Token} (moves : Moves state token next)
    (unfinished : ∀ node, next ≠ .done node) :
    next.finish = .error (.unexpectedEnd token.missingBehind) := by
  cases moves with
  | enter starts => rw [Token.missingBehind_of_startsNode starts, State.finish]
  | opens sort => simp [Token.missingBehind_of_kind, sort, State.finish]
  | tag sort => simp [Token.missingBehind_of_kind, sort, State.finish]
  | descend starts => rw [Token.missingBehind_of_startsNode starts, State.finish]
  | atom denotes =>
      have waits : token.missingBehind = .separator := by
        rw [Token.missingBehind, startsNode_eq_false_of_denotes denotes]
        cases denotes <;> simp [*]
      rw [waits, State.finish]
  | comma sort => simp [Token.missingBehind_of_kind, sort, State.finish]
  | @close _ _ below node sort fits =>
      cases below with
      | nil => exact absurd rfl (unfinished node)
      | cons top below => simp [Token.missingBehind_of_kind, sort, State.deliver, State.finish]

/-- A machine that has taken some tokens and is not done misses what the last of them asks for. -/
theorem finish_of_run {tokens : List Token} {state : State}
    (ran : State.head.run tokens = .ok state) (unfinished : ∀ node, state ≠ .done node) :
    state.finish = .error (.unexpectedEnd (missingAfter tokens)) := by
  rcases List.eq_nil_or_concat tokens with rfl | ⟨earlier, last, rfl⟩
  · cases ran
    rfl
  · rw [List.concat_eq_append, State.run_append] at ran
    obtain ⟨before, _, ranLast⟩ := Except.bind_eq_ok_iff.mp ran
    obtain ⟨next, stepped, finished⟩ := Except.bind_eq_ok_iff.mp ranLast
    cases finished
    have asked : missingAfter (earlier.concat last) = last.missingBehind := by
      simp [missingAfter]
    rw [asked]
    exact (Moves.of_step stepped).finish_eq unfinished

/-- A machine that is done takes nothing more. -/
theorem Moves.ne_done {state next : State} {token : Token} (moves : Moves state token next)
    (node : Node) : state ≠ .done node := by
  cases moves <;> exact State.noConfusion

/-- What is read as a node is not read any more when it is cut off early. -/
theorem readTokens_of_cut {tokens front : List Token} {node : Node}
    (reads : readTokens tokens = .ok node) (begins : front <+: tokens) (cut : front ≠ tokens) :
    readTokens front = .error (.unexpectedEnd (missingAfter front)) := by
  obtain ⟨rest, rfl⟩ := begins
  cases rest with
  | nil => exact absurd (List.append_nil front).symm cut
  | cons token later =>
      have ran := readTokens_eq_ok_iff_run.mp reads
      rw [State.run_append] at ran
      obtain ⟨state, ranFront, ranRest⟩ := Except.bind_eq_ok_iff.mp ran
      obtain ⟨next, stepped, _⟩ := Except.bind_eq_ok_iff.mp ranRest
      have unfinished := (Moves.of_step stepped).ne_done
      rw [readTokens, ranFront, Except.ok_bind]
      exact finish_of_run ranFront unfinished

/-- The first token behind a node that is read is refused, whatever it is. -/
theorem readTokens_of_extended {tokens : List Token} {node : Node}
    (reads : readTokens tokens = .ok node) (extra : Token) (more : List Token) :
    readTokens (tokens ++ extra :: more) = .error (.trailingInput extra.offset) := by
  have ran := readTokens_eq_ok_iff_run.mp reads
  rw [readTokens, State.run_append, ran]
  rfl

/-- The tokens of a text that is read as a node are not read as one if some of them are missing at the
end: the reader then says that the input has ended, and what it would take next. If there are more of
them it refuses the first that is too many, and says where it stands. -/
theorem read_of_cut_and_extended {source : String} {tokens : List Token} {node : Node}
    (lexed : lex source = .ok tokens) (reads : read source = .ok node) :
    (∀ front, front <+: tokens → front ≠ tokens →
      Cursor.read { remaining := front } =
        .error (.unexpectedEnd (missingAfter front))) ∧
    (∀ (extra : Token) (more : List Token),
      Cursor.read { remaining := tokens ++ extra :: more } =
        .error (.trailingInput extra.offset)) := by
  have readsTokens : readTokens tokens = .ok node := by
    rw [read, lexed] at reads
    exact reads
  constructor
  · intro front begins cut
    rw [Cursor.read_eq_readTokens]
    exact readTokens_of_cut readsTokens begins cut
  · intro extra more
    rw [Cursor.read_eq_readTokens]
    exact readTokens_of_extended readsTokens extra more

/-- A node inside another, cut off behind its `s` and followed by a comma. -/
theorem read_of_cut_inner_head :
    let source := "s(:begin, s(:nil))"
    let front : List Token :=
      [⟨.identifier, "s", 0⟩, ⟨.leftParenthesis, "(", 1⟩, ⟨.symbol, ":begin", 2⟩, ⟨.comma, ",", 8⟩,
        ⟨.identifier, "s", 10⟩]
    let back : List Token :=
      [⟨.leftParenthesis, "(", 11⟩, ⟨.symbol, ":nil", 12⟩, ⟨.rightParenthesis, ")", 16⟩,
        ⟨.rightParenthesis, ")", 17⟩]
    let extra : Token := ⟨.comma, ",", 18⟩
    lex source = .ok (front ++ back) ∧ read source = .ok (.begin [.word .nil]) ∧
      Cursor.read { remaining := front } = .error (.unexpectedEnd .openParenthesis) ∧
      Cursor.read { remaining := front ++ back ++ [extra] } = .error (.trailingInput 18) := by
  intro source front back extra
  have lexed : lex source = .ok (front ++ back) := by
    simp only [source, front, back]
    cbv
  have reads : read source = .ok (.begin [.word .nil]) := by
    simp only [source]
    cbv
  have cut : front ≠ front ++ back := by simp [back]
  obtain ⟨unfinished, trailing⟩ := read_of_cut_and_extended lexed reads
  exact ⟨lexed, reads, unfinished front (List.prefix_append _ _) cut, trailing extra []⟩

end StringForms.Sexp
