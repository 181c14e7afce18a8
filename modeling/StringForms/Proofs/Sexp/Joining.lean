/-
Module: StringForms.Proofs.Sexp.Joining
Purpose: The tokens of a text written in a row again, with blanks between them or without: when they are
  cut apart in the same way.
Main exports: Token.shape, Relexes, Token.Fuses, Spaced, exists_tokensFrom_append_iff,
  tokensFrom_joined_iff, exists_tokensFrom_of_spaced, relexes_spaced_and_joined
-/
import StringForms.Proofs.Sexp.Tokenization

namespace StringForms.Sexp

open Text

/-!
How far a token goes is settled by the first character behind it. A blank ends every token. Without one
it is the first character of the next token that counts, so a row of tokens is cut apart again exactly if
no two neighbours run together, and for these a look at their kinds is enough.
-/

/-- A token without its place. -/
def Token.shape (token : Token) : TokenKind × String :=
  (token.kind, token.text)

/-- A text is cut into tokens of the same kinds and texts as some others. -/
def Relexes (tokens : List Token) (text : List Char) : Prop :=
  ∃ others, lex (String.ofList text) = .ok others ∧ others.map Token.shape = tokens.map Token.shape

/-- Neighbours that run together when nothing is between them. -/
inductive Token.Fuses (first second : Token) : Prop where
  | names (sort : first.kind = .identifier) (next : second.kind = .identifier)
  | symbolName (sort : first.kind = .symbol) (next : second.kind = .identifier)
  | symbolNumber (sort : first.kind = .symbol) (next : second.kind = .integer)
  | nameNumber (sort : first.kind = .identifier) (next : second.kind = .integer)
      (unsigned : second.text.toList.head? ≠ some '-')
  | numbers (sort : first.kind = .integer) (next : second.kind = .integer)
      (unsigned : second.text.toList.head? ≠ some '-')

/-- `Spaced tokens text`: the text is that of the tokens with at least one blank between neighbours. -/
inductive Spaced : List Token → List Char → Prop where
  | nil : Spaced [] []
  | last (token : Token) : Spaced [token] token.text.toList
  | cons {first second : Token} {rest : List Token} {blanks text : List Char}
      (some : blanks ≠ []) (blank : ∀ character ∈ blanks, isBlank character = true)
      (later : Spaced (second :: rest) text) :
      Spaced (first :: second :: rest) (first.text.toList ++ blanks ++ text)

/-- A token whose text is one of its kind. -/
def Token.IsProper (token : Token) : Prop :=
  token.text.toList ∈ token.kind.language

/-! ### Cutting one token off -/

/-- A token is cut off as it is exactly if what is behind it does not go on with it, and the rest is cut
as if it stood alone. -/
theorem exists_tokensFrom_append_iff {token : Token} (proper : token.IsProper)
    (offset : Nat) (rest : List Char) (shapes : List (TokenKind × String)) :
    (∃ others, tokensFrom offset (token.text.toList ++ rest) = .ok others ∧
        others.map Token.shape = token.shape :: shapes) ↔
      Stops token.kind.goesOn rest ∧
        ∃ others, tokensFrom (offset + byteSize token.text.toList) rest = .ok others ∧
          others.map Token.shape = shapes := by
  obtain ⟨first, more, spelled⟩ := TokenKind.exists_cons_of_mem proper
  have belongs := proper
  rw [Token.IsProper, spelled] at belongs
  have scanned := scan?_of_mem_language belongs rest
  have short := (mem_language_of_scan? scanned).1
  rw [spelled, List.cons_append, tokensFrom_of_scan (TokenKind.isBlank_eq_false belongs) scanned]
  constructor
  · rintro ⟨others, cut, same⟩
    obtain ⟨later, cutLater, rfl⟩ := Except.map_eq_ok_iff.mp cut
    obtain ⟨sameFirst, sameLater⟩ := List.cons.inj same
    -- The first token is the one that was there, so nothing behind it was taken along.
    have taken : more = (more ++ rest).take (more.length + runLength token.kind.goesOn rest) := by
      have sameText := congrArg String.toList (Prod.mk.inj sameFirst).2
      rw [spelled, piece, String.toList_ofList] at sameText
      exact (List.cons.inj sameText).2.symm
    have none : runLength token.kind.goesOn rest = 0 := by
      have length := congrArg List.length taken
      rw [List.length_take_of_le short] at length
      omega
    rw [none, Nat.add_zero, List.take_left, List.drop_left] at cutLater
    exact ⟨runLength_eq_zero_iff.mp none, later, cutLater, sameLater⟩
  · rintro ⟨stops, others, cut, same⟩
    rw [runLength_eq_zero_iff.mpr stops, Nat.add_zero, List.take_left, List.drop_left, cut]
    refine ⟨_, rfl, ?_⟩
    simp [piece, Token.shape, same, ← spelled]

/-! ### What stands behind a token -/

/-- A bare symbol goes on with everything that an identifier goes on with. -/
theorem isSymbolPart_of_isWordPart {character : Char} (part : isWordPart character = true) :
    isSymbolPart character = true := by
  have differs {other : Char} (no : isWordPart other = false) : character ≠ other :=
    ne_of_belongs part no
  simp [isSymbolPart, isWhiteSpace_eq_false_of_isWordPart part,
    differs (rfl : isWordPart ',' = false), differs (rfl : isWordPart '(' = false),
    differs (rfl : isWordPart ')' = false), differs (rfl : isWordPart '"' = false),
    differs (rfl : isWordPart ':' = false)]

/-- No token goes on with a blank. -/
theorem goesOn_eq_false_of_isBlank {blank : Char} (isBlank : isBlank blank = true)
    (kind : TokenKind) : kind.goesOn blank = false := by
  simp only [Sexp.isBlank, Bool.or_eq_true, beq_iff_eq] at isBlank
  rcases isBlank with ((rfl | rfl) | rfl) | rfl <;> cases kind <;> decide

/-- A token that is neither a number nor an identifier begins with a mark, and no token goes on with
one. -/
theorem goesOn_eq_false_of_mem_language {kind : TokenKind} {head : Char} {more : List Char}
    (belongs : head :: more ∈ kind.language) (noNumber : kind ≠ .integer)
    (noName : kind ≠ .identifier) (other : TokenKind) : other.goesOn head = false := by
  have mark : head = '(' ∨ head = ')' ∨ head = ',' ∨ head = ':' ∨ head = '"' := by
    cases kind with
    | leftParenthesis => exact .inl (List.cons.inj belongs).1
    | rightParenthesis => exact .inr (.inl (List.cons.inj belongs).1)
    | comma => exact .inr (.inr (.inl (List.cons.inj belongs).1))
    | symbol =>
        obtain ⟨_, _, same⟩ := mem_symbol_iff.mp belongs
        exact .inr (.inr (.inr (.inl (List.cons.inj same).1)))
    | quotedSymbol =>
        obtain ⟨_, _, same⟩ := mem_quotedSymbol_iff.mp belongs
        exact .inr (.inr (.inr (.inl (List.cons.inj same).1)))
    | string =>
        obtain ⟨_, _, same⟩ := mem_string_iff.mp belongs
        exact .inr (.inr (.inr (.inr (List.cons.inj same).1)))
    | integer => exact absurd rfl noNumber
    | identifier => exact absurd rfl noName
  rcases mark with rfl | rfl | rfl | rfl | rfl <;> cases other <;> decide

theorem head_of_identifier {head : Char} {more : List Char}
    (belongs : head :: more ∈ TokenKind.identifier.language) : isWordStart head = true := by
  obtain ⟨_, _, start, _, same⟩ := mem_identifier_iff.mp belongs
  rwa [(List.cons.inj same).1]

theorem head_of_integer {head : Char} {more : List Char}
    (belongs : head :: more ∈ TokenKind.integer.language) : head = '-' ∨ head.isDigit = true := by
  obtain ⟨digits, inside, same | same⟩ := mem_integer_iff.mp belongs
  · exact .inr ((mem_someOf_iff.mp inside).2 head (by simp [← same]))
  · exact .inl (List.cons.inj same).1

section Neighbours

variable {first second : Token} {head : Char} {more : List Char}

/-- Neighbours that run together do so because the first goes on with how the second begins. -/
theorem Token.Fuses.goesOn (fuses : first.Fuses second)
    (belongs : head :: more ∈ second.kind.language) (spelled : second.text.toList = head :: more) :
    first.kind.goesOn head = true := by
  have digit (next : second.kind = .integer) (unsigned : second.text.toList.head? ≠ some '-') :
      head.isDigit = true := by
    rw [next] at belongs
    rw [spelled] at unsigned
    exact (head_of_integer belongs).resolve_left fun minus => unsigned (congrArg some minus)
  cases fuses with
  | names sort next =>
      rw [next] at belongs
      rw [sort]
      exact isWordPart_of_isWordStart (head_of_identifier belongs)
  | symbolName sort next =>
      rw [next] at belongs
      rw [sort]
      exact isSymbolPart_of_isWordPart (isWordPart_of_isWordStart (head_of_identifier belongs))
  | symbolNumber sort next =>
      rw [next] at belongs
      rw [sort]
      rcases head_of_integer belongs with rfl | digit
      · decide
      · exact isSymbolPart_of_isWordPart (isWordPart_of_isDigit digit)
  | nameNumber sort next unsigned =>
      rw [sort]
      exact isWordPart_of_isDigit (digit next unsigned)
  | numbers sort next unsigned =>
      rw [sort]
      exact digit next unsigned

/-- There are no other neighbours of which the first goes on with how the second begins. -/
theorem Token.fuses_of_goesOn (belongs : head :: more ∈ second.kind.language)
    (spelled : second.text.toList = head :: more) (goesOn : first.kind.goesOn head = true) :
    first.Fuses second := by
  have unsigned (notMinus : head ≠ '-') : second.text.toList.head? ≠ some '-' := by
    simpa [spelled] using notMinus
  cases next : second.kind with
  | identifier =>
      rw [next] at belongs
      have noDigit := isDigit_eq_false_of_isWordStart (head_of_identifier belongs)
      cases sort : first.kind with
      | identifier => exact .names sort next
      | symbol => exact .symbolName sort next
      | integer =>
          rw [sort, TokenKind.goesOn, noDigit] at goesOn
          cases goesOn
      | _ =>
          rw [sort] at goesOn
          cases goesOn
  | integer =>
      cases sort : first.kind with
      | symbol => exact .symbolNumber sort next
      | identifier =>
          rw [sort] at goesOn
          exact .nameNumber sort next (unsigned (ne_of_belongs goesOn rfl))
      | integer =>
          rw [sort] at goesOn
          exact .numbers sort next (unsigned (ne_of_belongs goesOn rfl))
      | _ =>
          rw [sort] at goesOn
          cases goesOn
  | _ =>
      rw [goesOn_eq_false_of_mem_language belongs (by simp [next]) (by simp [next])] at goesOn
      cases goesOn

end Neighbours

/-! ### Rows -/

/-- The text of tokens with nothing between them. -/
def joined (tokens : List Token) : List Char :=
  tokens.flatMap fun token => token.text.toList

/-- Where a row of tokens goes on, the next token runs together with the one before or not. -/
theorem stops_joined_iff {token : Token} {rest : List Token}
    (proper : ∀ other ∈ rest, other.IsProper) :
    Stops token.kind.goesOn (joined rest) ↔ ∀ next ∈ rest.head?, ¬ token.Fuses next := by
  cases rest with
  | nil => simp [joined, Stops]
  | cons next later =>
      have belongs := proper next List.mem_cons_self
      obtain ⟨head, more, spelled⟩ := TokenKind.exists_cons_of_mem belongs
      rw [Token.IsProper, spelled] at belongs
      have begins : (joined (next :: later)).head? = some head := by simp [joined, spelled]
      simp only [Stops, begins, List.head?_cons, Option.mem_some_iff, forall_eq']
      rw [← Bool.not_eq_true]
      exact not_congr ⟨Token.fuses_of_goesOn belongs spelled, fun fuses => fuses.goesOn belongs spelled⟩

/-- Tokens with nothing between them are cut as they were exactly if no two neighbours fuse. -/
theorem tokensFrom_joined_iff {tokens : List Token} (proper : ∀ token ∈ tokens, token.IsProper)
    (offset : Nat) :
    (∃ others, tokensFrom offset (joined tokens) = .ok others ∧
        others.map Token.shape = tokens.map Token.shape) ↔
      tokens.IsChain fun first second => ¬ first.Fuses second := by
  induction tokens generalizing offset with
  | nil => simp [joined, tokensFrom]
  | cons token rest ih =>
      obtain ⟨properToken, properRest⟩ := List.forall_mem_cons.mp proper
      have split : joined (token :: rest) = token.text.toList ++ joined rest := rfl
      rw [split, List.map_cons, exists_tokensFrom_append_iff properToken, stops_joined_iff properRest,
        ih properRest, List.isChain_cons]

/-- Blanks move the tokens behind them and make none themselves. -/
theorem tokensFrom_blanks {blanks : List Char}
    (blank : ∀ character ∈ blanks, isBlank character = true) (offset : Nat) (rest : List Char) :
    tokensFrom offset (blanks ++ rest) = tokensFrom (offset + byteSize blanks) rest := by
  induction blanks generalizing offset with
  | nil => rfl
  | cons first later ih =>
      obtain ⟨blankFirst, blankLater⟩ := List.forall_mem_cons.mp blank
      rw [List.cons_append, tokensFrom, if_pos blankFirst, ih blankLater, byteSize, Nat.add_assoc]

/-- Tokens with at least one blank between neighbours are cut as they were. By induction on the row:
a blank goes on with no token, and blanks before a token are passed over. -/
theorem exists_tokensFrom_of_spaced {tokens : List Token} {text : List Char}
    (spaced : Spaced tokens text) (proper : ∀ token ∈ tokens, token.IsProper) (offset : Nat) :
    ∃ others, tokensFrom offset text = .ok others ∧
      others.map Token.shape = tokens.map Token.shape := by
  induction spaced generalizing offset with
  | nil => exact ⟨[], by rw [tokensFrom], rfl⟩
  | last token =>
      have alone := (exists_tokensFrom_append_iff (proper token List.mem_cons_self) offset [] []).mpr
        ⟨stops_nil, [], by rw [tokensFrom], rfl⟩
      rwa [List.append_nil] at alone
  | @cons first second rest blanks text some blank later ih =>
      obtain ⟨properFirst, properRest⟩ := List.forall_mem_cons.mp proper
      -- A blank goes on with no token.
      have stops : Stops first.kind.goesOn (blanks ++ text) := by
        obtain ⟨head, more, rfl⟩ := List.exists_cons_of_ne_nil some
        intro next found
        cases found
        exact goesOn_eq_false_of_isBlank (blank head List.mem_cons_self) first.kind
      rw [List.append_assoc, List.map_cons, exists_tokensFrom_append_iff properFirst]
      refine ⟨stops, ?_⟩
      rw [tokensFrom_blanks blank]
      exact ih properRest _

/-- What a text is cut into are tokens that the rules allow. -/
theorem isProper_of_lex {source : String} {tokens : List Token} (lexed : lex source = .ok tokens) :
    ∀ token ∈ tokens, token.IsProper := by
  intro token found
  obtain ⟨_, _, matched⟩ := (lex_eq_ok_iff.mp lexed).exists_restAt found
  exact matched.belongs

/-- The tokens of a text, written in a row with any blanks between neighbours, are cut apart into tokens
of the same kinds and texts. With nothing between them they are so exactly if no neighbours run
together: an identifier or a number without a sign behind an identifier, such a number behind a number,
or an identifier or any number behind a symbol. -/
theorem relexes_spaced_and_joined {source : String} {tokens : List Token}
    (lexed : lex source = .ok tokens) :
    (∀ text, Spaced tokens text → Relexes tokens text) ∧
      (Relexes tokens (joined tokens) ↔
        tokens.IsChain fun first second => ¬ first.Fuses second) := by
  have proper := isProper_of_lex lexed
  simp only [Relexes, lex, String.toList_ofList]
  exact ⟨fun text spaced => exists_tokensFrom_of_spaced spaced proper 0, tokensFrom_joined_iff proper 0⟩

/-- A symbol before a number needs a blank; a name before a negative number needs none. -/
theorem relexes_of_symbol_before_number :
    let tokens : List Token :=
      [⟨.identifier, "a", 0⟩, ⟨.integer, "-1", 1⟩, ⟨.symbol, ":b", 3⟩, ⟨.integer, "2", 6⟩]
    lex "a-1:b 2" = .ok tokens ∧ Relexes tokens "a\t\n-1 :b\r2".toList ∧
      Relexes (tokens.take 3) (joined (tokens.take 3)) ∧ ¬ Relexes tokens (joined tokens) := by
  intro tokens
  have lexed : lex "a-1:b 2" = .ok tokens := by
    simp only [tokens]
    cbv
  have lexedThree : lex "a-1:b" = .ok (tokens.take 3) := by
    simp only [tokens]
    cbv
  obtain ⟨spacedCut, joinedCut⟩ := relexes_spaced_and_joined lexed
  have spaced : Spaced tokens "a\t\n-1 :b\r2".toList :=
    .cons (List.cons_ne_nil '\t' ['\n']) (by simp [isBlank])
      (.cons (List.cons_ne_nil ' ' []) (by simp [isBlank])
        (.cons (List.cons_ne_nil '\r' []) (by simp [isBlank]) (.last _)))
  have apart : (tokens.take 3).IsChain fun first second => ¬ first.Fuses second := by
    have nameNumber : ¬ Token.Fuses ⟨.identifier, "a", 0⟩ ⟨.integer, "-1", 1⟩ := by
      intro fuses
      cases fuses <;> simp_all
    have numberSymbol : ¬ Token.Fuses ⟨.integer, "-1", 1⟩ ⟨.symbol, ":b", 3⟩ := by
      intro fuses
      cases fuses <;> simp_all
    exact .cons_cons nameNumber (.cons_cons numberSymbol (.singleton _))
  have fused : ¬ tokens.IsChain fun first second => ¬ first.Fuses second := by
    intro chain
    have last := (List.isChain_cons_cons.mp chain).2.tail
    exact (List.isChain_cons_cons.mp last).1 (.symbolNumber rfl rfl)
  exact ⟨lexed, spacedCut _ spaced, (relexes_spaced_and_joined lexedThree).2.mpr apart,
    fun relexes => fused (joinedCut.mp relexes)⟩

end StringForms.Sexp
