/-
Module: StringForms.Proofs.Source.Plain
Purpose: Strings that hold literal text and nested strings only: each part becomes one quoted token,
  which is read back as all the text in the part.
Main exports: Node.IsPlain, Node.payload, Quotes, quotes_part, quoted_of_plain, Holds,
  lex_render_of_plain
-/
import Mathlib.Data.List.Forall2
import StringForms.Proofs.Node.Occurrence
import StringForms.Proofs.Page.Flush
import StringForms.Proofs.Sexp.Cutting
import StringForms.Proofs.Source.Fault
import StringForms.Proofs.Source.Literal
import StringForms.Sexp.Atom

namespace StringForms

open Sexp Text

namespace Node

/-- A tree of literal text and nested strings. -/
def IsPlain (node : Node) : Prop :=
  ∀ inner, Occurs inner node → inner.isStr = true ∨ inner.isDstr = true

/-- A plain tree is a text, or a string of plain trees. -/
theorem IsPlain.shape {node : Node} (plain : node.IsPlain) :
    (∃ text, node = .str text) ∨ ∃ parts, node = .dstr parts ∧ ∀ part ∈ parts, part.IsPlain := by
  have below : ∀ member ∈ node.members, member.IsPlain :=
    fun member found inner occurs => plain inner (.within found occurs)
  rcases plain node .here with literal | nested
  · cases node with
    | str text => exact .inl ⟨text, rfl⟩
    | _ => cases literal
  · cases node with
    | dstr parts => exact .inr ⟨parts, rfl, below⟩
    | _ => cases nested

theorem isPlain_str (text : String) : (Node.str text).IsPlain := by
  intro inner occurs
  rcases occurs_iff.mp occurs with rfl | ⟨member, found, _⟩
  · exact .inl rfl
  · cases found

theorem isPlain_dstr {parts : List Node} (plain : ∀ part ∈ parts, part.IsPlain) :
    (Node.dstr parts).IsPlain := by
  intro inner occurs
  rcases occurs_iff.mp occurs with rfl | ⟨member, found, inside⟩
  · exact .inr rfl
  · exact plain member found inner inside

mutual

/-- All literal text in a plain tree, from left to right. -/
def payload : Node → String
  | .str text => text
  | .dstr parts => payloadOfAll parts
  | _ => ""

/-- All literal text in a list of plain trees. -/
def payloadOfAll : List Node → String
  | [] => ""
  | node :: rest => payload node ++ payloadOfAll rest

end

end Node

namespace Source

/-! ### The inside of one literal -/

/-- Code that writes, at the margin of any page, a spelling of a text between quotes. -/
structure Quotes (code : Code) (text : String) : Prop where
  flush : code.StaysFlush
  succeeds : code.fault? = none
  spells : Spells code.text.toList text.toList

theorem Quotes.empty : Quotes .empty "" where
  flush := trivial
  succeeds := rfl
  spells := .nil

theorem Quotes.append {code code' : Code} {text text' : String} (first : Quotes code text)
    (second : Quotes code' text') : Quotes (code ++ code') (text ++ text') where
  flush := ⟨first.flush, second.flush⟩
  succeeds := by rw [Draft.fault?_append, first.succeeds, second.succeeds, Option.or_none]
  spells := by
    rw [Draft.text_append first.succeeds, String.toList_append, String.toList_append]
    exact first.spells.append second.spells

/-- A text that is escaped for quotes is read back as itself. -/
theorem quotes_literal (text : String) : Quotes (.append (Mode.quoted.escape text)) text where
  flush := trivial
  succeeds := rfl
  spells := by
    have written : (.append (Mode.quoted.escape text) : Code).text.toList =
        Literal.quoted text.toList := String.toList_ofList
    rw [written]
    exact Literal.spells_quoted text.toList

/-- A plain node is no splice. -/
theorem isSplice_of_isPlain {node : Node} (plain : node.IsPlain) :
    (Part.ofNode node).isSplice = false := by
  rcases plain.shape with ⟨text, rfl⟩ | ⟨parts, rfl, _⟩ <;> rfl

/-- The inside of plain parts quotes all their payloads, if each part quotes its own. -/
theorem quotes_interiorFrom {nodes : List Node} (plain : ∀ node ∈ nodes, node.IsPlain)
    (each : ∀ node ∈ nodes, Quotes ((Part.ofNode node).interior .quoted false) node.payload) :
    Quotes (interiorFrom .quoted false (Part.ofNodes nodes)) (Node.payloadOfAll nodes) := by
  induction nodes with
  | nil => exact .empty
  | cons node rest ih =>
      have first := each node (by simp)
      have later := ih (fun other found => plain other (by simp [found]))
        fun other found => each other (by simp [found])
      rw [Part.ofNodes, interiorFrom, isSplice_of_isPlain (plain node (by simp)),
        Node.payloadOfAll]
      exact first.append later

/-- The inside of a plain part spells all the text in it, each character once. -/
theorem quotes_part {node : Node} (plain : node.IsPlain) :
    Quotes ((Part.ofNode node).interior .quoted false) node.payload := by
  induction node using Node.memberInduction with
  | step node ih =>
      rcases plain.shape with ⟨text, rfl⟩ | ⟨parts, rfl, below⟩
      · exact quotes_literal text
      · have inside := quotes_interiorFrom below fun part found => ih part found (below part found)
        rw [Part.ofNode, Part.interior, Node.payload]
        exact ⟨inside.flush, inside.succeeds, inside.spells⟩

/-! ### The literals of a string -/

/-- The literal that a plain part becomes. -/
def literalOf (node : Node) : String :=
  "\"" ++ (((Part.ofNode node).interior .quoted false).text ++ "\"")

/-- Plain nodes are texts and nested strings, so that a break parts each from the next. -/
theorem isSeparate_of_isPlain {nodes : List Node} (plain : ∀ node ∈ nodes, node.IsPlain) :
    ∀ part ∈ Part.ofNodes nodes, part.isLiteral = true ∨ part.isNested = true := by
  rw [forall_mem_ofNodes]
  intro node member
  rcases (plain node member).shape with ⟨text, rfl⟩ | ⟨parts, rfl, _⟩
  · exact .inl rfl
  · exact .inr rfl

theorem quotes_singleton {node : Node} (plain : node.IsPlain) :
    Quotes (interior .quoted [Part.ofNode node]) node.payload := by
  have alone := (quotes_part plain).append .empty
  rw [String.append_empty] at alone
  exact alone

/-- Between its quotes it is the literal of the node. -/
theorem text_quotedRun {node : Node} (plain : node.IsPlain) :
    (quotedRun [Part.ofNode node]).text = literalOf node := by
  have inside := quotes_part plain
  have unfolded : (quotedRun [Part.ofNode node]).text =
      "\"" ++ (interior .quoted [Part.ofNode node] ++ .append "\"").text := rfl
  have alone : (interior .quoted [Part.ofNode node]).text =
      ((Part.ofNode node).interior .quoted false).text ++ "" := Draft.text_append inside.succeeds _
  rw [unfolded, Draft.text_append (quotes_singleton plain).succeeds, alone, String.append_empty]
  rfl

/-- A string of plain parts is written on one line of literals, whatever the page. -/
theorem quoted_of_plain {nodes : List Node} (filled : nodes ≠ [])
    (plain : ∀ node ∈ nodes, node.IsPlain) :
    (quoted (Part.ofNodes nodes)).StaysFlush ∧ (quoted (Part.ofNodes nodes)).fault? = none ∧
      (quoted (Part.ofNodes nodes)).text = " ".intercalate (nodes.map literalOf) := by
  have some : Part.ofNodes nodes ≠ [] := by
    rw [ofNodes_eq_map]
    exact fun none => filled (List.map_eq_nil_iff.mp none)
  -- Every part is a run of its own.
  have literals : (runs (Part.ofNodes nodes)).map quotedRun =
      nodes.map fun node => quotedRun [Part.ofNode node] := by
    rw [runs_of_separate some (isSeparate_of_isPlain plain), ofNodes_eq_map, List.map_map,
      List.map_map]
    rfl
  have each : ∀ literal ∈ nodes.map (fun node => quotedRun [Part.ofNode node]),
      literal.StaysFlush ∧ literal.fault? = none := by
    intro literal found
    rcases List.mem_map.mp found with ⟨node, member, rfl⟩
    have inside := quotes_singleton (plain node member)
    refine ⟨⟨trivial, inside.flush, trivial⟩, ?_⟩
    rw [fault?_quotedRun, ← fault?_interior .quoted, inside.succeeds]
  have texts : (nodes.map fun node => quotedRun [Part.ofNode node]).map Draft.text =
      nodes.map literalOf := by
    rw [List.map_map]
    exact List.map_congr_left fun node found => text_quotedRun (plain node found)
  have notEmpty : ¬ (Part.ofNodes nodes).isEmpty = true := by simpa using some
  rw [quoted, if_neg notEmpty, literals]
  refine ⟨⟨trivial, Draft.staysFlush_separated " " fun literal found => (each literal found).1⟩,
    ?_, ?_⟩
  · rw [Draft.fault?_append, Draft.fault?_note, Option.none_or, Draft.fault?_separated,
      List.findSome?_eq_none_iff]
    exact fun literal found => (each literal found).2
  · rw [Draft.text_append (Draft.fault?_note _),
      Draft.text_separated " " fun literal found => (each literal found).2, texts]
    exact String.empty_append

/-! ### The tokens -/

/-- A quoted token whose inside decodes to the text of a tree, wherever it stands. -/
structure Holds (node : Node) (token : Token) : Prop where
  kind : token.kind = .string
  quotes : token.text = "\"" ++ (token.quotedBody 1 ++ "\"")
  decodes : ∀ offset, unescape (token.quotedBody 1) offset = .ok node.payload

/-- A plain part is cut off as one token, whatever stands behind it. -/
theorem exists_cut_literal {node : Node} (plain : node.IsPlain) (offset : Nat) :
    ∃ token, token.text = literalOf node ∧ Holds node token ∧
      ∀ rest, Cut offset (literalOf node).toList [token] rest := by
  have spells := (quotes_part plain).spells
  let body := ((Part.ofNode node).interior .quoted false).text
  have delimited : (literalOf node).toList = '"' :: (body.toList ++ ['"']) := by
    simp [literalOf, body]
  let token := piece .string ('"' :: (body.toList ++ ['"'])) offset
  have text : token.text = literalOf node := by
    simp only [token, piece, ← delimited, String.ofList_toList]
  have inside : token.quotedBody 1 = body := by
    simp [token, piece, Token.quotedBody]
  refine ⟨token, text, ⟨rfl, ?_, fun place => ?_⟩, fun rest => ?_⟩
  · rw [text, inside]
    rfl
  · have decoded := spells.unescape_eq place
    rw [String.ofList_toList, String.ofList_toList] at decoded
    rw [inside]
    exact decoded
  · rw [delimited]
    exact cut_string offset spells rest

/-- Literals with single spaces between them are cut into one token for each. -/
theorem exists_cut_literals {nodes : List Node} (filled : nodes ≠ [])
    (plain : ∀ node ∈ nodes, node.IsPlain) (offset : Nat) :
    ∃ tokens, tokens.map Token.text = nodes.map literalOf ∧
      List.Forall₂ Holds nodes tokens ∧
      ∀ rest, Cut offset (" ".intercalate (nodes.map literalOf)).toList tokens rest := by
  induction nodes generalizing offset with
  | nil => exact absurd rfl filled
  | cons node rest ih =>
      obtain ⟨token, text, holds, cut⟩ := exists_cut_literal (plain node (by simp)) offset
      cases rest with
      | nil =>
          refine ⟨[token], ?_, .cons holds .nil, fun later => ?_⟩
          · rw [List.map_singleton, List.map_singleton, text]
          · rw [List.map_singleton, String.intercalate_singleton]
            exact cut later
      | cons next others =>
          let start := offset + byteSize (literalOf node).toList
          obtain ⟨tokens, texts, pairs, cutOthers⟩ := ih (List.cons_ne_nil next others)
            (fun other found => plain other (List.mem_cons_of_mem node found))
            (start + byteSize [' '])
          refine ⟨token :: tokens, ?_, .cons holds pairs, fun later => ?_⟩
          · rw [List.map_cons, List.map_cons, text, texts]
          · have spaced := (cut_blank rfl).append (cutOthers later)
            have row := (cut _).append spaced
            simpa [String.intercalate_cons_cons] using row

/-! ### The whole string -/

/-- Without a splice there is no heredoc. -/
theorem isHeredoc_of_plain {nodes : List Node} (plain : ∀ node ∈ nodes, node.IsPlain) :
    ¬ isHeredoc (Part.ofNodes nodes) = true := by
  intro eligible
  obtain ⟨part, found, splice⟩ := exists_splice_of_isHeredoc eligible
  rw [ofNodes_eq_map] at found
  rcases List.mem_map.mp found with ⟨node, member, rfl⟩
  rw [isSplice_of_isPlain (plain node member)] at splice
  cases splice

/-- A form that fails nowhere and indents nothing leaves its text on a page of its own. -/
theorem result_render {unit : String} {node : Node} {form : Form}
    (formed : Form.ofNode node = .ok form) (flush : form.whole.StaysFlush)
    (succeeds : form.whole.fault? = none) : (render unit node).result = .ok form.whole.text := by
  have margin : (Page.blank unit).level = 0 := rfl
  have verdict := Draft.fault?_run form.whole (Page.blank unit)
  have written := Draft.page_run_of_flush flush margin
  rw [succeeds] at verdict
  simp only [render, formed, verdict, written]
  exact congrArg Except.ok String.empty_append

/-- Every string of plain parts is written, and what is written is cut into one quoted token for
each part, in order and with single spaces between them. The inside of each token decodes to all
the text in its part, so every text is escaped once, however deep it stands. -/
theorem lex_render_of_plain (unit : String) {nodes : List Node} (filled : nodes ≠ [])
    (plain : ∀ node ∈ nodes, node.IsPlain) :
    ∃ text tokens, (render unit (.dstr nodes)).result = .ok text ∧ lex text = .ok tokens ∧
      text = " ".intercalate (tokens.map Token.text) ∧
      List.Forall₂ Holds nodes tokens := by
  obtain ⟨flush, succeeds, written⟩ := quoted_of_plain filled plain
  obtain ⟨tokens, texts, pairs, cut⟩ := exists_cut_literals filled plain 0
  have formed : Form.ofNode (.dstr nodes) = .ok (.quoted (Part.ofNodes nodes)) :=
    congrArg Except.ok (Form.choose_of_not_isHeredoc (isHeredoc_of_plain plain))
  have whole : (Form.quoted (Part.ofNodes nodes)).whole.text =
      " ".intercalate (nodes.map literalOf) := by
    rw [← written]
    exact (Draft.text_append succeeds .empty).trans String.append_empty
  have rendered : (render unit (.dstr nodes)).result = .ok (" ".intercalate (nodes.map literalOf)) := by
    rw [← whole]
    apply result_render formed ⟨flush, trivial⟩
    rw [Form.fault?_whole, ← succeeds, fault?_quoted]
    rfl
  refine ⟨_, tokens, rendered, ?_, ?_, pairs⟩
  · have lexed := (cut []).lex_eq
    rw [String.ofList_toList] at lexed
    exact lexed
  · rw [texts]

/-- A text that ends in what could open an interpolation, before a nested one that could go on. -/
theorem lex_render_of_split_interpolation :
    ∃ text tokens,
      (render "  " (.dstr [.str "a#", .dstr [.str "\x7b\x01", .dstr [], .str "f\\"]])).result =
        .ok text ∧
      lex text = .ok tokens ∧ text = " ".intercalate (tokens.map Token.text) ∧
      List.Forall₂ Holds [.str "a#", .dstr [.str "\x7b\x01", .dstr [], .str "f\\"]] tokens := by
  have inner : (Node.dstr [.str "\x7b\x01", .dstr [], .str "f\\"]).IsPlain := by
    apply Node.isPlain_dstr
    simp [Node.isPlain_str, Node.isPlain_dstr]
  apply lex_render_of_plain "  " (List.cons_ne_nil _ _)
  simp [Node.isPlain_str, inner]

end Source

end StringForms
