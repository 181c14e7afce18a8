/-
Module: StringForms.Proofs.Sexp.Grammar
Purpose: The grammar of written nodes as a relation between tokens and trees, with the table of
  the children that each kind takes.
Main exports: Atom.ofOptional, Fits, Denotes, DerivesNode, DerivesAtom, DerivesChildren,
  ofAtoms_of_fits, fits_of_ofAtoms, ofToken_eq_ok_iff
-/
import Mathlib
import StringForms.Proofs.Except
import StringForms.Sexp.Reader

namespace StringForms.Sexp

open Text

/-!
A written node is an `s`, an opening parenthesis, a tag, children with a comma before each, and a
closing parenthesis. The relations below say so without a stack and without an order of checks:

* `Denotes` reads one token as an atom;
* `Fits` is the table of the children that each kind takes;
* `DerivesNode`, `DerivesAtom` and `DerivesChildren` are the rules of the grammar.

The two checks of the reader that look at no stack, that of a single token and that of the children
of a closed node, are shown here to be these relations.
-/

/-- A node that may be left out, as a child. -/
def Atom.ofOptional : Option Node → Atom
  | none => .nil
  | some inner => .node inner

/-- The children that each kind takes, and the node that they make. -/
inductive Fits : Kind → List Atom → Node → Prop where
  | str (text : String) : Fits .str [.text text] (.str text)
  | dstr (parts : List Node) : Fits .dstr (parts.map .node) (.dstr parts)
  | begin (statements : List Node) : Fits .begin (statements.map .node) (.begin statements)
  | name (sort : NameSort) (text : String) : Fits (.name sort) [.symbol text] (.name sort text)
  | nthRef (value : Int64) (group : UInt32) (positive : 1 ≤ value.toInt)
      (bounded : value.toInt ≤ 2 ^ 32 - 1) (numbered : Int.ofNat group.toNat = value.toInt) :
      Fits .nthRef [.integer value] (.nthRef group)
  | int (value : Int64) : Fits .int [.integer value] (.int value)
  | word (which : Word) : Fits (.word which) [] (.word which)
  | const (scope : Option Node) (label : String) :
      Fits .const [.ofOptional scope, .symbol label] (.const scope label)
  | send (receiver : Option Node) (method : String) (arguments : List Node) :
      Fits .send (.ofOptional receiver :: .symbol method :: arguments.map .node)
        (.send receiver method arguments)

/-- The atom that a single token stands for. Quoted tokens are decoded, and an integer must be a
machine integer. -/
inductive Denotes (token : Token) : Atom → Prop where
  | symbol (sort : token.kind = .symbol) : Denotes token (.symbol token.symbolName)
  | quotedSymbol {name : String} (sort : token.kind = .quotedSymbol)
      (decoded : unescape (token.quotedBody 2) (token.offset + 2) = .ok name) :
      Denotes token (.symbol name)
  | string {text : String} (sort : token.kind = .string)
      (decoded : unescape (token.quotedBody 1) (token.offset + 1) = .ok text) :
      Denotes token (.text text)
  | integer {value : Int64} (sort : token.kind = .integer)
      (spelled : value.toInt = Decimal.intValue token.text.toList) :
      Denotes token (.integer value)
  | nil (sort : token.kind = .identifier) (word : token.text = "nil") : Denotes token .nil

mutual

/-- Tokens that are, all together, one node. -/
inductive DerivesNode : List Token → Node → Prop where
  | form {head opening tag closing : Token} {children : List Token} {kind : Kind}
      {atoms : List Atom} {node : Node} (starts : head.startsNode = true)
      (opens : opening.kind = .leftParenthesis) (tagged : tag.kind = .symbol)
      (known : Kind.ofTag? tag.symbolName = some kind)
      (derived : DerivesChildren children atoms) (closes : closing.kind = .rightParenthesis)
      (fits : Fits kind atoms node) :
      DerivesNode (head :: opening :: tag :: (children ++ [closing])) node

/-- Tokens that are one child. -/
inductive DerivesAtom : List Token → Atom → Prop where
  | node {tokens : List Token} {node : Node} (derived : DerivesNode tokens node) :
      DerivesAtom tokens (.node node)
  | token {token : Token} {atom : Atom} (denotes : Denotes token atom) :
      DerivesAtom [token] atom

/-- Tokens that are a row of children, each after a comma. -/
inductive DerivesChildren : List Token → List Atom → Prop where
  | nil : DerivesChildren [] []
  | cons {comma : Token} {tokens rest : List Token} {atom : Atom} {atoms : List Atom}
      (separates : comma.kind = .comma) (first : DerivesAtom tokens atom)
      (later : DerivesChildren rest atoms) :
      DerivesChildren (comma :: (tokens ++ rest)) (atom :: atoms)

end

/-- One more child may follow a row of children. -/
theorem DerivesChildren.concat {comma : Token} {tokens : List Token} {atom : Atom}
    (separates : comma.kind = .comma) (last : DerivesAtom tokens atom) :
    ∀ {children : List Token} {atoms : List Atom}, DerivesChildren children atoms →
      DerivesChildren (children ++ comma :: tokens) (atoms ++ [atom])
  | _, _, .nil => by
      simpa using DerivesChildren.cons separates last .nil
  | _, _, .cons separates' first later => by
      simpa using DerivesChildren.cons separates' first (concat separates last later)

/-! ### The table of children -/

/-- Children pass as nodes exactly if all of them are nodes. -/
theorem childNodes_eq_ok_iff {atoms : List Atom} {nodes : List Node} :
    childNodes atoms = .ok nodes ↔ atoms = nodes.map .node := by
  induction atoms generalizing nodes with
  | nil => cases nodes <;> simp [childNodes]
  | cons atom atoms ih =>
      cases atom with
      | node node =>
          simp only [childNodes, Except.map_eq_ok_iff, ih]
          cases nodes with
          | nil => simp
          | cons head rest =>
              simp only [List.cons.injEq, List.map_cons, Atom.node.injEq]
              constructor
              · rintro ⟨later, rfl, rfl, rfl⟩
                exact ⟨rfl, rfl⟩
              · rintro ⟨rfl, rfl⟩
                exact ⟨rest, rfl, rfl, rfl⟩
      | _ => cases nodes <;> simp [childNodes]

/-- A place for a node takes a node and `nil`. -/
theorem optionalNode_eq_ok_iff {atom : Atom} {place : Option Node} :
    optionalNode atom = .ok place ↔ atom = .ofOptional place := by
  cases atom <;> cases place <;> simp [optionalNode, Atom.ofOptional]

/-- The numbers of groups are those from one on that fit 32 bits. -/
theorem groupNumber?_eq_some_iff {value : Int64} {group : UInt32} :
    groupNumber? value = some group ↔
      1 ≤ value.toInt ∧ value.toInt ≤ 2 ^ 32 - 1 ∧ Int.ofNat group.toNat = value.toInt := by
  have size : Int.ofNat UInt32.size = 2 ^ 32 := rfl
  unfold groupNumber?
  rw [size]
  split
  · rename_i inRange
    have bound : value.toInt.toNat < UInt32.size := by
      have := Int.toNat_lt (n := UInt32.size) (by omega : 0 ≤ value.toInt)
      have : UInt32.size = 2 ^ 32 := rfl
      omega
    constructor
    · rintro ⟨rfl⟩
      refine ⟨by omega, by omega, ?_⟩
      rw [UInt32.toNat_ofNat_of_lt' bound]
      exact Int.toNat_of_nonneg (by omega)
    · rintro ⟨positive, bounded, numbered⟩
      rw [← numbered]
      simp
  · rename_i outside
    simp
    omega

/-- Children that fit the table make the node that the table names. -/
theorem ofAtoms_of_fits {kind : Kind} {atoms : List Atom} {node : Node}
    (fits : Fits kind atoms node) : Node.ofAtoms kind atoms = .ok node := by
  cases fits with
  | dstr parts => rw [Node.ofAtoms, childNodes_eq_ok_iff.mpr rfl, Except.map_ok]
  | begin statements => rw [Node.ofAtoms, childNodes_eq_ok_iff.mpr rfl, Except.map_ok]
  | nthRef value group positive bounded numbered =>
      simp only [Node.ofAtoms]
      rw [groupNumber?_eq_some_iff.mpr ⟨positive, bounded, numbered⟩]
  | const scope label =>
      simp only [Node.ofAtoms]
      rw [optionalNode_eq_ok_iff.mpr rfl, Except.map_ok]
  | send receiver method arguments =>
      simp only [Node.ofAtoms]
      rw [optionalNode_eq_ok_iff.mpr rfl, childNodes_eq_ok_iff.mpr rfl]
      rfl
  | _ => rfl

/-- Children that make a node fit the table. -/
theorem fits_of_ofAtoms {kind : Kind} {atoms : List Atom} {node : Node}
    (made : Node.ofAtoms kind atoms = .ok node) : Fits kind atoms node := by
  cases kind with
  | dstr =>
      rcases Except.map_eq_ok_iff.mp made with ⟨parts, taken, rfl⟩
      rw [childNodes_eq_ok_iff.mp taken]
      exact .dstr parts
  | begin =>
      rcases Except.map_eq_ok_iff.mp made with ⟨statements, taken, rfl⟩
      rw [childNodes_eq_ok_iff.mp taken]
      exact .begin statements
  | str =>
      simp only [Node.ofAtoms] at made
      split at made <;> cases made
      exact .str _
  | name sort =>
      simp only [Node.ofAtoms] at made
      split at made <;> cases made
      exact .name sort _
  | nthRef =>
      simp only [Node.ofAtoms] at made
      split at made
      · split at made
        · rename_i value _ group numbered
          cases made
          obtain ⟨positive, bounded, numbered⟩ := groupNumber?_eq_some_iff.mp numbered
          exact .nthRef value group positive bounded numbered
        · cases made
      · cases made
      · cases made
  | int =>
      simp only [Node.ofAtoms] at made
      split at made <;> cases made
      exact .int _
  | word which =>
      simp only [Node.ofAtoms] at made
      split at made <;> cases made
      exact .word which
  | const =>
      simp only [Node.ofAtoms] at made
      split at made
      · rcases Except.map_eq_ok_iff.mp made with ⟨scope, taken, rfl⟩
        rw [optionalNode_eq_ok_iff.mp taken]
        exact .const scope _
      · cases made
      · cases made
  | send =>
      simp only [Node.ofAtoms] at made
      split at made
      · rcases Except.bind_eq_ok_iff.mp made with ⟨receiver, takenReceiver, made⟩
        rcases Except.bind_eq_ok_iff.mp made with ⟨arguments, takenArguments, made⟩
        cases made
        rw [optionalNode_eq_ok_iff.mp takenReceiver, childNodes_eq_ok_iff.mp takenArguments]
        exact .send receiver _ arguments
      · cases made

/-! ### Single tokens -/

/-- A number is read if some machine integer has its value. -/
theorem integerOfInt?_eq_some_iff {number : Int} {value : Int64} :
    integerOfInt? number = some value ↔ value.toInt = number := by
  unfold integerOfInt?
  constructor
  · intro found
    split at found
    · rename_i inRange
      cases found
      have low : -2 ^ 63 ≤ number := inRange.1
      have high : number ≤ 2 ^ 63 - 1 := inRange.2
      exact Int64.toInt_ofInt_of_le low (by omega)
    · cases found
  · rintro rfl
    rw [if_pos ⟨value.minValue_le_toInt, value.toInt_le⟩, Int64.ofInt_toInt]

/-- The check of a single token is its relation to atoms. -/
theorem ofToken_eq_ok_iff {token : Token} {atom : Atom} :
    Atom.ofToken token = .ok atom ↔ Denotes token atom := by
  constructor
  · intro made
    unfold Atom.ofToken at made
    split at made
    · rename_i sort
      cases made
      exact .symbol sort
    · rename_i sort
      rcases Except.map_eq_ok_iff.mp made with ⟨name, decoded, rfl⟩
      exact .quotedSymbol sort decoded
    · rename_i sort
      rcases Except.map_eq_ok_iff.mp made with ⟨text, decoded, rfl⟩
      exact .string sort decoded
    · rename_i sort
      split at made
      · rename_i value found
        cases made
        exact .integer sort (integerOfInt?_eq_some_iff.mp found)
      · cases made
    · rename_i sort
      split at made
      · rename_i word
        cases made
        exact .nil sort word
      · cases made
    all_goals cases made
  · intro denotes
    cases denotes with
    | symbol sort => simp only [Atom.ofToken, sort]
    | quotedSymbol sort decoded => simp only [Atom.ofToken, sort, decoded, Except.map_ok]
    | string sort decoded => simp only [Atom.ofToken, sort, decoded, Except.map_ok]
    | integer sort spelled =>
        simp only [Atom.ofToken, sort, integerOfInt?_eq_some_iff.mpr spelled]
    | nil sort word => simp only [Atom.ofToken, sort, word, if_true]

/-- A token that starts a node is no atom by itself. -/
theorem startsNode_eq_false_of_denotes {token : Token} {atom : Atom}
    (denotes : Denotes token atom) : token.startsNode = false := by
  cases denotes <;> simp_all [Token.startsNode]

end StringForms.Sexp
