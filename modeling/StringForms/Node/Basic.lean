/-
Module: StringForms.Node.Basic
Purpose: Trees of interpolated strings and of the expressions inside them.
Main exports: Node, Node.kind, Node.isStr, Node.isDstr, Node.isBegin, Node.asParts, Node.outline
-/
import StringForms.Node.Kind

namespace StringForms

/-- A node of a tree. Texts are the values themselves, with no escapes; names of variables keep
their sigils. A group number is a machine word and may be zero here: only the reader refuses that. -/
inductive Node where
  | str (text : String)
  | dstr (parts : List Node)
  | begin (statements : List Node)
  | name (sort : NameSort) (text : String)
  | nthRef (group : UInt32)
  | int (value : Int64)
  | word (which : Word)
  | const (scope : Option Node) (name : String)
  | send (receiver : Option Node) (method : String) (arguments : List Node)
deriving Repr

namespace Node

instance : Inhabited Node := ⟨.word .nil⟩

/-- The kind of a node, read off its root. -/
def kind : Node → Kind
  | .str _ => .str
  | .dstr _ => .dstr
  | .begin _ => .begin
  | .name sort _ => .name sort
  | .nthRef _ => .nthRef
  | .int _ => .int
  | .word which => .word which
  | .const _ _ => .const
  | .send _ _ _ => .send

/-- Whether a node is literal text. -/
def isStr : Node → Bool
  | .str _ => true
  | _ => false

/-- Whether a node is an interpolated string. -/
def isDstr : Node → Bool
  | .dstr _ => true
  | _ => false

/-- Whether a node is a splice. -/
def isBegin : Node → Bool
  | .begin _ => true
  | _ => false

/-- A splice of one expression. -/
def interpolation (expression : Node) : Node :=
  .begin [expression]

/-- A call with no receiver and no arguments. -/
def call (method : String) : Node :=
  .send none method []

/-- The nodes that a node stands for when a list of string parts is wanted: the members of a
string or of a splice, and otherwise the node alone. -/
def asParts : Node → List Node
  | .dstr parts => parts
  | .begin statements => statements
  | other => [other]

mutual

/-- The nodes of a tree in preorder, each with its depth. The receiver of a call comes before its
arguments. -/
def outline (depth : Nat) : Node → List (Nat × Node)
  | .dstr parts => (depth, .dstr parts) :: outlineAll (depth + 1) parts
  | .begin statements => (depth, .begin statements) :: outlineAll (depth + 1) statements
  | .const scope label => (depth, .const scope label) :: outlineOptional (depth + 1) scope
  | .send receiver method arguments =>
      (depth, .send receiver method arguments) ::
        (outlineOptional (depth + 1) receiver ++ outlineAll (depth + 1) arguments)
  | leaf => [(depth, leaf)]

/-- The outlines of a list of nodes, one after the other. -/
def outlineAll (depth : Nat) : List Node → List (Nat × Node)
  | [] => []
  | node :: rest => outline depth node ++ outlineAll depth rest

/-- The outline of a node that may be absent. -/
def outlineOptional (depth : Nat) : Option Node → List (Nat × Node)
  | none => []
  | some node => outline depth node

end

end Node

end StringForms
