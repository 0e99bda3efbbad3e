import HabitatGraph.Core.Offsets
import HabitatGraph.Core.Text
import HabitatGraph.Foundation.RoseTree

/-! # Syntax trees

The tree that a parser gives for a source: every node has a kind, the fields of its
parent that it stands in, and a range of bytes inside the source. Nodes that are not
named are the tokens of the grammar.
-/

namespace HabitatGraph

/-- What the parser tells of one node over a source of `size` bytes. -/
structure SyntaxNode (size : Nat) where
  kind : String
  fields : List String
  named : Bool
  startByte : Nat
  endByte : Nat
  startRow : Nat
  endRow : Nat
  start_le_end : startByte ≤ endByte
  end_le_size : endByte ≤ size

/-- The tree of a source. -/
abbrev SyntaxTree (source : List UInt8) := RoseTree (SyntaxNode source.length)

namespace SyntaxTree

variable {source : List UInt8}

def kind (node : SyntaxTree source) : String := node.label.kind

/-- The first child in the field. -/
def childByFieldName (node : SyntaxTree source) (field : String) : Option (SyntaxTree source) :=
  node.children.find? fun child => field ∈ child.label.fields

/-- The children that are not tokens. -/
def namedChildren (node : SyntaxTree source) : List (SyntaxTree source) :=
  node.children.filter fun child => child.label.named

/-- The text of the bytes that a node covers, with replacements where it is not UTF-8. -/
def textOf (node : SyntaxTree source) : String :=
  fromUtf8Lossy
    ((source.drop node.label.startByte).take (node.label.endByte - node.label.startByte))

/-- The range of a node, its lines counted from one. -/
def makeSpan (node : SyntaxTree source) : Span where
  startByte := u32OrMax node.label.startByte
  endByte := u32OrMax node.label.endByte
  startLine := u32SaturatingAdd (u32OrMax node.label.startRow) 1
  endLine := u32SaturatingAdd (u32OrMax node.label.endRow) 1

/-- Named nodes in pre-order, each with its ancestors from the innermost outwards. -/
def occurrences (root : SyntaxTree source) :
    List (List (SyntaxTree source) × SyntaxTree source) :=
  RoseTree.visits SyntaxNode.named [] root

/-- A named node of a source of `size` bytes that is on one line. -/
def lineNode {size : Nat} (hsize : source.length = size) (kind : String) (fields : List String)
    (startByte endByte : Nat) (hrange : startByte ≤ endByte ∧ endByte ≤ size)
    (children : List (SyntaxTree source)) : SyntaxTree source :=
  .node
    { kind, fields, startByte, endByte
      named := true
      startRow := 0
      endRow := 0
      start_le_end := hrange.1
      end_le_size := hsize ▸ hrange.2 } children

end SyntaxTree

end HabitatGraph
