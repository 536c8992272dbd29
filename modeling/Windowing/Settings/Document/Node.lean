import Windowing.Settings.Document.Scalar

/-!
Nodes: what a document is made of.
-/
namespace Windowing.Document

structure Scalar where
  style : Style
  tag : Option (List Char)
  text : List Char
  deriving DecidableEq

inductive Node
  | scalar (s : Scalar)
  | sequence (items : List Node)
  | mapping (entries : List (Node × Node))
  /-- An alias of the anchored node with the number. -/
  | reference (number : Nat)
  | anchored (number : Nat) (node : Node)

namespace Node

/-- Left out. -/
def absent : Node := scalar ⟨.plain, none, []⟩

mutual

/-- The anchored nodes, in the order in which they begin. -/
def anchors : Node → List (Nat × Node)
  | scalar _ => []
  | sequence items => itemAnchors items
  | mapping entries => entryAnchors entries
  | reference _ => []
  | anchored number node => (number, node) :: anchors node

def itemAnchors : List Node → List (Nat × Node)
  | [] => []
  | node :: r => anchors node ++ itemAnchors r

def entryAnchors : List (Node × Node) → List (Nat × Node)
  | [] => []
  | (key, value) :: r => anchors key ++ anchors value ++ entryAnchors r

end

/-- The node itself, or the one that it is an alias of, in the document with the given anchors. Of
several nodes with one number the last is meant. -/
def resolve? (anchors : List (Nat × Node)) : Node → Option Node
  | reference number => (anchors.reverse.find? fun (n, _) => n = number).map Prod.snd
  | anchored _ node => some node
  | node => some node

end Node

end Windowing.Document
