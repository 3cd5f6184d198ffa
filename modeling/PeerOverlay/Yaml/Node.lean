/-
YAML nodes and documents.

A `Node` is a scalar, a sequence, a mapping, or an alias of an anchored node.  Where the
text of a node stops being YAML, `fault` stands in the tree and nothing comes after it.

Design notes: an anchor is known by the number of different anchor names that came before
it.  When a name is used again the numbers of two anchors may agree; an alias then stands
for the later of them.
-/
import PeerOverlay.Yaml.Token

namespace PeerOverlay.Yaml

/-- A node of a document. -/
inductive Node
  | scalar (anchor : Option Nat) (tag : Option Tag) (style : Style) (text : String)
  | sequence (anchor : Option Nat) (tag : Option Tag) (items : List Node)
  | mapping (anchor : Option Nat) (tag : Option Tag) (entries : List (Node × Node))
  | alias (anchor : Nat)
  /-- The text is no YAML from here on. -/
  | fault
deriving Repr, Inhabited

/-- The first document of a text. -/
structure Document where
  /-- The content; an empty text has none. -/
  root : Option Node
  /-- Whether the text ends after the document. -/
  closed : Bool

namespace Node

/-- A scalar without text. -/
def empty : Node :=
  .scalar none none .plain ""

mutual

/-- Whether the text stops being YAML inside a node. -/
def isCut : Node → Bool
  | .scalar _ _ _ _ | .alias _ => false
  | .sequence _ _ items => isCutInItems items
  | .mapping _ _ entries => isCutInEntries entries
  | .fault => true

/-- Whether the text stops being YAML inside the items of a sequence. -/
def isCutInItems : List Node → Bool
  | [] => false
  | item :: rest => item.isCut || isCutInItems rest

/-- Whether the text stops being YAML inside the entries of a mapping. -/
def isCutInEntries : List (Node × Node) → Bool
  | [] => false
  | (key, value) :: rest => key.isCut || value.isCut || isCutInEntries rest

end

mutual

/-- How many places a node takes: one for a scalar or an alias, one for each end of a
collection, and those of the nodes in it. -/
def places : Node → Nat
  | .scalar _ _ _ _ | .alias _ => 1
  | .sequence _ _ items =>
    1 + placesOfItems items + (if isCutInItems items then 0 else 1)
  | .mapping _ _ entries =>
    1 + placesOfEntries entries + (if isCutInEntries entries then 0 else 1)
  | .fault => 0

/-- The places of the items of a sequence. -/
def placesOfItems : List Node → Nat
  | [] => 0
  | item :: rest => item.places + placesOfItems rest

/-- The places of the entries of a mapping. -/
def placesOfEntries : List (Node × Node) → Nat
  | [] => 0
  | (key, value) :: rest => key.places + value.places + placesOfEntries rest

end

mutual

/-- The anchored nodes at and below a node, in the order of their beginnings. -/
def anchored (node : Node) : List (Nat × Node) :=
  match node with
  | .scalar a t s x => (a.map fun n => (n, Node.scalar a t s x)).toList
  | .sequence a t items =>
    (a.map fun n => (n, Node.sequence a t items)).toList ++ anchoredItems items
  | .mapping a t entries =>
    (a.map fun n => (n, Node.mapping a t entries)).toList ++ anchoredEntries entries
  | .alias _ => []
  | .fault => []

/-- The anchored nodes in the items of a sequence. -/
def anchoredItems : List Node → List (Nat × Node)
  | [] => []
  | item :: rest => item.anchored ++ anchoredItems rest

/-- The anchored nodes in the entries of a mapping. -/
def anchoredEntries : List (Node × Node) → List (Nat × Node)
  | [] => []
  | (key, value) :: rest => key.anchored ++ value.anchored ++ anchoredEntries rest

end

end Node

end PeerOverlay.Yaml
