/-
Overlay topologies.

A `Topology` answers two questions: how many nodes it has, and which nodes are the
neighbours of a node.  `TopologyError` lists what may be wrong with a graph's
parameters or with a query.
-/
import PeerOverlay.Number.DecimalText

namespace PeerOverlay

/-- Nodes are numbered from zero; the number is also the offset of a node into every
port range. -/
abbrev NodeId := Nat

/-- Why a graph cannot be built or a query cannot be answered. -/
inductive TopologyError
  | noNodes
  | oddNeighborCount (k : Nat)
  | neighborCountTooSmall (k : Nat)
  | neighborCountTooLarge (k numNodes : Nat)
  | invalidProbability (p : Binary64)
  | nodeOutOfRange (node : NodeId) (numNodes : Nat)
deriving DecidableEq, Repr

/-- The sentence that reports the error. -/
def TopologyError.message : TopologyError → String
  | .noNodes => "topology requires at least one node"
  | .oddNeighborCount k => s!"neighbor count k={k} must be even"
  | .neighborCountTooSmall k => s!"neighbor count k={k} must be at least 2"
  | .neighborCountTooLarge k numNodes =>
    s!"neighbor count k={k} must be less than the number of nodes ({numNodes})"
  | .invalidProbability p =>
    "rewiring probability " ++ String.ofList p.text ++ " is outside [0, 1]"
  | .nodeOutOfRange node numNodes =>
    s!"node {node} is out of range for a topology of {numNodes} nodes"

/-- The read-only view of an overlay graph that addressing needs. -/
structure Topology where
  /-- How many nodes the graph claims to have. -/
  numNodes : Nat
  /-- The neighbours of a node, in ascending order. -/
  neighborsOf : NodeId → Except TopologyError (List NodeId)

/-- The topology given by a list of neighbour lists. -/
def Topology.ofAdjacency (adjacency : Array (List NodeId)) : Topology where
  numNodes := adjacency.size
  neighborsOf node :=
    match adjacency[node]? with
    | some neighbors => .ok neighbors
    | none => .error (.nodeOutOfRange node adjacency.size)

end PeerOverlay
