/-
Undirected graphs as ascending neighbour lists.

`Graph.link` and `Graph.unlink` keep both directions of an edge together, and every
neighbour list stays strictly ascending.  The views are `neighborsOf`, `degree`,
`edgeCount` and `matrix`.
-/
import PeerOverlay.Topology.Basic

namespace PeerOverlay

/-- Inserts a number into an ascending list that may hold it already. -/
def insertAscending (a : Nat) : List Nat → List Nat
  | [] => [a]
  | b :: rest =>
    if a < b then a :: b :: rest
    else if a = b then b :: rest
    else b :: insertAscending a rest

theorem mem_insertAscending {a b : Nat} {l : List Nat} :
    b ∈ insertAscending a l ↔ b = a ∨ b ∈ l := by
  induction l with
  | nil => simp [insertAscending]
  | cons c rest ih =>
    simp only [insertAscending]
    split
    · simp
    · split
      next h => subst h; simp
      next => simp only [List.mem_cons, ih]; exact or_left_comm

theorem pairwise_insertAscending {a : Nat} {l : List Nat} (h : l.Pairwise (· < ·)) :
    (insertAscending a l).Pairwise (· < ·) := by
  induction l with
  | nil => simp [insertAscending]
  | cons c rest ih =>
    obtain ⟨hc, hr⟩ := List.pairwise_cons.1 h
    simp only [insertAscending]
    split
    next hlt =>
      refine List.pairwise_cons.2 ⟨fun b hb => ?_, h⟩
      rcases List.mem_cons.1 hb with rfl | hb
      · exact hlt
      · exact Nat.lt_trans hlt (hc b hb)
    next hlt =>
      split
      next => exact h
      next hne =>
        refine List.pairwise_cons.2 ⟨fun b hb => ?_, ih hr⟩
        rcases mem_insertAscending.1 hb with rfl | hb
        · omega
        · exact hc b hb

/-- A graph on the nodes `0 … n − 1`: entry `v` lists the neighbours of `v`. -/
structure Graph where
  adjacency : Array (List NodeId)
deriving DecidableEq, Repr

namespace Graph

/-- The graph on `n` nodes without edges. -/
def edgeless (n : Nat) : Graph :=
  ⟨Array.replicate n []⟩

/-- The number of nodes. -/
def numNodes (g : Graph) : Nat :=
  g.adjacency.size

/-- The neighbours of `v`; a number that is no node has none. -/
def neighbors (g : Graph) (v : NodeId) : List NodeId :=
  g.adjacency.getD v []

/-- Joins two different nodes by an edge. -/
def link (g : Graph) (a b : NodeId) : Graph :=
  if a = b then g
  else ⟨(g.adjacency.modify a (insertAscending b)).modify b (insertAscending a)⟩

/-- Removes the edge between two nodes. -/
def unlink (g : Graph) (a b : NodeId) : Graph :=
  ⟨(g.adjacency.modify a (·.erase b)).modify b (·.erase a)⟩

/-- The neighbours of a node, in ascending order. -/
def neighborsOf (g : Graph) (v : NodeId) : Except TopologyError (List NodeId) :=
  if v < g.numNodes then .ok (g.neighbors v) else .error (.nodeOutOfRange v g.numNodes)

/-- How many neighbours a node has. -/
def degree (g : Graph) (v : NodeId) : Except TopologyError Nat :=
  (g.neighborsOf v).map List.length

/-- How many edges the graph has: each is listed by both of its ends. -/
def edgeCount (g : Graph) : Nat :=
  g.adjacency.toList.flatten.length / 2

/-- The adjacency matrix, one row a node, with one where an edge is. -/
def matrix (g : Graph) : List (List Nat) :=
  g.adjacency.toList.map fun row =>
    (List.range g.numNodes).map fun v => if row.contains v then 1 else 0

/-- A graph as a topology. -/
def toTopology (g : Graph) : Topology where
  numNodes := g.numNodes
  neighborsOf := g.neighborsOf

end Graph

end PeerOverlay
