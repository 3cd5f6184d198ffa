/-
Small-world graphs.

`smallWorld` starts from a ring lattice in which every node is joined to its `k / 2`
nearest nodes on either side.  It then visits each lattice slot once, ring by ring,
and with probability `p` moves the far end of the slot's edge to a random node that
is neither the slot's own node nor already a neighbour of it.

Design notes: a slot whose node is joined to all others is left alone, so at every
search some number is eligible; whether the words of the source ever pick it is not
settled, hence the patience and the outcome `exhausted`.
-/
import PeerOverlay.Topology.Params
import PeerOverlay.Topology.Graph
import PeerOverlay.Random.Draws

namespace PeerOverlay

/-- A lattice slot: the edge from a node to the one `offset` places further on. -/
structure Slot where
  node : NodeId
  offset : Nat
deriving DecidableEq, Repr

/-- The far end of a slot's lattice edge on a ring of `n` nodes. -/
def Slot.far (s : Slot) (n : Nat) : NodeId :=
  (s.node + s.offset) % n

/-- The slots of a lattice in the order they are visited: inner rings first, and each
ring from node zero on. -/
def latticeSlots (n half : Nat) : List Slot :=
  (List.range half).flatMap fun i => (List.range n).map fun v => ⟨v, i + 1⟩

/-- The ring lattice: one edge a slot. -/
def Graph.lattice (n half : Nat) : Graph :=
  (latticeSlots n half).foldl (fun g s => g.link s.node (s.far n)) (.edgeless n)

/-- A graph under construction and the number of words drawn so far. -/
structure Wiring where
  graph : Graph
  drawn : Nat
deriving DecidableEq, Repr

namespace Wiring

/-- Visits one slot: one word decides whether its edge is moved, and the words after it
pick the new far end.  It answers `none` if `patience` words pick no new end. -/
def visit (source : DrawSource) (n : Nat) (p : Binary64) (patience : Nat)
    (w : Wiring) (s : Slot) : Option Wiring :=
  let drawn := w.drawn + 1
  if !p.exceeds (chanceSteps (source.word w.drawn)) then some ⟨w.graph, drawn⟩
  else
    let taken := w.graph.neighbors s.node
    if n - 1 ≤ taken.length then some ⟨w.graph, drawn⟩
    else
      match search source n (fun t => t ≠ s.node && !taken.contains t) patience drawn with
      | some (target, drawn) =>
        some ⟨(w.graph.unlink s.node (s.far n)).link s.node target, drawn⟩
      | none => none

/-- Visits slots in order. -/
def visitAll (source : DrawSource) (n : Nat) (p : Binary64) (patience : Nat)
    (w : Wiring) : List Slot → Option Wiring
  | [] => some w
  | s :: rest =>
    match w.visit source n p patience s with
    | some w => w.visitAll source n p patience rest
    | none => none

end Wiring

/-- Why no small-world graph was drawn. -/
inductive DrawError
  /-- The parameters fit no graph. -/
  | invalid (cause : TopologyError)
  /-- A search for a new far end used up its patience. -/
  | exhausted
deriving DecidableEq, Repr

/-- Draws a small-world graph of `n` nodes. -/
def smallWorld (n : Nat) (params : SmallWorldParams) (source : DrawSource) (patience : Nat) :
    Except DrawError Wiring :=
  match params.check n with
  | .error e => .error (.invalid e)
  | .ok () =>
    if n = 1 then .ok ⟨.edgeless 1, 0⟩
    else
      let half := params.k / 2
      match (Wiring.mk (.lattice n half) 0).visitAll source n params.p patience
          (latticeSlots n half) with
      | some w => .ok w
      | none => .error .exhausted

/-- A patience that no stream of independent words uses up in practice. -/
def ampleDraws : Nat :=
  1 <<< 48

end PeerOverlay
