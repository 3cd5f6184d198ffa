/-
Parameters of a small-world graph.

`SmallWorldParams.check` decides whether a graph of `numNodes` nodes can be built:
at least one node, a rewiring probability in the unit interval, and an even number
of lattice neighbours from two up to one less than the number of nodes.  A single
node has no lattice, so there the last bound does not apply.
-/
import PeerOverlay.Topology.Basic

namespace PeerOverlay

/-- How a small-world graph is drawn. -/
structure SmallWorldParams where
  /-- Lattice neighbours of each node before rewiring. -/
  k : Nat := 8
  /-- Probability that a lattice edge is moved to a random node. -/
  p : Binary64
deriving DecidableEq, Repr

/-- The probability taken where none is given: one tenth. -/
def defaultProbability : Binary64 :=
  Binary64.ofDecimal false 1 (-1)

/-- Whether a graph of `numNodes` nodes can be built; of several faults the first in
this order is reported. -/
def SmallWorldParams.check (params : SmallWorldParams) (numNodes : Nat) :
    Except TopologyError Unit :=
  if numNodes = 0 then .error .noNodes
  else if !params.p.inUnitInterval then .error (.invalidProbability params.p)
  else if params.k % 2 ≠ 0 then .error (.oddNeighborCount params.k)
  else if params.k < 2 then .error (.neighborCountTooSmall params.k)
  else if 1 < numNodes ∧ numNodes ≤ params.k then
    .error (.neighborCountTooLarge params.k numNodes)
  else .ok ()

theorem SmallWorldParams.check_eq_ok_iff {params : SmallWorldParams} {numNodes : Nat} :
    params.check numNodes = .ok () ↔
      numNodes ≠ 0 ∧ params.p.inUnitInterval = true ∧ params.k % 2 = 0 ∧ 2 ≤ params.k ∧
        (1 < numNodes → params.k < numNodes) := by
  unfold check
  constructor
  · intro h
    split at h
    · cases h
    split at h
    · cases h
    split at h
    · cases h
    split at h
    · cases h
    split at h
    · cases h
    next h0 hp hk h2 hn => exact ⟨h0, by simpa using hp, by omega, by omega, by omega⟩
  · rintro ⟨h0, hp, hk, h2, hn⟩
    rw [if_neg h0, if_neg (by simp [hp]), if_neg (by omega), if_neg (by omega),
      if_neg (by omega)]

end PeerOverlay
