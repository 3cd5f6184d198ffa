/-
A configurator over a topology that answers every query.

* `endpoint_forNode_eq_ok_iff` — a node has a receiver endpoint when it fits the TCP
  range;
* `configureNode_eq_ok` — a node that fits, with neighbours that fit, gets its record;
* `Configurator.collect_start` — if the last node fits and all queries are answered with
  nodes, the run is one record a node, in ascending order.
-/
import PeerOverlay.Configurator
import PeerOverlay.Proofs.Ports.Capacity

namespace PeerOverlay

variable {transport : Transport} {host : String} {bases : BasePorts}

/-- The receiver of a node: TCP base plus node. -/
def BasePorts.receiver (bases : BasePorts) (transport : Transport) (host : String)
    (node : NodeId) : Endpoint :=
  ⟨transport, host, (bases.block node).tcpReceiverPort⟩

theorem endpoint_forNode_eq_ok_iff {node : NodeId} {e : Endpoint} :
    Endpoint.forNode transport host bases node = .ok e ↔
      bases.base .tcpReceiver + node ≤ Resource.maxValue .tcpReceiver ∧
        e = bases.receiver transport host node := by
  rw [Endpoint.forNode, map_eq_ok_iff]
  simp only [BasePorts.valueFor_eq_ok_iff]
  constructor
  · rintro ⟨port, ⟨rfl, hle⟩, rfl⟩
    exact ⟨hle, rfl⟩
  · rintro ⟨hle, rfl⟩
    exact ⟨_, ⟨rfl, hle⟩, rfl⟩

theorem endpoint_forNode_of_fits {node : NodeId} (h : bases.Fits node) :
    Endpoint.forNode transport host bases node = .ok (bases.receiver transport host node) :=
  endpoint_forNode_eq_ok_iff.mpr ⟨h .tcpReceiver, rfl⟩

theorem endpointsFor_eq_ok {nodes : List NodeId} (h : ∀ u ∈ nodes, bases.Fits u) :
    endpointsFor transport host bases nodes =
      .ok (nodes.map (bases.receiver transport host)) := by
  induction nodes with
  | nil => rfl
  | cons u rest ih =>
    obtain ⟨hu, hrest⟩ := List.forall_mem_cons.mp h
    rw [endpointsFor, endpoint_forNode_of_fits hu, ih hrest]
    rfl

/-- The record of a node with given neighbours. -/
def BasePorts.record (bases : BasePorts) (transport : Transport) (host : String)
    (node : NodeId) (neighbors : List NodeId) : NodeRecord :=
  ⟨bases.block node, neighbors.map (bases.receiver transport host)⟩

theorem configureNode_eq_ok (transport : Transport) (host : String)
    {counters : PortCounters} {topology : Topology} {neighbors : List NodeId}
    (hfits : counters.bases.Fits counters.nextNode)
    (hquery : topology.neighborsOf counters.nextNode = .ok neighbors)
    (hneighbors : ∀ u ∈ neighbors, counters.bases.Fits u) :
    configureNode counters topology transport host =
      .ok (counters.bases.record transport host counters.nextNode neighbors,
        ⟨counters.bases, counters.nextNode + 1⟩) := by
  have hallocate := PortCounters.allocate_eq_ok_iff.mpr ⟨hfits, rfl⟩
  have hquery : topology.neighborsOf (counters.bases.block counters.nextNode).node =
      .ok neighbors := hquery
  simp only [configureNode, hallocate, hquery, endpointsFor_eq_ok hneighbors]
  rfl

namespace Configurator

/-- The nodes still to come are answered with nodes that fit. -/
structure Answered (c : Configurator) (neighbors : NodeId → List NodeId) : Prop where
  failed : c.failed = false
  fits : ∀ v < c.numNodes, c.counters.bases.Fits v
  query : ∀ v < c.numNodes, c.topology.neighborsOf v = .ok (neighbors v)
  lt_numNodes : ∀ v < c.numNodes, ∀ u ∈ neighbors v, u < c.numNodes

variable {c : Configurator} {neighbors : NodeId → List NodeId}

theorem pull_eq_some (h : c.Answered neighbors) (hnext : c.nextNode < c.numNodes) :
    c.pull =
      (some (.ok (c.counters.bases.record c.transport c.host c.nextNode
        (neighbors c.nextNode))),
      { c with counters := ⟨c.counters.bases, c.nextNode + 1⟩ }) := by
  have hneighbors : ∀ u ∈ neighbors c.nextNode, c.counters.bases.Fits u :=
    fun u hu => h.fits u (h.lt_numNodes _ hnext u hu)
  have hconfigure := configureNode_eq_ok c.transport c.host (h.fits _ hnext)
    (h.query _ hnext) hneighbors
  rw [pull, h.failed, Bool.false_or, if_neg (by simpa using hnext), hconfigure]
  rfl

theorem take_eq_ok (count : Nat) :
    ∀ {c : Configurator}, c.Answered neighbors → c.nextNode + count = c.numNodes →
      take count c = .ok ((List.range' c.nextNode count).map fun v =>
        c.counters.bases.record c.transport c.host v (neighbors v)) := by
  -- Pulling advances the counters, so the configurator varies with the count.
  induction count with
  | zero =>
    intro c _ _
    rfl
  | succ count ih =>
    intro c h hcount
    have hnext : c.nextNode < c.numNodes :=
      hcount ▸ Nat.lt_add_of_pos_right count.succ_pos
    have hpull := pull_eq_some h hnext
    -- The run goes on with the counters after the record just pulled.
    have hadvanced : (c.nextNode + 1) + count = c.numNodes := by
      rw [Nat.add_assoc, Nat.add_comm 1 count]
      exact hcount
    have hrest := ih (c := { c with counters := ⟨c.counters.bases, c.nextNode + 1⟩ })
      ⟨h.failed, h.fits, h.query, h.lt_numNodes⟩ hadvanced
    rw [take, hpull]
    simp only [hrest]
    rw [List.range'_succ, List.map_cons]
    rfl

variable {numNodes : Nat} {topology : Topology}

theorem start_eq_ok (transport : Transport) (host : String)
    (hnodes : topology.numNodes = numNodes)
    (hcapacity : bases.checkCapacity numNodes = .ok ()) :
    start numNodes bases topology transport host =
      .ok ⟨topology, .start bases, numNodes, transport, host, false⟩ := by
  rw [start, if_neg (by simpa using hnodes), hcapacity]

/-- **A run that is answered throughout is one record a node.** -/
theorem collect_start (hnodes : topology.numNodes = numNodes)
    (hcapacity : bases.checkCapacity numNodes = .ok ())
    (hquery : ∀ v < numNodes, topology.neighborsOf v = .ok (neighbors v))
    (hlt : ∀ v < numNodes, ∀ u ∈ neighbors v, u < numNodes) :
    ∃ c, start numNodes bases topology transport host = .ok c ∧
      c.collect = .ok ((List.range numNodes).map fun v =>
        bases.record transport host v (neighbors v)) := by
  refine ⟨_, start_eq_ok transport host hnodes hcapacity, ?_⟩
  rw [List.range_eq_range']
  refine take_eq_ok numNodes ⟨rfl, fun v hv => ?_, hquery, hlt⟩ (Nat.zero_add _)
  exact BasePorts.fits_of_checkCapacity hcapacity hv

end Configurator

end PeerOverlay
