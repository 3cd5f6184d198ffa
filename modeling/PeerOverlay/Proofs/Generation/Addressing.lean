/-
Addresses of a run lead to its nodes.

A record names its neighbours by endpoints alone.  An endpoint is computed from the TCP
base and the number of a neighbour, the port of that neighbour's own record from counters
that are handed on from record to record; `NodeRecord.Addressed` says that the two agree
and that every neighbour lists the node in turn.

* `nodeId?_receiver` — the node is read back from the endpoint of its receiver;
* `addressed_record` — the records on a simple graph are addressed if the port ranges hold
  its nodes;
* `buildRecords_addressed` — all records of a run from a valid configuration are.
-/
import PeerOverlay.Proofs.Endpoint
import PeerOverlay.Proofs.Generation.Build

namespace PeerOverlay

variable {transport : Transport} {host : String} {bases : BasePorts} {u v : Nat}

/-! ### Receivers -/

theorem toNat_port_receiver (hv : bases.Fits v) :
    (bases.receiver transport host v).port.toNat = bases.tcp.toNat + v :=
  Endpoint.toNat_port_of_forNode (endpoint_forNode_of_fits hv)

theorem nodeId?_receiver (hv : bases.Fits v) :
    (bases.receiver transport host v).nodeId? bases = some v :=
  Endpoint.nodeId?_of_forNode (endpoint_forNode_of_fits hv)

/-- Receivers ascend with their nodes. -/
theorem port_receiver_lt (hv : bases.Fits v) (huv : u < v) :
    (bases.receiver transport host u).port < (bases.receiver transport host v).port := by
  have hu : bases.Fits u := hv.mono (Nat.le_of_lt huv)
  rw [UInt16.lt_iff_toNat_lt, toNat_port_receiver hu, toNat_port_receiver hv]
  exact Nat.add_lt_add_left huv _

/-! ### Records -/

/-- The record of node `v` among all records of a run: its values are base plus node, and
every endpoint that it lists is the receiver of another node, which lists `v` in turn.
The nodes so listed are the neighbours of `v` in the graph. -/
structure NodeRecord.Addressed (r : NodeRecord) (c : Config) (g : Graph)
    (records : List NodeRecord) (v : Nat) : Prop where
  node : r.node = v
  value : ∀ resource, r.ports.get resource = c.ports.base resource + v
  shared : ∀ e ∈ r.neighbors, e.transport = c.network.transport ∧ e.host = c.network.host
  nodup : r.neighbors.Nodup
  ascending : r.neighbors.Pairwise fun e e' => e.port < e'.port
  answered : ∀ e ∈ r.neighbors, ∃ u s, e.nodeId? c.ports = some u ∧
    u < c.network.numNodes ∧ u ≠ v ∧ records[u]? = some s ∧
      e.port = s.ports.tcpReceiverPort ∧ ∃ e' ∈ s.neighbors, e'.port = r.ports.tcpReceiverPort
  neighborsOf : ∃ l, g.neighborsOf v = .ok l ∧
    r.neighbors.map (·.nodeId? c.ports) = l.map some

variable {c : Config} {g : Graph} {fresh : DrawSource} {patience : Nat}

/-- Records on a simple graph whose nodes fit the port ranges are addressed. -/
theorem addressed_record (hg : g.SimpleOn c.network.numNodes)
    (hfits : ∀ v < c.network.numNodes, c.ports.Fits v) (hv : v < c.network.numNodes) :
    (c.ports.record c.network.transport c.network.host v (g.neighbors v)).Addressed c g
      (c.recordsOn g) v := by
  have hneighbor : ∀ u ∈ g.neighbors v, u < c.network.numNodes ∧ c.ports.Fits u := by
    intro u hu
    exact ⟨hg.lt_of_mem hu, hfits u (hg.lt_of_mem hu)⟩
  have hascending : ((g.neighbors v).map
      (c.ports.receiver c.network.transport c.network.host)).Pairwise
        fun e e' => e.port < e'.port := by
    refine List.pairwise_map.mpr ((hg.simple.ascending v).imp_of_mem fun _ hb hab => ?_)
    exact port_receiver_lt (hneighbor _ hb).2 hab
  refine ⟨rfl, BasePorts.get_block (hfits v hv), ?_, ?_, hascending, ?_, ?_⟩
  · intro e he
    obtain ⟨u, -, rfl⟩ := List.mem_map.mp he
    exact ⟨rfl, rfl⟩
  · refine List.Pairwise.imp (fun {e e'} hlt he => ?_) hascending
    subst he
    exact UInt16.lt_irrefl _ hlt
  · intro e he
    obtain ⟨u, hu, rfl⟩ := List.mem_map.mp he
    obtain ⟨hlt, hfit⟩ := hneighbor u hu
    have hne : u ≠ v := fun heq => hg.simple.irrefl v (heq ▸ hu)
    -- The neighbour's record lists the receiver of `v` because the graph is symmetric.
    exact ⟨u, _, nodeId?_receiver hfit, hlt, hne, Config.getElem?_recordsOn g hlt, rfl,
      _, List.mem_map_of_mem (hg.simple.symm hu), rfl⟩
  · refine ⟨g.neighbors v, hg.neighborsOf_eq hv, ?_⟩
    rw [BasePorts.record, List.map_map]
    exact List.map_congr_left fun u hu => nodeId?_receiver (hneighbor u hu).2

/-- **Every address of a run leads to a node that points back.**  A valid configuration
yields one addressed record a node, in ascending order. -/
theorem buildRecords_addressed (h : c.validate = .ok ())
    (hends : c.SamplingEnds fresh patience) :
    ∃ g records, buildRecords c fresh patience = .ok (g, records) ∧
      records.length = c.network.numNodes ∧
      ∀ v < c.network.numNodes, ∃ r, records[v]? = some r ∧ r.Addressed c g records v := by
  obtain ⟨w, hw⟩ := Config.exists_drawOverlay_eq_ok h hends
  have hgraph := Config.simpleOn_of_drawOverlay h hw
  refine ⟨w.graph, c.recordsOn w.graph, buildRecords_of_drawOverlay h hw,
    Config.length_recordsOn _, fun v hv => ?_⟩
  exact ⟨_, Config.getElem?_recordsOn _ hv,
    addressed_record hgraph (fun _ => Config.fits_of_validate h) hv⟩

/-- The six nodes of a rewired overlay address each other. -/
theorem buildRecords_addressed_sixNodes :
    ∃ g records, buildRecords .sixNodes weylSource 64 = .ok (g, records) ∧
      records.length = 6 ∧
      ∀ v < 6, ∃ r, records[v]? = some r ∧ r.Addressed .sixNodes g records v :=
  buildRecords_addressed (by decide +kernel) fun _ => by decide +kernel

end PeerOverlay
