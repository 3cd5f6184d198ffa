/-
No node of a run is isolated.

However many edges are rewired, a node keeps the edges that its own lattice slots own, at
least one of them in a graph of more than one node.  A summary therefore lists isolated
nodes only for the graph of a single node.
-/
import PeerOverlay.Proofs.Generation.Build
import PeerOverlay.Proofs.Generation.Storing

namespace PeerOverlay

variable {c : Config} {fresh : DrawSource} {patience : Nat} {w : Wiring}

/-- The isolated nodes of the records on a graph are those without neighbours in it. -/
theorem isolatedNodes_recordsOn (g : Graph) :
    isolatedNodes (c.recordsOn g) =
      (List.range c.network.numNodes).filter fun v => (g.neighbors v).isEmpty := by
  have hempty : ((fun r : NodeRecord => r.neighbors.isEmpty) ∘ fun v =>
      c.ports.record c.network.transport c.network.host v (g.neighbors v)) =
        fun v => (g.neighbors v).isEmpty := by
    funext v
    exact List.isEmpty_map
  have hnode : (NodeRecord.node ∘ fun v =>
      c.ports.record c.network.transport c.network.host v (g.neighbors v)) = id := rfl
  rw [isolatedNodes, Config.recordsOn, List.filter_map, List.map_map, hempty, hnode, List.map_id]

theorem isolatedNodes_of_drawOverlay (h : c.validate = .ok ())
    (hw : c.drawOverlay fresh patience = .ok w) :
    isolatedNodes (c.recordsOn w.graph) = if c.network.numNodes = 1 then [0] else [] := by
  have hcheck := Config.check_of_validate h
  rw [Config.drawOverlay] at hw
  rw [isolatedNodes_recordsOn]
  split
  next hone =>
    rw [hone] at hcheck hw ⊢
    simp only [neighbors_of_smallWorld_one hcheck hw]
    rfl
  next hone =>
    have hn : 1 < c.network.numNodes := by
      have hpos := SmallWorldParams.pos_of_check hcheck
      omega
    -- A node without neighbours would own no slot.
    refine List.filter_eq_nil_iff.mpr fun v hv hempty => ?_
    have hhalf := SmallWorldParams.one_le_half hcheck
    have hdegree := half_le_degree_of_smallWorld hcheck hn hw (List.mem_range.mp hv)
    rw [List.isEmpty_iff.mp hempty, List.length_nil] at hdegree
    omega

/-- **Slots own the edges, so no node is isolated.**  In a graph of more than one node,
edges and lattice slots are in one-to-one correspondence, and a slot whose visit leaves
its edge alone owns its lattice edge; `v` is the wiring that the visit finds.  Hence every
node has at least `k / 2` neighbours, and a run lists none as isolated unless it is the
only node. -/
theorem slots_own_edges_isolated :
    (∀ (n : Nat) (params : SmallWorldParams) (source : DrawSource) (patience : Nat),
      1 < n → params.check n = .ok () →
      smallWorld n params source patience ≠ .error .exhausted →
      ∃ (w : Wiring) (far : Slot → NodeId), smallWorld n params source patience = .ok w ∧
        Set.BijOn (fun s : Slot => s(s.node, far s))
          {s | s.node < n ∧ 1 ≤ s.offset ∧ s.offset ≤ params.k / 2} w.graph.edges ∧
        (∀ front s back, latticeSlots n (params.k / 2) = front ++ s :: back →
          ∃ v, (Wiring.mk (.lattice n (params.k / 2)) 0).visitAll source n params.p patience
              front = some v ∧
            (v.Keeps source n params.p s → far s = (s.node + s.offset) % n)) ∧
        ∀ v < n, ∃ degree, w.graph.degree v = .ok degree ∧
          1 ≤ params.k / 2 ∧ params.k / 2 ≤ degree) ∧
    ∀ (σ : Type) (c : Config) (fresh : DrawSource) (patience : Nat) (store : Store σ)
      (s s' : σ) (summary : Summary),
      generateInto c fresh patience store s = (.ok summary, s') →
        summary.isolated = if c.network.numNodes = 1 then [0] else [] := by
  constructor
  · intro n params source patience hn hc hends
    obtain ⟨w, hw⟩ := exists_smallWorld_eq_ok hc hends
    obtain ⟨far, howned, hkeeps⟩ := exists_ownedBy hc hw
    rw [params.slots_of_one_lt hn] at howned hkeeps
    rw [Wiring.start_of_one_lt params hn] at hkeeps
    have hslots : {s | s ∈ latticeSlots n (params.k / 2)} =
        {s | s.node < n ∧ 1 ≤ s.offset ∧ s.offset ≤ params.k / 2} := by
      ext ⟨v, i⟩
      exact mk_mem_latticeSlots
    refine ⟨w, far, hw, hslots ▸ howned.bijOn, hkeeps, fun v hv => ?_⟩
    exact ⟨_, map_eq_ok_iff.mpr ⟨_, howned.simpleOn.neighborsOf_eq hv, rfl⟩,
      SmallWorldParams.one_le_half hc, half_le_degree_of_smallWorld hc hn hw hv⟩
  · intro σ c fresh patience store s s' summary hrun
    obtain ⟨g, records, hbuild, -, rfl⟩ := generateInto_eq_ok_iff.mp hrun
    obtain ⟨h, w, hw, rfl, rfl⟩ := buildRecords_eq_ok_iff.mp hbuild
    exact isolatedNodes_of_drawOverlay h hw

/-- A sink that counts records. -/
def countingSink : Store Nat := fun _ stored =>
  (.ok (), stored + 1)

/-- Six nodes have twelve slots and none is isolated; a single node is. -/
theorem slots_own_edges_isolated_six :
    (∃ (w : Wiring) (far : Slot → NodeId),
      smallWorld 6 ⟨4, ⟨0x3FF0000000000000⟩⟩ weylSource 64 = .ok w ∧
        Set.BijOn (fun s : Slot => s(s.node, far s))
          {s | s.node < 6 ∧ 1 ≤ s.offset ∧ s.offset ≤ 2} w.graph.edges ∧
        (∀ front s back, latticeSlots 6 2 = front ++ s :: back →
          ∃ v, (Wiring.mk (.lattice 6 2) 0).visitAll weylSource 6 ⟨0x3FF0000000000000⟩ 64
              front = some v ∧
            (v.Keeps weylSource 6 ⟨0x3FF0000000000000⟩ s → far s = (s.node + s.offset) % 6)) ∧
        ∀ v < 6, ∃ degree, w.graph.degree v = .ok degree ∧ 1 ≤ 2 ∧ 2 ≤ degree) ∧
    (generateInto .sixNodes weylSource 64 countingSink 0 = (.ok ⟨6, 12, [], 6, 0⟩, 6) ∧
      ([] : List NodeId) = if 6 = 1 then [0] else []) ∧
    generateInto { network := { numNodes := 1 } } weylSource 64 countingSink 0 =
      (.ok ⟨1, 0, [0], 1, 0⟩, 1) ∧ ([0] : List NodeId) = if 1 = 1 then [0] else [] := by
  have hsix : generateInto .sixNodes weylSource 64 countingSink 0 =
      (.ok ⟨6, 12, [], 6, 0⟩, 6) := by
    decide +kernel
  have hone : generateInto { network := { numNodes := 1 } } weylSource 64 countingSink 0 =
      (.ok ⟨1, 0, [0], 1, 0⟩, 1) := by
    decide +kernel
  obtain ⟨hedges, hisolated⟩ := slots_own_edges_isolated
  exact ⟨hedges 6 ⟨4, ⟨0x3FF0000000000000⟩⟩ weylSource 64 (by decide) (by decide +kernel)
      (by decide +kernel),
    ⟨hsix, hisolated Nat .sixNodes weylSource 64 countingSink 0 6 _ hsix⟩,
    hone, hisolated Nat _ weylSource 64 countingSink 0 1 _ hone⟩

end PeerOverlay
