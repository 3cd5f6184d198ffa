/-
What a run builds from a valid configuration.

Validation checks, before anything is drawn, all that the later steps check again: the
parameters of the graph and the last node of every port range.  The overlay that is drawn
has as many nodes as asked for and names no others, so every query of the run over its
nodes is answered with nodes that fit.

* `Config.validate_eq_ok_iff` — a configuration is valid when it passes all five checks;
* `buildRecords_of_invalid` — an invalid configuration fails with the error of its
  validation;
* `buildRecords_eq_ok_iff` — a run that builds anything builds the drawn graph and one
  record a node.
-/
import PeerOverlay.Generation
import PeerOverlay.Proofs.Configurator
import PeerOverlay.Proofs.Topology.SmallWorld

namespace PeerOverlay

variable {c : Config} {fresh : DrawSource} {patience : Nat} {w : Wiring}

namespace Config

theorem validate_eq_ok_iff :
    c.validate = .ok () ↔
      c.checkGeneral = .ok () ∧ c.checkNetwork = .ok () ∧
        c.topology.params.check c.network.numNodes = .ok () ∧
        c.ports.checkCapacity c.network.numNodes = .ok () ∧ c.checkNode = .ok () := by
  simp only [validate, bind_eq_ok_iff, mapError_eq_ok_iff]
  constructor
  · rintro ⟨⟨⟩, hgeneral, ⟨⟩, hnetwork, ⟨⟩, hcheck, ⟨⟩, hcapacity, hnode⟩
    exact ⟨hgeneral, hnetwork, hcheck, hcapacity, hnode⟩
  · rintro ⟨hgeneral, hnetwork, hcheck, hcapacity, hnode⟩
    exact ⟨(), hgeneral, (), hnetwork, (), hcheck, (), hcapacity, hnode⟩

theorem isValid_host_of_validate (h : c.validate = .ok ()) :
    Host.isValid c.network.host = true := by
  have hnetwork := (validate_eq_ok_iff.mp h).2.1
  rw [checkNetwork] at hnetwork
  split at hnetwork
  · cases hnetwork
  · split at hnetwork
    · cases hnetwork
    next hvalid => simpa using hvalid

theorem check_of_validate (h : c.validate = .ok ()) :
    c.topology.params.check c.network.numNodes = .ok () :=
  (validate_eq_ok_iff.mp h).2.2.1

theorem checkCapacity_of_validate (h : c.validate = .ok ()) :
    c.ports.checkCapacity c.network.numNodes = .ok () :=
  (validate_eq_ok_iff.mp h).2.2.2.1

/-- Every node of a valid configuration fits the port ranges. -/
theorem fits_of_validate (h : c.validate = .ok ()) {v : NodeId} (hv : v < c.network.numNodes) :
    c.ports.Fits v :=
  BasePorts.fits_of_checkCapacity (checkCapacity_of_validate h) hv

/-- The overlay that a run of the configuration draws. -/
def drawOverlay (c : Config) (fresh : DrawSource) (patience : Nat) : Except DrawError Wiring :=
  smallWorld c.network.numNodes c.topology.params (c.topology.draws fresh) patience

/-- The random source gives out every number that a run looks for.  Only a valid
configuration draws at all. -/
def SamplingEnds (c : Config) (fresh : DrawSource) (patience : Nat) : Prop :=
  c.validate = .ok () → c.drawOverlay fresh patience ≠ .error .exhausted

theorem exists_drawOverlay_eq_ok (h : c.validate = .ok ())
    (hends : c.SamplingEnds fresh patience) : ∃ w, c.drawOverlay fresh patience = .ok w :=
  exists_smallWorld_eq_ok (check_of_validate h) (hends h)

theorem simpleOn_of_drawOverlay (h : c.validate = .ok ())
    (hw : c.drawOverlay fresh patience = .ok w) : w.graph.SimpleOn c.network.numNodes :=
  simpleOn_of_smallWorld (check_of_validate h) hw

/-- The records of all nodes of a graph. -/
def recordsOn (c : Config) (g : Graph) : List NodeRecord :=
  (List.range c.network.numNodes).map fun v =>
    c.ports.record c.network.transport c.network.host v (g.neighbors v)

@[simp] theorem length_recordsOn (g : Graph) :
    (c.recordsOn g).length = c.network.numNodes := by
  simp [recordsOn]

theorem getElem?_recordsOn (g : Graph) {v : Nat} (hv : v < c.network.numNodes) :
    (c.recordsOn g)[v]? =
      some (c.ports.record c.network.transport c.network.host v (g.neighbors v)) := by
  simp [recordsOn, hv]

/-- The records before the one of a node are those of the nodes before it. -/
theorem recordsOn_eq_append {g : Graph} {front back : List NodeRecord} {r : NodeRecord}
    (h : c.recordsOn g = front ++ r :: back) :
    r.node < c.network.numNodes ∧ front = (List.range r.node).map fun v =>
      c.ports.record c.network.transport c.network.host v (g.neighbors v) := by
  have hlt : front.length < c.network.numNodes := by
    have hlength := congrArg List.length h
    rw [length_recordsOn, List.length_append, List.length_cons] at hlength
    omega
  have hnode : r.node = front.length := by
    have hget := getElem?_recordsOn g hlt
    rw [h, List.getElem?_append_right le_rfl, Nat.sub_self] at hget
    rw [Option.some.inj hget]
    rfl
  refine ⟨hnode ▸ hlt, ?_⟩
  have htake := congrArg (List.take front.length) h
  rw [List.take_left, recordsOn, ← List.map_take, List.take_range, Nat.min_eq_left hlt.le] at htake
  rw [hnode, htake]

end Config

theorem buildRecords_of_invalid {v : ValidationError} (h : c.validate = .error v) :
    buildRecords c fresh patience = .error (.invalid v) := by
  rw [buildRecords, h]
  rfl

/-- The run over the nodes of a drawn overlay starts and finds a record for each. -/
theorem collect_of_drawOverlay (h : c.validate = .ok ())
    (hw : c.drawOverlay fresh patience = .ok w) :
    ∃ run, Configurator.start c.network.numNodes c.ports w.graph.toTopology
        c.network.transport c.network.host = .ok run ∧
      run.collect = .ok (c.recordsOn w.graph) := by
  have hgraph := Config.simpleOn_of_drawOverlay h hw
  refine Configurator.collect_start hgraph.numNodes (Config.checkCapacity_of_validate h) ?_ ?_
  · intro v hv
    exact hgraph.neighborsOf_eq hv
  · intro v _ u hu
    exact hgraph.lt_of_mem hu

theorem buildRecords_of_drawOverlay (h : c.validate = .ok ())
    (hw : c.drawOverlay fresh patience = .ok w) :
    buildRecords c fresh patience = .ok (w.graph, c.recordsOn w.graph) := by
  obtain ⟨run, hstart, hcollect⟩ := collect_of_drawOverlay h hw
  rw [Config.drawOverlay] at hw
  simp only [buildRecords, bind_eq_ok_iff, mapError_eq_ok_iff]
  exact ⟨(), h, w, hw, run, hstart, c.recordsOn w.graph, hcollect, rfl⟩

/-- **A run that succeeds builds the drawn graph and one record a node.** -/
theorem buildRecords_eq_ok_iff {g : Graph} {records : List NodeRecord} :
    buildRecords c fresh patience = .ok (g, records) ↔
      c.validate = .ok () ∧ ∃ w, c.drawOverlay fresh patience = .ok w ∧
        g = w.graph ∧ records = c.recordsOn w.graph := by
  constructor
  · intro hbuild
    -- Validation and the drawn overlay decide all that comes after them.
    have hsteps := hbuild
    simp only [buildRecords, bind_eq_ok_iff, mapError_eq_ok_iff] at hsteps
    obtain ⟨⟨⟩, h, w, hw, -⟩ := hsteps
    rw [buildRecords_of_drawOverlay h hw] at hbuild
    obtain ⟨rfl, rfl⟩ := Prod.mk.inj (Except.ok.inj hbuild)
    exact ⟨h, w, hw, rfl, rfl⟩
  · rintro ⟨h, w, hw, rfl, rfl⟩
    exact buildRecords_of_drawOverlay h hw

/-- A valid configuration fails to build its records only for want of an overlay. -/
theorem buildRecords_eq_error_of_validate (h : c.validate = .ok ()) {e : RunError}
    (hbuild : buildRecords c fresh patience = .error e) : ∃ cause, e = .overlay cause := by
  rcases hw : c.drawOverlay fresh patience with cause | w
  · rw [Config.drawOverlay] at hw
    rw [buildRecords, h, hw] at hbuild
    exact ⟨cause, (Except.error.inj hbuild).symm⟩
  · rw [buildRecords_of_drawOverlay h hw] at hbuild
    cases hbuild

/-- Six nodes with four lattice neighbours each and a rewiring probability of one. -/
def Config.sixNodes : Config where
  network := { numNodes := 6 }
  topology := { k := 4, p := ⟨0x3FF0000000000000⟩ }

/-- Six nodes are wired whatever else is configured. -/
theorem exists_buildRecords_six (h : c.validate = .ok ())
    (hnetwork : c.network = Config.sixNodes.network)
    (htopology : c.topology = Config.sixNodes.topology) :
    ∃ g records, buildRecords c weylSource 64 = .ok (g, records) := by
  have hsix : Config.sixNodes.drawOverlay weylSource 64 ≠ .error .exhausted := by decide +kernel
  have hends : c.SamplingEnds weylSource 64 := by
    intro _
    rw [Config.drawOverlay, hnetwork, htopology]
    exact hsix
  obtain ⟨w, hw⟩ := Config.exists_drawOverlay_eq_ok h hends
  exact ⟨w.graph, c.recordsOn w.graph, buildRecords_of_drawOverlay h hw⟩

end PeerOverlay
