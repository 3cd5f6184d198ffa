/-
When a run fails.

Five later steps of a run check again what validation has checked, each in its own terms:
the parameters of the graph, the number of its nodes, the last node of every port range,
each node in turn and each neighbour in turn.  `Config.PassesLaterChecks` lists them.  A
valid configuration passes all of them on the overlay that it draws
(`passesLaterChecks_of_drawOverlay`), so a run fails with the error of its validation or
with that of its sink (`validate_exact`).
-/
import PeerOverlay.Proofs.Generation.Build
import PeerOverlay.Proofs.Generation.Storing

namespace PeerOverlay

variable {c : Config} {g : Graph} {fresh : DrawSource} {patience : Nat} {w : Wiring}

/-- The checks that follow validation succeed on a graph, at every node that the run comes
to and at every neighbour that it looks up there. -/
structure Config.PassesLaterChecks (c : Config) (g : Graph) : Prop where
  params : c.topology.params.check c.network.numNodes = .ok ()
  nodeCount : g.toTopology.numNodes = c.network.numNodes
  capacity : c.ports.checkCapacity c.network.numNodes = .ok ()
  start : ∃ run, Configurator.start c.network.numNodes c.ports g.toTopology
    c.network.transport c.network.host = .ok run ∧ run.counters = ⟨c.ports, 0⟩
  allocate : ∀ v < c.network.numNodes, ∃ block,
    PortCounters.allocate ⟨c.ports, v⟩ = .ok (block, ⟨c.ports, v + 1⟩)
  query : ∀ v < c.network.numNodes, ∃ l, g.toTopology.neighborsOf v = .ok l ∧
    ∀ u ∈ l, ∃ e, Endpoint.forNode c.network.transport c.network.host c.ports u = .ok e

theorem passesLaterChecks_of_drawOverlay (h : c.validate = .ok ())
    (hw : c.drawOverlay fresh patience = .ok w) : c.PassesLaterChecks w.graph := by
  have hgraph := Config.simpleOn_of_drawOverlay h hw
  have hcapacity := Config.checkCapacity_of_validate h
  refine ⟨Config.check_of_validate h, hgraph.numNodes, hcapacity, ?_, ?_, ?_⟩
  · exact ⟨_, Configurator.start_eq_ok _ _ hgraph.numNodes hcapacity, rfl⟩
  · intro v hv
    exact ⟨_, PortCounters.allocate_eq_ok_iff.mpr ⟨Config.fits_of_validate h hv, rfl⟩⟩
  · intro v hv
    refine ⟨w.graph.neighbors v, hgraph.neighborsOf_eq hv, fun u hu => ?_⟩
    -- A neighbour is a node, so it fits the TCP range as all nodes do.
    have hfits := Config.fits_of_validate h (hgraph.lt_of_mem hu)
    exact ⟨_, endpoint_forNode_eq_ok_iff.mpr ⟨hfits .tcpReceiver, rfl⟩⟩

theorem buildRecords_eq_error_iff (hends : c.SamplingEnds fresh patience) {e : RunError} :
    buildRecords c fresh patience = .error e ↔
      ∃ cause, c.validate = .error cause ∧ e = .invalid cause := by
  constructor
  · intro hbuild
    rcases h : c.validate with cause | ⟨⟩
    · rw [buildRecords_of_invalid h] at hbuild
      exact ⟨cause, rfl, (Except.error.inj hbuild).symm⟩
    · obtain ⟨w, hw⟩ := Config.exists_drawOverlay_eq_ok h hends
      rw [buildRecords_of_drawOverlay h hw] at hbuild
      cases hbuild
  · rintro ⟨cause, h, rfl⟩
    exact buildRecords_of_invalid h

/-- **Validation is exactly as strong as a run needs.**  Unless the random source gives
out, records fail to be built exactly if validation fails, and with its error.  A valid
configuration passes every later check, so a run into a sink fails only at a record that
the sink refuses. -/
theorem validate_exact (hends : c.SamplingEnds fresh patience) :
    (∀ e, buildRecords c fresh patience = .error e ↔
      ∃ cause, c.validate = .error cause ∧ e = .invalid cause) ∧
    (c.validate = .ok () →
      (∃ w, c.drawOverlay fresh patience = .ok w ∧ c.PassesLaterChecks w.graph) ∧
      ∀ (σ : Type) (store : Store σ) (s s' : σ) (e : RunError),
        generateInto c fresh patience store s = (.error e, s') →
          ∃ g records front r back t cause,
            buildRecords c fresh patience = .ok (g, records) ∧ records = front ++ r :: back ∧
              storeAll store front s = (.ok (), t) ∧ store r t = (.error cause, s') ∧
                e = .store r.node cause) := by
  refine ⟨fun e => buildRecords_eq_error_iff hends, fun h => ⟨?_, ?_⟩⟩
  · obtain ⟨w, hw⟩ := Config.exists_drawOverlay_eq_ok h hends
    exact ⟨w, hw, passesLaterChecks_of_drawOverlay h hw⟩
  · intro σ store s s' e hrun
    rcases generateInto_eq_error_iff.mp hrun with ⟨hbuild, -⟩ | ⟨g, records, hbuild, hstored⟩
    · -- A valid configuration leaves no error to the building of records.
      obtain ⟨cause, hinvalid, -⟩ := (buildRecords_eq_error_iff hends).mp hbuild
      rw [h] at hinvalid
      cases hinvalid
    · obtain ⟨front, r, back, t, cause, hrecords, hfront, hr, he⟩ :=
        storeAll_eq_error_iff.mp hstored
      exact ⟨g, records, front, r, back, t, cause, hbuild, hrecords, hfront, hr, he⟩

/-- A sink that counts records and refuses the one of node three. -/
def refusingSink : Store Nat := fun r stored =>
  if r.node = 3 then (.error (.write 3 (.ofText "node_3.ini") .permissionDenied), stored)
  else (.ok (), stored + 1)

/-- A run into the refusing sink stops there after three records. -/
theorem validate_exact_refusingSink :
    (∀ e, buildRecords .sixNodes weylSource 64 = .error e ↔
      ∃ cause, Config.sixNodes.validate = .error cause ∧ e = .invalid cause) ∧
    (∃ w, Config.sixNodes.drawOverlay weylSource 64 = .ok w ∧
      Config.sixNodes.PassesLaterChecks w.graph) ∧
    ∃ g records front r back t cause,
      buildRecords .sixNodes weylSource 64 = .ok (g, records) ∧ records = front ++ r :: back ∧
        storeAll refusingSink front 0 = (.ok (), t) ∧ refusingSink r t = (.error cause, 3) ∧
          RunError.store 3 (.write 3 (.ofText "node_3.ini") .permissionDenied) =
            .store r.node cause := by
  have hvalid : Config.sixNodes.validate = .ok () := by decide +kernel
  have hends : Config.sixNodes.SamplingEnds weylSource 64 := fun _ => by decide +kernel
  obtain ⟨hbuild, hrest⟩ := validate_exact hends
  obtain ⟨hdrawn, hsink⟩ := hrest hvalid
  exact ⟨hbuild, hdrawn, hsink Nat refusingSink 0 3 _ (by decide +kernel)⟩

end PeerOverlay
