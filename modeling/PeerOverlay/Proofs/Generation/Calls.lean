/-
The calls that a run makes of its sink.

Any sink can be given a list of the calls made of it beside its own state, `recording`.  A run
into such a sink answers and ends as it would without the list, and the list shows what the
state of a sink may hide: which records were handed over, in which order, and what came of
each.

* `storeAll_recording_of_ok`, `storeAll_recording_of_error` — the calls of a run of stores;
* `generateInto_calls_in_order` — a run hands over all records in the order of their nodes, or
  those up to the first that is refused.
-/
import PeerOverlay.Proofs.Generation.Failure

namespace PeerOverlay

/-- One call of a sink: the record that it was given and what it answered. -/
structure StoreCall where
  record : NodeRecord
  answer : Except SinkError Unit

/-- A call that succeeded. -/
def StoreCall.stored (r : NodeRecord) : StoreCall :=
  ⟨r, .ok ()⟩

variable {σ : Type}

/-- A sink with a list of the calls made of it. -/
def recording (store : Store σ) : Store (σ × List StoreCall) := fun r (s, calls) =>
  ((store r s).1, (store r s).2, calls ++ [⟨r, (store r s).1⟩])

variable {store : Store σ} {records : List NodeRecord} {s s' : σ} {cause : SinkError}

theorem recording_eq {r : NodeRecord} {answer : Except SinkError Unit}
    (h : store r s = (answer, s')) (calls : List StoreCall) :
    recording store r (s, calls) = (answer, s', calls ++ [⟨r, answer⟩]) := by
  simp only [recording, h]

/-! ### A run of stores -/

theorem storeAll_recording_of_ok (h : storeAll store records s = (.ok (), s'))
    (calls : List StoreCall) :
    storeAll (recording store) records (s, calls) =
      (.ok (), s', calls ++ records.map .stored) := by
  induction records generalizing s calls with
  | nil =>
    obtain ⟨-, rfl⟩ := Prod.mk.inj h
    simp [storeAll]
  | cons r rest ih =>
    rcases hr : store r s with ⟨cause | ⟨⟩, t⟩
    · rw [storeAll_cons_of_error hr] at h
      cases (Prod.mk.inj h).1
    · rw [storeAll_cons_of_ok hr] at h
      rw [storeAll_cons_of_ok (recording_eq hr calls), ih h]
      simp [StoreCall.stored]

theorem storeAll_recording_of_error {front : List NodeRecord} {r : NodeRecord} {t : σ}
    (hfront : storeAll store front s = (.ok (), t)) (hr : store r t = (.error cause, s'))
    (back : List NodeRecord) (calls : List StoreCall) :
    storeAll (recording store) (front ++ r :: back) (s, calls) =
      (.error (.store r.node cause), s',
        calls ++ (front.map .stored ++ [⟨r, .error cause⟩])) := by
  rw [storeAll_append front _ (storeAll_recording_of_ok hfront calls),
    storeAll_cons_of_error (recording_eq hr _), List.append_assoc]

/-! ### A run into a sink -/

variable {c : Config} {fresh : DrawSource} {patience : Nat} {g : Graph} {e : RunError}

theorem generateInto_of_error (h : buildRecords c fresh patience = .error e) (store : Store σ)
    (s : σ) : generateInto c fresh patience store s = (.error e, s) :=
  generateInto_eq_error_iff.mpr (.inl ⟨h, rfl⟩)

/-- A run that has built its records hands over all of them, or all up to one that the sink
refuses. -/
theorem generateInto_recording (hbuild : buildRecords c fresh patience = .ok (g, records))
    (store : Store σ) (s : σ) :
    (∃ s', generateInto c fresh patience store s = (.ok (summarize g records), s') ∧
      generateInto c fresh patience (recording store) (s, []) =
        (.ok (summarize g records), s', records.map .stored)) ∨
    ∃ front r back t cause s', records = front ++ r :: back ∧
      storeAll store front s = (.ok (), t) ∧ store r t = (.error cause, s') ∧
      generateInto c fresh patience store s = (.error (.store r.node cause), s') ∧
      generateInto c fresh patience (recording store) (s, []) =
        (.error (.store r.node cause), s', front.map .stored ++ [⟨r, .error cause⟩]) := by
  rcases hstored : storeAll store records s with ⟨e | ⟨⟩, s'⟩
  · obtain ⟨front, r, back, t, cause, rfl, hfront, hr, rfl⟩ := storeAll_eq_error_iff.mp hstored
    have hcalls := storeAll_recording_of_error hfront hr back []
    rw [List.nil_append] at hcalls
    exact .inr ⟨front, r, back, t, cause, s', rfl, hfront, hr,
      generateInto_eq_error_iff.mpr (.inr ⟨g, _, hbuild, hstored⟩),
      generateInto_eq_error_iff.mpr (.inr ⟨g, _, hbuild, hcalls⟩)⟩
  · have hcalls := storeAll_recording_of_ok hstored []
    rw [List.nil_append] at hcalls
    exact .inl ⟨s', generateInto_eq_ok_iff.mpr ⟨g, records, hbuild, hstored, rfl⟩,
      generateInto_eq_ok_iff.mpr ⟨g, records, hbuild, hcalls, rfl⟩⟩

theorem map_node_recordsOn (c : Config) (g : Graph) :
    (c.recordsOn g).map NodeRecord.node = List.range c.network.numNodes := by
  have hnode : (NodeRecord.node ∘ fun v =>
      c.ports.record c.network.transport c.network.host v (g.neighbors v)) = id := rfl
  rw [Config.recordsOn, List.map_map, hnode, List.map_id]

/-- **A run hands the records of nodes 0, 1, 2 and so on to its sink,** each once, and none
after the first that is refused.  If no records can be built, the sink is not called at all.
If the sink refuses the record of node `j`, those before it were stored, and the error is the
one of that node.  If it refuses none, all were stored and the summary counts them. -/
theorem generateInto_calls_in_order (hends : c.SamplingEnds fresh patience) (store : Store σ)
    (s : σ) :
    ∃ answer s' calls, generateInto c fresh patience store s = (answer, s') ∧
      generateInto c fresh patience (recording store) (s, []) = (answer, s', calls) ∧
      (∀ e, buildRecords c fresh patience = .error e →
        answer = .error e ∧ s' = s ∧ calls = []) ∧
      (c.validate = .ok () → ∃ g records, buildRecords c fresh patience = .ok (g, records) ∧
        records.map NodeRecord.node = List.range c.network.numNodes ∧
        ((calls = records.map .stored ∧ ∃ summary, answer = .ok summary ∧
            summary.numNodes = c.network.numNodes ∧ summary.edges = g.edgeCount ∧
            summary.isolated = isolatedNodes records ∧ summary.written = c.network.numNodes ∧
            summary.staleRemoved = 0) ∨
          ∃ j r cause t, records[j]? = some r ∧
            calls = (records.take j).map .stored ++ [⟨r, .error cause⟩] ∧
            storeAll store (records.take j) s = (.ok (), t) ∧ store r t = (.error cause, s') ∧
            answer = .error (.store j cause))) := by
  rcases hbuild : buildRecords c fresh patience with e | ⟨g, records⟩
  · refine ⟨.error e, s, [], generateInto_of_error hbuild store s,
      generateInto_of_error hbuild _ _, ?_, ?_⟩
    · rintro e' he
      obtain rfl := Except.error.inj he
      exact ⟨rfl, rfl, rfl⟩
    · intro hvalid
      obtain ⟨cause, hinvalid, -⟩ := (buildRecords_eq_error_iff hends).mp hbuild
      rw [hvalid] at hinvalid
      cases hinvalid
  · obtain ⟨-, w, -, -, rfl⟩ := buildRecords_eq_ok_iff.mp hbuild
    have hlength := Config.length_recordsOn (c := c) w.graph
    have hnodes := map_node_recordsOn c w.graph
    rcases generateInto_recording hbuild store s with ⟨s', hrun, hcalls⟩ |
      ⟨front, r, back, t, cause, s', hsplit, hfront, hr, hrun, hcalls⟩
    · exact ⟨_, s', _, hrun, hcalls, nofun, fun _ => ⟨g, _, rfl, hnodes,
        .inl ⟨rfl, summarize g _, rfl, hlength, rfl, rfl, hlength, rfl⟩⟩⟩
    · -- The refused record stands at its node's place, so those before it are a prefix.
      obtain ⟨-, hbefore⟩ := Config.recordsOn_eq_append hsplit
      have hplace : front.length = r.node := by simp [hbefore]
      refine ⟨_, s', _, hrun, hcalls, nofun, fun _ => ⟨g, _, rfl, hnodes,
        .inr ⟨r.node, r, cause, t, ?_, ?_, ?_, hr, rfl⟩⟩⟩
      · simp [hsplit, ← hplace]
      · simp [hsplit, ← hplace]
      · simpa [hsplit, ← hplace] using hfront

/-- The sink that refuses node three is called four times. -/
theorem generateInto_calls_in_order_refusingSink :
    Config.sixNodes.SamplingEnds weylSource 64 ∧
      ∃ cause calls g records r,
        generateInto .sixNodes weylSource 64 (recording refusingSink) (0, []) =
          (.error (.store 3 cause), 3, calls) ∧
        buildRecords .sixNodes weylSource 64 = .ok (g, records) ∧
        records.map NodeRecord.node = [0, 1, 2, 3, 4, 5] ∧ records[3]? = some r ∧
        calls = (records.take 3).map .stored ++ [⟨r, .error cause⟩] := by
  have hvalid : Config.sixNodes.validate = .ok () := by decide +kernel
  have hends : Config.sixNodes.SamplingEnds weylSource 64 := fun _ => by decide +kernel
  have hrefused : generateInto .sixNodes weylSource 64 refusingSink 0 =
      (.error (.store 3 (.write 3 (.ofText "node_3.ini") .permissionDenied)), 3) := by
    decide +kernel
  obtain ⟨answer, s', calls, hrun, hcalls, -, hvalidRun⟩ :=
    generateInto_calls_in_order hends refusingSink 0
  rw [hrefused] at hrun
  obtain ⟨rfl, rfl⟩ := Prod.mk.inj hrun
  obtain ⟨g, records, hbuild, hnodes, ⟨-, _, hanswer, -⟩ | ⟨j, r, cause, t, hr, rfl, -, -, hanswer⟩⟩ :=
    hvalidRun hvalid
  · cases hanswer
  · obtain ⟨rfl, rfl⟩ := RunError.store.inj (Except.error.inj hanswer)
    exact ⟨hends, _, _, g, records, r, hcalls, hbuild, hnodes, hr, rfl⟩

end PeerOverlay
