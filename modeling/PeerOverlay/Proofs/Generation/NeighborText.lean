/-
The neighbours of a node as one text.

A record flattens its endpoints into one text with commas between them.  No accepted host holds
a comma, so the text falls apart into the written endpoints again; the port stands behind the
last colon of each, whether its host is bracketed or not, and the TCP base leads from there to
the neighbour.

* `NodeRecord.splitOn_neighborsJoined` — the pieces between commas are the written endpoints;
* `Endpoint.numberBehindColon?_text` — the number behind the last colon is the port;
* `buildRecords_neighborsJoined` — the neighbours of every node of a run are read back.
-/
import PeerOverlay.Proofs.Generation.Addressing

namespace PeerOverlay

open PeerOverlay.Text

namespace Endpoint

/-- The decimal number behind the last colon of a text. -/
def numberBehindColon? (cs : List Char) : Option Nat :=
  (splitAtLastColon? cs).bind fun parts => number? parts.2

theorem numberBehindColon?_text (e : Endpoint) :
    numberBehindColon? e.text.toList = some e.port.toNat := by
  have htext : e.text.toList = (e.transport.name.toList ++
      ':' :: '/' :: '/' :: (shownHost e.host).toList) ++ ':' :: numeral e.port.toNat := by
    simp [toList_text]
  rw [numberBehindColon?, htext, splitAtLastColon?_append _ (colon_not_mem_numeral _)]
  exact number?_numeral _

end Endpoint

namespace NodeRecord

variable {r : NodeRecord}

/-- A text with commas between written endpoints falls apart into them. -/
theorem splitOn_neighborsJoined (h : ∀ e ∈ r.neighbors, Host.isValid e.host = true)
    (hne : r.neighbors ≠ []) :
    r.neighborsJoined.toList.splitOn ',' = r.neighbors.map (·.text.toList) := by
  have hjoined : r.neighborsJoined.toList =
      [','].intercalate (r.neighbors.map (·.text.toList)) := by
    rw [neighborsJoined, String.toList_intercalate, List.map_map]
    rfl
  rw [hjoined]
  refine List.splitOn_intercalate ',' ?_ (List.map_eq_nil_iff.not.mpr hne)
  rw [List.forall_mem_map]
  intro e he hcomma
  exact absurd (Endpoint.forall_mem_text (h e he) ',' hcomma) (by decide)

theorem neighborsJoined_eq_empty_iff : r.neighborsJoined = "" ↔ r.neighbors = [] := by
  constructor
  · intro h
    rcases hneighbors : r.neighbors with _ | ⟨e, rest⟩
    · rfl
    · -- The text begins with the name of a transport.
      have htext : e.text.toList ≠ [] := by
        rw [Endpoint.toList_text]
        exact List.append_ne_nil_of_left_ne_nil (Endpoint.name_ne_nil _) _
      have hlist := congrArg String.toList h
      rw [neighborsJoined, hneighbors, List.map_cons] at hlist
      cases rest with
      | nil =>
        rw [List.map_nil, String.intercalate_singleton] at hlist
        exact absurd hlist htext
      | cons e' rest =>
        rw [List.map_cons, String.intercalate_cons_cons, String.toList_append,
          String.toList_append, List.append_assoc] at hlist
        exact absurd (List.append_eq_nil_iff.mp hlist).1 htext
  · intro h
    rw [neighborsJoined, h]
    rfl

end NodeRecord

/-- The text of a record's neighbours spells out given nodes: it is empty if there are none, its
pieces between commas are the written endpoints in order, and behind the last colon of each
stands the TCP base plus the node. -/
structure NodeRecord.SpellsOut (r : NodeRecord) (bases : BasePorts) (nodes : List NodeId) :
    Prop where
  eq_empty_iff : r.neighborsJoined = "" ↔ nodes = []
  length : r.neighbors.length = nodes.length
  pieces : nodes ≠ [] →
    r.neighborsJoined.toList.splitOn ',' = r.neighbors.map (·.text.toList)
  numbers : nodes ≠ [] →
    (r.neighborsJoined.toList.splitOn ',').map Endpoint.numberBehindColon? =
      nodes.map fun u => some (bases.tcp.toNat + u)

theorem spellsOut_record {transport : Transport} {host : String} {bases : BasePorts} {v : NodeId}
    {nodes : List NodeId} (hhost : Host.isValid host = true) (hfits : ∀ u ∈ nodes, bases.Fits u) :
    (bases.record transport host v nodes).SpellsOut bases nodes := by
  have hneighbors : (bases.record transport host v nodes).neighbors =
      nodes.map (bases.receiver transport host) := rfl
  have hpieces : nodes ≠ [] →
      (bases.record transport host v nodes).neighborsJoined.toList.splitOn ',' =
        (nodes.map (bases.receiver transport host)).map (·.text.toList) := by
    intro hne
    refine NodeRecord.splitOn_neighborsJoined ?_ (by rwa [hneighbors, ne_eq, List.map_eq_nil_iff])
    intro e he
    obtain ⟨u, -, rfl⟩ := List.mem_map.mp he
    exact hhost
  refine ⟨?_, by rw [hneighbors, List.length_map], hpieces, fun hne => ?_⟩
  · rw [NodeRecord.neighborsJoined_eq_empty_iff, hneighbors, List.map_eq_nil_iff]
  · rw [hpieces hne, List.map_map, List.map_map]
    refine List.map_congr_left fun u hu => ?_
    rw [Function.comp_apply, Function.comp_apply, Endpoint.numberBehindColon?_text,
      toNat_port_receiver (hfits u hu)]

variable {c : Config} {fresh : DrawSource} {patience : Nat}

/-- **The neighbours of every node are read back from their text.**  The text of every record of
a run spells out the neighbours of its node, in ascending order. -/
theorem buildRecords_neighborsJoined (h : c.validate = .ok ())
    (hends : c.SamplingEnds fresh patience) :
    ∃ g records, buildRecords c fresh patience = .ok (g, records) ∧
      records.length = c.network.numNodes ∧
      ∀ v r, records[v]? = some r → ∃ nodes, g.neighborsOf v = .ok nodes ∧
        nodes.Pairwise (· < ·) ∧ r.SpellsOut c.ports nodes := by
  obtain ⟨w, hw⟩ := Config.exists_drawOverlay_eq_ok h hends
  have hgraph := Config.simpleOn_of_drawOverlay h hw
  refine ⟨w.graph, c.recordsOn w.graph, buildRecords_of_drawOverlay h hw,
    Config.length_recordsOn _, fun v r hr => ?_⟩
  have hv : v < c.network.numNodes := by
    obtain ⟨hlt, -⟩ := List.getElem?_eq_some_iff.mp hr
    rwa [Config.length_recordsOn] at hlt
  obtain rfl := Option.some.inj ((Config.getElem?_recordsOn w.graph hv).symm.trans hr)
  have hfits : ∀ u ∈ w.graph.neighbors v, c.ports.Fits u :=
    fun u hu => Config.fits_of_validate h (hgraph.lt_of_mem hu)
  exact ⟨w.graph.neighbors v, hgraph.neighborsOf_eq hv, hgraph.simple.ascending v,
    spellsOut_record (Config.isValid_host_of_validate h) hfits⟩

/-- Six nodes on a host that is written with colons and points. -/
theorem buildRecords_neighborsJoined_mapped :
    ∃ g records, buildRecords
        { Config.sixNodes with network := { numNodes := 6, host := "::ffff:1.2.3.4" } }
        weylSource 64 = .ok (g, records) ∧
      records.length = 6 ∧
      ∀ v r, records[v]? = some r → ∃ nodes, g.neighborsOf v = .ok nodes ∧
        nodes.Pairwise (· < ·) ∧ r.SpellsOut {} nodes :=
  buildRecords_neighborsJoined (by decide +kernel) fun _ => by decide +kernel

end PeerOverlay
