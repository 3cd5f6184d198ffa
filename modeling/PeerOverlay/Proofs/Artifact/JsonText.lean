/-
The JSON artifact of a node, read back.

Main statements:
* `settingsByKey_perm` — sorting the settings by key loses none and adds none;
* `jsonText_reads_back` — the artifact is a JSON text for the record and its settings.

The given settings may use any characters in keys and values.  They cannot hit a key of the
layout in the settings object, since the extra ones are those that the layout has no place for.
-/
import PeerOverlay.Artifact.Render
import PeerOverlay.Proofs.Artifact.Settings
import PeerOverlay.Proofs.Json.Printing

namespace PeerOverlay

variable {r : NodeRecord} {s : NodeSettings}

/-- Sorting the settings by key loses none and adds none. -/
theorem settingsByKey_perm (s : NodeSettings) : (settingsByKey s).entries.Perm s.resolved :=
  AscendingMap.entries_ofList_perm s.nodup_resolved

/-- The artifact of a record as a JSON value. -/
def artifactTree (r : NodeRecord) (settings : List (String × String)) : Json.Tree :=
  .object
    [ ("node", .number r.node),
      ("api_port", .number r.ports.apiPort.toNat),
      ("udp_receiver_port", .number r.ports.udpReceiverPort.toNat),
      ("tcp_receiver_port", .number r.ports.tcpReceiverPort.toNat),
      ("zmq_ipc", .number r.ports.zmqIpc.toNat),
      ("zmq_port", .number r.ports.zmqPort.toNat),
      ("neighbors", .array (r.neighbors.map fun e => .string e.text)),
      ("zmq_ipc_address", .string (feedAddress r.ports.zmqIpc)),
      ("settings", .object (settings.map fun e => (e.1, .string e.2))) ]

theorem tree_jsonValue (r : NodeRecord) (s : NodeSettings) :
    (jsonValue r s).tree = artifactTree r (settingsByKey s).entries := by
  simp [jsonValue, artifactTree, Json.Value.tree]

theorem distinctKeys_artifactTree (r : NodeRecord) {settings : List (String × String)}
    (h : (settings.map Prod.fst).Nodup) : (artifactTree r settings).DistinctKeys := by
  have hsettings :
      (Json.Tree.object (settings.map fun e => (e.1, .string e.2))).DistinctKeys := by
    rw [Json.Tree.DistinctKeys, List.map_map]
    refine ⟨h, fun m hm => ?_⟩
    obtain ⟨e, -, rfl⟩ := List.mem_map.mp hm
    simp only [Json.Tree.DistinctKeys]
  simpa [artifactTree, Json.Tree.DistinctKeys] using hsettings

/-- **The JSON artifact reads back as the record and its settings.** -/
theorem jsonText_reads_back (r : NodeRecord) (s : NodeSettings) :
    ∃ settings : List (String × String), settings.Perm s.resolved ∧
      (artifactTree r settings).DistinctKeys ∧
        ∀ v, Json.Denotes (jsonText r s).toList v ↔ v = artifactTree r settings := by
  refine ⟨_, settingsByKey_perm s, distinctKeys_artifactTree r (settingsByKey s).nodup_keys, ?_⟩
  intro v
  rw [jsonText, Json.denotes_print_iff, tree_jsonValue]

end PeerOverlay
