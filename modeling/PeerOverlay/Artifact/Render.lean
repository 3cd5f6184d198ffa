/-
Node artifacts as text.

`iniText` writes a header, one `KEY = value` line for each line of the layout, and the
extra settings; `jsonText` writes the same record and settings as a JSON object.
-/
import PeerOverlay.Artifact.FileName
import PeerOverlay.Artifact.Settings
import PeerOverlay.Json.Value

namespace PeerOverlay

open PeerOverlay.Text

/-- The address of the local message feed with a given index. -/
def feedAddress (index : UInt32) : String :=
  "ipc://sbx/feeds/" ++ String.ofList (numeral index.toNat)

/-- The text of a per-node value in the artifact of a record. -/
def NodeField.value (r : NodeRecord) : NodeField → String
  | .apiPort => String.ofList (numeral r.ports.apiPort.toNat)
  | .udpReceiverPort => String.ofList (numeral r.ports.udpReceiverPort.toNat)
  | .tcpReceiverPort => String.ofList (numeral r.ports.tcpReceiverPort.toNat)
  | .neighbors => r.neighborsJoined
  | .zmqIpc => feedAddress r.ports.zmqIpc
  | .zmqPort => String.ofList (numeral r.ports.zmqPort.toNat)

/-- A key and its value on a line. -/
def assignment (key value : String) : String :=
  key ++ " = " ++ value

/-- A layout line as it stands in the artifact of a record. -/
def LayoutLine.shown (r : NodeRecord) (s : NodeSettings) : LayoutLine → String
  | .static key builtIn => assignment key (s.valueOr key builtIn)
  | .comment text => text
  | .perNode field => assignment field.key (field.value r)

/-- The first line of a node's artifact. -/
def iniHeader (node : NodeId) : String :=
  "#NODE " ++ String.ofList (numeral node) ++ " CONFIG"

/-- The lines of the INI artifact of a record. -/
def iniLines (r : NodeRecord) (s : NodeSettings) : List String :=
  iniHeader r.node :: nodeLayout.map (LayoutLine.shown r s) ++
    s.extra.map fun e => assignment e.1 e.2.shown

/-- The INI artifact of a record; every line ends with a line break. -/
def iniText (r : NodeRecord) (s : NodeSettings) : String :=
  String.join ((iniLines r s).map (· ++ "\n"))

/-- The settings of a JSON artifact, by key. -/
def settingsByKey (s : NodeSettings) : AscendingMap String String :=
  .ofList s.resolved

/-- The JSON artifact of a record as a value. -/
def jsonValue (r : NodeRecord) (s : NodeSettings) : Json.Value :=
  .object
    [ ("node", .number r.node),
      ("api_port", .number r.ports.apiPort.toNat),
      ("udp_receiver_port", .number r.ports.udpReceiverPort.toNat),
      ("tcp_receiver_port", .number r.ports.tcpReceiverPort.toNat),
      ("zmq_ipc", .number r.ports.zmqIpc.toNat),
      ("zmq_port", .number r.ports.zmqPort.toNat),
      ("neighbors", .array (r.neighbors.map fun e => .string e.text)),
      ("zmq_ipc_address", .string (feedAddress r.ports.zmqIpc)),
      ("settings",
        .object ((settingsByKey s).entries.map fun e => (e.1, .string e.2))) ]

/-- The JSON artifact of a record. -/
def jsonText (r : NodeRecord) (s : NodeSettings) : String :=
  (jsonValue r s).print

/-- The artifact of a record in a format. -/
def ArtifactFormat.render (f : ArtifactFormat) (r : NodeRecord) (s : NodeSettings) : String :=
  match f with
  | .ini => iniText r s
  | .json => jsonText r s

end PeerOverlay
