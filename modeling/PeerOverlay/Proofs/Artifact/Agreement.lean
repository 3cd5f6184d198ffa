/-
The INI artifact and the JSON artifact of a node agree.

The INI text takes each setting from the settings as its line comes up, the JSON text resolves
all of them first and sorts them by key.  `ArtifactsAgree` says what the two have in common, and
`artifacts_agree` that this holds of any record and any settings: the lines of the INI text
follow the layout, the lines of settings are the resolved settings in order, which are also the
settings of the JSON text, and every other line carries what a member of the JSON text carries.

The settings may hold any characters, line breaks too, so the lines are those that are written
and not those that a reader would find.
-/
import Mathlib.Data.List.Forall2
import PeerOverlay.Proofs.Artifact.JsonText
import PeerOverlay.Proofs.Artifact.PerNodeKeys

namespace PeerOverlay

open PeerOverlay.Text

namespace Json.Tree

/-- The member of an object with a given key. -/
def member? (key : String) : Tree → Option Tree
  | .object members => (members.find? (·.1 = key)).map Prod.snd
  | _ => none

/-- How a value stands on a line: a number as its numeral, a string as it is, and strings in an
array with commas between them. -/
inductive Inline : Tree → String → Prop
  | number (n : Nat) : Inline (.number n) (String.ofList (numeral n))
  | string (s : String) : Inline (.string s) s
  | strings (items : List String) : Inline (.array (items.map .string)) (",".intercalate items)

end Json.Tree

/-- The key that a field has in a JSON artifact. -/
def NodeField.jsonKey : NodeField → String
  | apiPort => "api_port"
  | udpReceiverPort => "udp_receiver_port"
  | tcpReceiverPort => "tcp_receiver_port"
  | neighbors => "neighbors"
  | zmqIpc => "zmq_ipc_address"
  | zmqPort => "zmq_port"

/-- Whether a line of the layout is for a static setting. -/
def LayoutLine.isStatic : LayoutLine → Bool
  | .static _ _ => true
  | _ => false

/-- How a line of the layout is written next to a JSON artifact: a setting with its text, a
comment as it stands, and a per-node value as the JSON artifact has it. -/
inductive LayoutLine.Written (s : NodeSettings) (tree : Json.Tree) : LayoutLine → String → Prop
  | static {key builtIn v} (hv : s.value? key = some v) :
      Written s tree (.static key builtIn) (assignment key v)
  | comment (text) : Written s tree (.comment text) text
  | perNode {field value text} (hvalue : tree.member? field.jsonKey = some value)
      (htext : value.Inline text) : Written s tree (.perNode field) (assignment field.key text)

/-- The lines of the extra settings. -/
def NodeSettings.extraLines (s : NodeSettings) : List String :=
  s.extra.map fun e => assignment e.1 e.2.shown

/-- What the INI artifact of a record, with the lines `body` for those of the layout, has in
common with its JSON artifact. -/
structure ArtifactsAgree (r : NodeRecord) (s : NodeSettings) (tree : Json.Tree)
    (body : List String) : Prop where
  /-- The INI text: a header, the lines of the layout, and the extra settings. -/
  ini : iniText r s = String.join ((iniHeader r.node :: body ++ s.extraLines).map (· ++ "\n"))
  /-- The header is for the node that the JSON text names. -/
  header : tree.member? "node" = some (.number r.node)
  layout : List.Forall₂ (LayoutLine.Written s tree) nodeLayout body
  /-- The layout has one line for each field of the node. -/
  fields : nodeLayout.filterMap LayoutLine.field? = NodeField.all
  /-- The lines of settings are the resolved settings in order. -/
  settings : ((nodeLayout.zip body).filter (·.1.isStatic)).map Prod.snd ++ s.extraLines =
    s.resolved.map fun e => assignment e.1 e.2
  /-- The JSON text has the resolved settings and no others. -/
  json : ∃ entries : List (String × String), entries.Perm s.resolved ∧
    tree.member? "settings" = some (.object (entries.map fun e => (e.1, .string e.2)))
  distinctKeys : tree.DistinctKeys

variable {r : NodeRecord} {s : NodeSettings} {settings : List (String × String)}

/-- Each field of the node stands on its line as it does in the JSON artifact. -/
theorem exists_member?_artifactTree (field : NodeField) :
    ∃ value, (artifactTree r settings).member? field.jsonKey = some value ∧
      value.Inline (field.value r) := by
  cases field with
  | apiPort => exact ⟨.number r.ports.apiPort.toNat, rfl, .number _⟩
  | udpReceiverPort => exact ⟨.number r.ports.udpReceiverPort.toNat, rfl, .number _⟩
  | tcpReceiverPort => exact ⟨.number r.ports.tcpReceiverPort.toNat, rfl, .number _⟩
  | zmqIpc => exact ⟨.string (feedAddress r.ports.zmqIpc), rfl, .string _⟩
  | zmqPort => exact ⟨.number r.ports.zmqPort.toNat, rfl, .number _⟩
  | neighbors =>
    have hinline := Json.Tree.Inline.strings (r.neighbors.map Endpoint.text)
    rw [List.map_map] at hinline
    exact ⟨_, rfl, hinline⟩

theorem written_shown {line : LayoutLine} (h : line ∈ nodeLayout) :
    line.Written s (artifactTree r settings) (line.shown r s) := by
  cases line with
  | static key builtIn =>
    exact .static (NodeSettings.value?_of_mem_staticSettings (mem_staticSettings_iff.mpr h))
  | comment text => exact .comment text
  | perNode field =>
    obtain ⟨value, hvalue, htext⟩ := exists_member?_artifactTree (r := r) field
    exact .perNode hvalue htext

/-- The lines of static settings are those of the settings resolved from the layout. -/
theorem map_shown_filter_isStatic (r : NodeRecord) (s : NodeSettings) :
    (nodeLayout.filter LayoutLine.isStatic).map (LayoutLine.shown r s) =
      staticSettings.map fun e => assignment e.1 (s.valueOr e.1 e.2) := by
  rw [staticSettings, List.map_filterMap]
  induction nodeLayout with
  | nil => rfl
  | cons line rest ih =>
    cases line with
    | static key builtIn =>
      rw [List.filter_cons_of_pos rfl, List.map_cons, ih]
      rfl
    | comment text =>
      rw [List.filter_cons_of_neg (Bool.false_ne_true), ih]
      rfl
    | perNode field =>
      rw [List.filter_cons_of_neg (Bool.false_ne_true), ih]
      rfl

theorem map_assignment_resolved (s : NodeSettings) :
    (s.resolved.map fun e => assignment e.1 e.2) =
      (staticSettings.map fun e => assignment e.1 (s.valueOr e.1 e.2)) ++ s.extraLines := by
  rw [NodeSettings.resolved, List.map_append, List.map_map, List.map_map]
  rfl

/-- **The two artifacts of a node carry the same.**  The JSON text is read in one way, and what
it says agrees with the lines of the INI text. -/
theorem artifacts_agree (r : NodeRecord) (s : NodeSettings) :
    ∃ tree body, (∀ v, Json.Denotes (jsonText r s).toList v ↔ v = tree) ∧
      ArtifactsAgree r s tree body := by
  refine ⟨artifactTree r (settingsByKey s).entries, nodeLayout.map (LayoutLine.shown r s),
    fun v => by rw [jsonText, Json.denotes_print_iff, tree_jsonValue], ?_⟩
  exact {
    ini := rfl
    header := rfl
    layout := by
      rw [List.forall₂_map_right_iff, List.forall₂_same]
      exact fun line hline => written_shown hline
    fields := by decide
    settings := by
      have hzip : nodeLayout.zip (nodeLayout.map (LayoutLine.shown r s)) =
          nodeLayout.map fun line => (line, line.shown r s) := by
        simpa using @List.zip_map' _ _ _ id (LayoutLine.shown r s) nodeLayout
      rw [hzip, List.filter_map, List.map_map, map_assignment_resolved,
        ← map_shown_filter_isStatic r s]
      rfl
    json := ⟨_, settingsByKey_perm s, rfl⟩
    distinctKeys := distinctKeys_artifactTree r (settingsByKey s).nodup_keys }

end PeerOverlay
