/-
Configurations from YAML.

`Config.ofYaml` reads the text of a configuration file.  Every section and every field
may be left out; unknown ones are errors, except in the section of node settings, whose
keys are free.
-/
import PeerOverlay.Config.Basic
import PeerOverlay.Yaml.Reading

namespace PeerOverlay

open PeerOverlay.Yaml

/-- The form that the value of a setting takes. -/
def SettingValue.ofScalar? : Scalar → Option SettingValue
  | .bool b => some (.bool b)
  | .unsigned n =>
    if n < UInt64.size / 2 then some (.integer n) else some (.number (Binary64.ofDecimal false n 0))
  | .negative i => some (.integer i)
  | .float x => some (.number x)
  | .text s => some (.text s)
  | .nothing | .wide _ => none

/-- How deep collections may stand inside the value of a setting, which itself stands in two
mappings. -/
def settingDepth : Nat := depthLimit - 2

/-- Reads the value of a setting. -/
def readSettingValue : ReadAs SettingValue := fun a place node => do
  let node ← a.follow node
  let value? ←
    match node with
    | .scalar _ tag style text =>
      let said ← readScalar place tag style text
      pure (SettingValue.ofScalar? said)
    | node => do
      readNodeWhole a place settingDepth node
      pure none
  match value? with
  | some value => return value
  | none => throw (.problem .noSettingValue none)

/-- Reads node settings in order; a later value of a key replaces an earlier one. -/
def readSettingEntries (a : Anchors) (place : Place) :
    List (Node × Node) → NodeSettings → Reading NodeSettings
  | [], s => return s
  | (key, value) :: rest, s => do
    let name ← readText "a string" a place key
    let value ← readSettingValue a (place.value key) value
    readSettingEntries a place rest (s.set name value)

/-- Reads the section of node settings. -/
def readSettings : ReadAs NodeSettings := fun a place node =>
  Reading.locate place do readSettingEntries a place (← entriesOf "a map" a node) .empty

/-- Reads a record as the value of a field; what is not mentioned has its built-in value. -/
def readSection {ρ : Type} (expected : String) (fields : List (RecordField ρ)) (builtIn : ρ) :
    ReadAs ρ := fun a place node =>
  readRecord expected fields a place node builtIn

/-- The formats by name. -/
def formatChoices : List (String × ArtifactFormat) :=
  ArtifactFormat.all.map fun f => (f.extension, f)

/-- The transports by name. -/
def transportChoices : List (String × Transport) :=
  Transport.all.map fun t => (t.name, t)

/-- Reads a number that fits 64 bits. -/
def readSize : ReadAs Nat :=
  readNumber (UInt64.size - 1) "usize"

/-- Reads a number that fits 16 bits. -/
def readUInt16 : ReadAs UInt16 := fun a place node =>
  UInt16.ofNat <$> readNumber (UInt16.size - 1) "u16" a place node

/-- Reads a number that fits 32 bits. -/
def readUInt32 : ReadAs UInt32 := fun a place node =>
  UInt32.ofNat <$> readNumber (UInt32.size - 1) "u32" a place node

/-- Reads a number that fits 64 bits as a word. -/
def readUInt64 : ReadAs UInt64 := fun a place node =>
  UInt64.ofNat <$> readNumber (UInt64.size - 1) "u64" a place node

/-- The fields of the general section. -/
def generalFields : List (RecordField GeneralSection) :=
  [ .of "output_dir" (readText "path string") fun s v => { s with outputDir := v },
    .of "format" (readChoice formatChoices) fun s v => { s with format := v },
    .of "overwrite" readBool fun s v => { s with overwrite := v },
    .of "log_level" (readOptional (readText "a string")) fun s v => { s with logLevel := v } ]

/-- The fields of the network section. -/
def networkFields : List (RecordField NetworkSection) :=
  [ .of "num_nodes" readSize fun s v => { s with numNodes := v },
    .of "host" (readText "a string") fun s v => { s with host := v },
    .of "transport" (readChoice transportChoices) fun s v => { s with transport := v } ]

/-- The fields of the topology section. -/
def topologyFields : List (RecordField TopologySection) :=
  [ .of "k" readSize fun s v => { s with k := v },
    .of "p" readFloat fun s v => { s with p := v },
    .of "seed" (readOptional readUInt64) fun s v => { s with seed := v } ]

/-- The fields of the section of base ports. -/
def portFields : List (RecordField BasePorts) :=
  [ .of "api" readUInt16 fun s v => { s with api := v },
    .of "udp" readUInt16 fun s v => { s with udp := v },
    .of "tcp" readUInt16 fun s v => { s with tcp := v },
    .of "ipc" readUInt32 fun s v => { s with ipc := v },
    .of "zmq" readUInt16 fun s v => { s with zmq := v } ]

/-- The sections of a configuration. -/
def configFields : List (RecordField Config) :=
  [ .of "general" (readSection "struct GeneralConfig" generalFields {})
      fun c v => { c with general := v },
    .of "network" (readSection "struct NetworkConfig" networkFields {})
      fun c v => { c with network := v },
    .of "topology" (readSection "struct TopologyConfig" topologyFields {})
      fun c v => { c with topology := v },
    .of "ports" (readSection "struct BasePorts" portFields {})
      fun c v => { c with ports := v },
    .of "node" readSettings fun c v => { c with node := v } ]

/-- Reads a configuration from the root of a document. -/
def Config.ofNode (root : Node) : Except ReadError Config :=
  let anchors := Anchors.ofRoot root
  (readRecord "struct Config" configFields anchors .root root {}).run' anchors.limit

/-- Reads a configuration from a document, which must be the only one of its text. -/
def Config.ofDocument (d : Document) : Except ReadError Config := do
  let config ←
    match d.root with
    | some root => Config.ofNode root
    | none => pure {}
  if d.closed then return config else throw .notYaml

/-- Reads a configuration from the text of a file. -/
def Config.ofYaml (text : String) : Except ReadError Config :=
  Config.ofDocument (.ofText text)

end PeerOverlay
