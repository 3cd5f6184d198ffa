/-
The configuration of a generation run.

A `Config` has five sections; every field has a built-in value, so the empty
configuration is `{}`.
-/
import PeerOverlay.Artifact.FileName
import PeerOverlay.Artifact.Settings
import PeerOverlay.Topology.Params

namespace PeerOverlay

/-- Where artifacts go and in which format. -/
structure GeneralSection where
  outputDir : String := "many_configs"
  format : ArtifactFormat := .ini
  /-- Whether artifacts of an earlier run may be replaced. -/
  overwrite : Bool := false
  logLevel : Option String := none
deriving DecidableEq, Repr

/-- Size and addressing of the network. -/
structure NetworkSection where
  numNodes : Nat := 10
  /-- The host that every node listens on. -/
  host : String := "127.0.0.1"
  /-- The transport of neighbour endpoints. -/
  transport : Transport := .tcp
deriving DecidableEq, Repr

/-- How the overlay graph is drawn. -/
structure TopologySection where
  k : Nat := 8
  p : Binary64 := defaultProbability
  /-- A fixed seed; without one the graph differs from run to run. -/
  seed : Option UInt64 := none
deriving DecidableEq, Repr

/-- The parameters of the overlay graph. -/
def TopologySection.params (t : TopologySection) : SmallWorldParams :=
  ⟨t.k, t.p⟩

/-- The configuration of a generation run. -/
structure Config where
  general : GeneralSection := {}
  network : NetworkSection := {}
  topology : TopologySection := {}
  ports : BasePorts := {}
  /-- Static settings of every node artifact. -/
  node : NodeSettings := .empty

end PeerOverlay
