/-
Values that replace those of a configuration.

`Config.override` replaces exactly the fields that are set; `Config.applyOverrides` says
besides whether the outcome is valid.  A rejected set of overrides has been applied all
the same.
-/
import PeerOverlay.Config.Validation

namespace PeerOverlay

/-- Replacements for configuration fields; an unset one leaves its field alone. -/
structure Overrides where
  numNodes : Option Nat := none
  k : Option Nat := none
  p : Option Binary64 := none
  seed : Option UInt64 := none
  api : Option UInt16 := none
  udp : Option UInt16 := none
  tcp : Option UInt16 := none
  ipc : Option UInt32 := none
  zmq : Option UInt16 := none
  host : Option String := none
  transport : Option Transport := none
  outputDir : Option String := none
  format : Option ArtifactFormat := none
  overwrite : Option Bool := none
  logLevel : Option String := none
deriving DecidableEq, Repr

/-- Replaces the fields that are set. -/
def Config.override (c : Config) (o : Overrides) : Config where
  general :=
    { outputDir := o.outputDir.getD c.general.outputDir
      format := o.format.getD c.general.format
      overwrite := o.overwrite.getD c.general.overwrite
      logLevel := o.logLevel.or c.general.logLevel }
  network :=
    { numNodes := o.numNodes.getD c.network.numNodes
      host := o.host.getD c.network.host
      transport := o.transport.getD c.network.transport }
  topology :=
    { k := o.k.getD c.topology.k
      p := o.p.getD c.topology.p
      seed := o.seed.or c.topology.seed }
  ports :=
    { api := o.api.getD c.ports.api
      udp := o.udp.getD c.ports.udp
      tcp := o.tcp.getD c.ports.tcp
      ipc := o.ipc.getD c.ports.ipc
      zmq := o.zmq.getD c.ports.zmq }
  node := c.node

/-- The configuration with overrides, and whether it is valid. -/
def Config.applyOverrides (c : Config) (o : Overrides) : Except ValidationError Unit × Config :=
  let changed := c.override o
  (changed.validate, changed)

end PeerOverlay
