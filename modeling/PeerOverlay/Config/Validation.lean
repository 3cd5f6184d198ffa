/-
Validation of configurations.

`Config.validate` checks everything a run needs before it starts: an output directory,
a known log level, at least one node, a valid host, parameters that fit a graph, port
ranges that hold all nodes, and node settings that leave per-node keys alone.
-/
import PeerOverlay.Config.Basic
import PeerOverlay.Host

namespace PeerOverlay

/-- What is wrong with a configuration. -/
inductive ValidationError
  | noOutputDir
  | unknownLogLevel (level : String)
  | noNodes
  | invalidHost (host : String)
  | topology (cause : TopologyError)
  | ports (cause : AllocationError)
  | reservedKeys (keys : List String)
deriving DecidableEq, Repr

namespace ValidationError

/-- The sentence that reports the error. -/
def message : ValidationError → String
  | noOutputDir => "Invalid general configuration: output_dir cannot be empty"
  | unknownLogLevel level =>
    "Invalid general configuration: unknown log_level '" ++ level ++ "'"
  | noNodes => "Invalid network configuration: num_nodes must be at least 1"
  | invalidHost host =>
    "Invalid network configuration: host '" ++ host ++ "' is not a valid IP address or hostname"
  | topology cause => "Invalid topology configuration: " ++ cause.message
  | ports cause => "Invalid port configuration: " ++ cause.message
  | reservedKeys keys =>
    "Invalid node settings: per-node keys cannot be overridden: " ++ ", ".intercalate keys

/-- The error and the causes behind it, outermost first. -/
def chain (e : ValidationError) : List String :=
  match e with
  | topology cause => [e.message, cause.message]
  | ports cause => [e.message, cause.message]
  | _ => [e.message]

end ValidationError

/-- The names of log levels. -/
def logLevels : List String :=
  ["off", "error", "warn", "info", "debug", "trace"]

/-- Whether a text names a log level, in any case. -/
def isLogLevel (level : String) : Bool :=
  logLevels.contains (String.ofList (level.toList.map Char.toLower))

namespace Config

/-- Checks the general section. -/
def checkGeneral (c : Config) : Except ValidationError Unit :=
  if c.general.outputDir = "" then .error .noOutputDir
  else
    match c.general.logLevel with
    | some level => if isLogLevel level then .ok () else .error (.unknownLogLevel level)
    | none => .ok ()

/-- Checks the network section. -/
def checkNetwork (c : Config) : Except ValidationError Unit :=
  if c.network.numNodes = 0 then .error .noNodes
  else if !Host.isValid c.network.host then .error (.invalidHost c.network.host)
  else .ok ()

/-- Checks that no node setting takes a per-node key. -/
def checkNode (c : Config) : Except ValidationError Unit :=
  let keys := c.node.reserved
  if keys = [] then .ok () else .error (.reservedKeys keys)

/-- Whether a run with this configuration can start; the first fault in the order of the
checks is reported. -/
def validate (c : Config) : Except ValidationError Unit := do
  c.checkGeneral
  c.checkNetwork
  (c.topology.params.check c.network.numNodes).mapError .topology
  (c.ports.checkCapacity c.network.numNodes).mapError .ports
  c.checkNode

end Config

end PeerOverlay
