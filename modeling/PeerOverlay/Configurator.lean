/-
From a topology to node records.

`configureNode` pairs the next port block with the endpoints of the node's neighbours.
A `Configurator` pulls one record after the other and stops for good at the first
failure; `Configurator.collect` pulls until the end.
-/
import PeerOverlay.Record

namespace PeerOverlay

/-- Why no record could be derived. -/
inductive ConfigureError
  | nodeCountMismatch (expected actual : Nat)
  | topology (cause : TopologyError)
  | allocation (cause : AllocationError)
deriving DecidableEq, Repr

/-- The sentence that reports the error. -/
def ConfigureError.message : ConfigureError → String
  | .nodeCountMismatch expected actual =>
    s!"topology has {actual} nodes but {expected} records were requested"
  | .topology cause => cause.message
  | .allocation cause => cause.message

/-- The endpoints of a list of nodes, or the first failure. -/
def endpointsFor (transport : Transport) (host : String) (bases : BasePorts) :
    List NodeId → Except AllocationError (List Endpoint)
  | [] => .ok []
  | node :: rest => do
    let endpoint ← Endpoint.forNode transport host bases node
    let endpoints ← endpointsFor transport host bases rest
    return endpoint :: endpoints

/-- The record of the next node and the counters after it. -/
def configureNode (counters : PortCounters) (topology : Topology) (transport : Transport)
    (host : String) : Except ConfigureError (NodeRecord × PortCounters) :=
  match counters.allocate with
  | .error e => .error (.allocation e)
  | .ok (ports, advanced) =>
    match topology.neighborsOf ports.node with
    | .error e => .error (.topology e)
    | .ok neighbors =>
      match endpointsFor transport host counters.bases neighbors with
      | .error e => .error (.allocation e)
      | .ok endpoints => .ok (⟨ports, endpoints⟩, advanced)

/-- A run through the nodes of a topology in ascending order. -/
structure Configurator where
  topology : Topology
  counters : PortCounters
  numNodes : Nat
  transport : Transport
  host : String
  failed : Bool

namespace Configurator

/-- A run over `numNodes` nodes; the topology must have as many, and the port ranges must
hold them. -/
def start (numNodes : Nat) (bases : BasePorts) (topology : Topology) (transport : Transport)
    (host : String) : Except ConfigureError Configurator :=
  if topology.numNodes ≠ numNodes then
    .error (.nodeCountMismatch numNodes topology.numNodes)
  else
    match bases.checkCapacity numNodes with
    | .error e => .error (.allocation e)
    | .ok () => .ok ⟨topology, .start bases, numNodes, transport, host, false⟩

/-- A run with every node on the loopback host, reached over TCP. -/
def startLocal (numNodes : Nat) (bases : BasePorts) (topology : Topology) :
    Except ConfigureError Configurator :=
  start numNodes bases topology .tcp "127.0.0.1"

/-- The node that the next record is for. -/
def nextNode (c : Configurator) : NodeId :=
  c.counters.nextNode

/-- Pulls the next record or failure; nothing comes after the last node or a failure. -/
def pull (c : Configurator) : Option (Except ConfigureError NodeRecord) × Configurator :=
  if c.failed || c.numNodes ≤ c.nextNode then (none, c)
  else
    match configureNode c.counters c.topology c.transport c.host with
    | .ok (record, advanced) => (some (.ok record), { c with counters := advanced })
    | .error e => (some (.error e), { c with failed := true })

/-- A lower and an upper bound on how many items are still to come. -/
def sizeHint (c : Configurator) : Nat × Nat :=
  (0, if c.failed then 0 else c.numNodes - c.nextNode)

/-- At most `count` further records, or the first failure. -/
def take : (count : Nat) → Configurator → Except ConfigureError (List NodeRecord)
  | 0, _ => .ok []
  | count + 1, c =>
    match c.pull with
    | (none, _) => .ok []
    | (some (.error e), _) => .error e
    | (some (.ok record), next) => (take count next).map (record :: ·)

/-- All records that are still to come, or the first failure. -/
def collect (c : Configurator) : Except ConfigureError (List NodeRecord) :=
  take (c.numNodes - c.nextNode) c

end Configurator

end PeerOverlay
