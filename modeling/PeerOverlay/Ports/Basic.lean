/-
Port ranges.

Every node receives one value of each of five resources.  The values of a resource
form a range that starts at a base and grows with the node number:
`BasePorts.valueFor` is `base + node` as long as that fits the resource.
-/
import PeerOverlay.Topology.Basic

namespace PeerOverlay

/-- The five resources of a node. -/
inductive Resource
  /-- The port of the HTTP interface. -/
  | api
  /-- The UDP receiver port. -/
  | udpReceiver
  /-- The TCP receiver port, to which neighbours connect. -/
  | tcpReceiver
  /-- The index of the local message feed. -/
  | zmqIpc
  /-- The network port of the message feed. -/
  | zmqPort
deriving DecidableEq, Repr

namespace Resource

/-- All resources in the order of allocation. -/
def all : List Resource :=
  [api, udpReceiver, tcpReceiver, zmqIpc, zmqPort]

/-- The name of the resource in messages. -/
def name : Resource → String
  | api => "api port"
  | udpReceiver => "udp receiver port"
  | tcpReceiver => "tcp receiver port"
  | zmqIpc => "zmq ipc index"
  | zmqPort => "zmq port"

/-- The greatest value the resource can take. -/
def maxValue : Resource → Nat
  | zmqIpc => UInt32.size - 1
  | _ => UInt16.size - 1

end Resource

/-- Why a resource cannot be allocated. -/
inductive AllocationError
  | zeroBase (resource : Resource)
  | rangeExhausted (resource : Resource) (base : Nat) (node : NodeId)
deriving DecidableEq, Repr

/-- The sentence that reports the error. -/
def AllocationError.message : AllocationError → String
  | .zeroBase resource => "base value for " ++ resource.name ++ " must be positive"
  | .rangeExhausted resource base node =>
    resource.name ++ s!" range starting at {base} cannot hold node {node} (max " ++
      s!"{resource.maxValue})"

/-- The first value of each range. -/
structure BasePorts where
  api : UInt16 := 14000
  udp : UInt16 := 24000
  tcp : UInt16 := 34000
  ipc : UInt32 := 1
  zmq : UInt16 := 5550
deriving DecidableEq, Repr

namespace BasePorts

/-- The first value of a resource. -/
def base (bases : BasePorts) : Resource → Nat
  | .api => bases.api.toNat
  | .udpReceiver => bases.udp.toNat
  | .tcpReceiver => bases.tcp.toNat
  | .zmqIpc => bases.ipc.toNat
  | .zmqPort => bases.zmq.toNat

/-- The value of a resource for a node: the base plus the node number. -/
def valueFor (bases : BasePorts) (resource : Resource) (node : NodeId) :
    Except AllocationError Nat :=
  let value := bases.base resource + node
  if value ≤ resource.maxValue then .ok value
  else .error (.rangeExhausted resource (bases.base resource) node)

/-- Whether one resource has a positive base and values for `numNodes` nodes. -/
def checkRange (bases : BasePorts) (numNodes : Nat) (resource : Resource) :
    Except AllocationError Unit :=
  if bases.base resource = 0 then .error (.zeroBase resource)
  else if numNodes = 0 then .ok ()
  else (bases.valueFor resource (numNodes - 1)).map fun _ => ()

/-- Checks resources in order and reports the first that cannot hold the nodes. -/
def checkRanges (bases : BasePorts) (numNodes : Nat) :
    List Resource → Except AllocationError Unit
  | [] => .ok ()
  | resource :: rest =>
    match bases.checkRange numNodes resource with
    | .error e => .error e
    | .ok () => bases.checkRanges numNodes rest

/-- Whether every base is positive and every range can hold `numNodes` nodes. -/
def checkCapacity (bases : BasePorts) (numNodes : Nat) : Except AllocationError Unit :=
  bases.checkRanges numNodes Resource.all

theorem valueFor_eq_ok_iff {bases : BasePorts} {resource : Resource} {node : NodeId}
    {value : Nat} :
    bases.valueFor resource node = .ok value ↔
      value = bases.base resource + node ∧ value ≤ resource.maxValue := by
  unfold valueFor
  constructor
  · intro h
    dsimp only at h
    split at h
    next hle => cases h; exact ⟨rfl, hle⟩
    · cases h
  · rintro ⟨rfl, h⟩
    exact if_pos h

end BasePorts

end PeerOverlay
