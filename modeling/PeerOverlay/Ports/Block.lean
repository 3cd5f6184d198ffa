/-
Port blocks, handed out in node order.

`PortCounters` holds the bases and the next node to serve; `allocate` answers that
node's block together with the advanced counters, so blocks can only be handed out
one after the other.
-/
import PeerOverlay.Ports.Basic

namespace PeerOverlay

/-- The resources assigned to one node. -/
structure PortBlock where
  node : NodeId
  apiPort : UInt16
  udpReceiverPort : UInt16
  tcpReceiverPort : UInt16
  zmqIpc : UInt32
  zmqPort : UInt16
deriving DecidableEq, Repr

/-- The value of a resource in a block. -/
def PortBlock.get (block : PortBlock) : Resource → Nat
  | .api => block.apiPort.toNat
  | .udpReceiver => block.udpReceiverPort.toNat
  | .tcpReceiver => block.tcpReceiverPort.toNat
  | .zmqIpc => block.zmqIpc.toNat
  | .zmqPort => block.zmqPort.toNat

/-- The bases and the node that receives the next block. -/
structure PortCounters where
  bases : BasePorts
  nextNode : NodeId
deriving DecidableEq, Repr

namespace PortCounters

/-- Counters that have handed out nothing yet. -/
def start (bases : BasePorts) : PortCounters :=
  ⟨bases, 0⟩

/-- The block of the next node, and the counters after it.  Of several exhausted ranges
the first in the order of allocation is reported. -/
def allocate (counters : PortCounters) : Except AllocationError (PortBlock × PortCounters) := do
  let node := counters.nextNode
  let value := fun resource => counters.bases.valueFor resource node
  let api ← value .api
  let udp ← value .udpReceiver
  let tcp ← value .tcpReceiver
  let ipc ← value .zmqIpc
  let zmq ← value .zmqPort
  return ({ node
            apiPort := UInt16.ofNat api
            udpReceiverPort := UInt16.ofNat udp
            tcpReceiverPort := UInt16.ofNat tcp
            zmqIpc := UInt32.ofNat ipc
            zmqPort := UInt16.ofNat zmq },
          ⟨counters.bases, node + 1⟩)

/-- Allocates `count` blocks in a row and stops at the first failure; the counters are
those after the last block handed out. -/
def allocateMany (counters : PortCounters) :
    (count : Nat) → Except AllocationError (List PortBlock) × PortCounters
  | 0 => (.ok [], counters)
  | count + 1 =>
    match counters.allocate with
    | .error e => (.error e, counters)
    | .ok (block, next) =>
      let (blocks, last) := next.allocateMany count
      (blocks.map (block :: ·), last)

end PortCounters

end PeerOverlay
