/-
Node records: what one node needs to join the overlay.
-/
import PeerOverlay.Endpoint
import PeerOverlay.Ports.Block

namespace PeerOverlay

/-- The port block of a node and the receivers of its neighbours. -/
structure NodeRecord where
  ports : PortBlock
  neighbors : List Endpoint
deriving DecidableEq, Repr

namespace NodeRecord

/-- The node that the record belongs to. -/
def node (r : NodeRecord) : NodeId :=
  r.ports.node

/-- The written neighbour endpoints with commas between them; empty if there are none. -/
def neighborsJoined (r : NodeRecord) : String :=
  ",".intercalate (r.neighbors.map Endpoint.text)

end NodeRecord

end PeerOverlay
