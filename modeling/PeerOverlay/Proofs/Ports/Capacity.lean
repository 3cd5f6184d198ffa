/-
Which nodes the port ranges hold.

* `BasePorts.checkCapacity_eq_ok_iff` — the up-front check succeeds when all bases are
  positive and the last node fits every range;
* `PortCounters.allocate_eq_ok_iff` — a block is handed out when its node fits every
  range, and it is then the node's `BasePorts.block`;
* `BasePorts.get_block` — the values of a block that fits are base plus node: the
  conversions to 16 and 32 bits lose nothing.

Ranges are monotone in the node (`BasePorts.Fits.mono`), so the check of the last node
speaks for all of them.
-/
import PeerOverlay.Ports.Block
import PeerOverlay.Proofs.Outcome

namespace PeerOverlay

namespace Resource

theorem mem_all (r : Resource) : r ∈ all := by
  cases r <;> decide

end Resource

namespace BasePorts

variable {bases : BasePorts} {numNodes node v : Nat}

/-- Every range has a value for a node. -/
def Fits (bases : BasePorts) (node : NodeId) : Prop :=
  ∀ r, bases.base r + node ≤ r.maxValue

theorem Fits.mono (h : bases.Fits node) (hv : v ≤ node) : bases.Fits v :=
  fun r => Nat.le_trans (Nat.add_le_add_left hv _) (h r)

theorem checkRange_eq_ok_iff {r : Resource} :
    bases.checkRange numNodes r = .ok () ↔
      0 < bases.base r ∧ (numNodes = 0 ∨ bases.base r + (numNodes - 1) ≤ r.maxValue) := by
  rw [checkRange]
  split
  next h => simp [h]
  next h =>
    have hpos := Nat.pos_of_ne_zero h
    split
    next h0 => simp [hpos, h0]
    next h0 => simp [map_eq_ok_iff, valueFor_eq_ok_iff, hpos, h0]

theorem checkRanges_eq_ok_iff {l : List Resource} :
    bases.checkRanges numNodes l = .ok () ↔ ∀ r ∈ l, bases.checkRange numNodes r = .ok () := by
  induction l with
  | nil => simp [checkRanges]
  | cons r rest ih =>
    rw [checkRanges, List.forall_mem_cons, ← ih]
    cases bases.checkRange numNodes r <;> simp

/-- The up-front check looks at the last node alone. -/
theorem checkCapacity_eq_ok_iff :
    bases.checkCapacity numNodes = .ok () ↔
      (∀ r, 0 < bases.base r) ∧ (numNodes = 0 ∨ bases.Fits (numNodes - 1)) := by
  simp only [checkCapacity, checkRanges_eq_ok_iff, checkRange_eq_ok_iff, Resource.mem_all,
    forall_const, forall_and, Fits, forall_or_left]

theorem fits_of_checkCapacity (h : bases.checkCapacity numNodes = .ok ()) (hv : v < numNodes) :
    bases.Fits v := by
  obtain ⟨-, h0 | hfits⟩ := checkCapacity_eq_ok_iff.mp h
  · omega
  · exact hfits.mono (by omega)

/-- The port block of a node: base plus node in every range. -/
def block (bases : BasePorts) (node : NodeId) : PortBlock where
  node := node
  apiPort := UInt16.ofNat (bases.base .api + node)
  udpReceiverPort := UInt16.ofNat (bases.base .udpReceiver + node)
  tcpReceiverPort := UInt16.ofNat (bases.base .tcpReceiver + node)
  zmqIpc := UInt32.ofNat (bases.base .zmqIpc + node)
  zmqPort := UInt16.ofNat (bases.base .zmqPort + node)

/-- A block that fits is not truncated. -/
theorem get_block (h : bases.Fits node) (r : Resource) :
    (bases.block node).get r = bases.base r + node := by
  have hr := h r
  -- Base plus node is below the size of the word, so the conversion keeps it.
  cases r <;> simp only [Resource.maxValue, UInt16.size, UInt32.size] at hr <;>
    simp only [PortBlock.get, block, UInt16.toNat_ofNat', UInt32.toNat_ofNat'] <;>
    exact Nat.mod_eq_of_lt (by omega)

end BasePorts

theorem PortCounters.allocate_eq_ok_iff {counters : PortCounters}
    {result : PortBlock × PortCounters} :
    counters.allocate = .ok result ↔
      counters.bases.Fits counters.nextNode ∧
        result = (counters.bases.block counters.nextNode,
          ⟨counters.bases, counters.nextNode + 1⟩) := by
  simp only [allocate, bind_eq_ok_iff, BasePorts.valueFor_eq_ok_iff]
  constructor
  · rintro ⟨api, ⟨rfl, hapi⟩, udp, ⟨rfl, hudp⟩, tcp, ⟨rfl, htcp⟩, ipc, ⟨rfl, hipc⟩, zmq,
      ⟨rfl, hzmq⟩, he⟩
    refine ⟨fun r => ?_, (Except.ok.inj he).symm⟩
    cases r <;> assumption
  · rintro ⟨hfits, rfl⟩
    exact ⟨_, ⟨rfl, hfits .api⟩, _, ⟨rfl, hfits .udpReceiver⟩, _, ⟨rfl, hfits .tcpReceiver⟩, _,
      ⟨rfl, hfits .zmqIpc⟩, _, ⟨rfl, hfits .zmqPort⟩, rfl⟩

end PeerOverlay
