/-
Blocks handed out in a row.

Allocation goes on as long as every range has a value for the next node.  The ranges run out
at different nodes, and the shortest of them decides: `BasePorts.firstExcluded` is one past
the last node that it holds.

* `BasePorts.valueFor_eq_wordFor?` — values are the same whether they are computed in words of
  32 bits or in unbounded numbers;
* `BasePorts.fits_iff` — a node fits every range if it lies before the first excluded one;
* `PortCounters.allocate_eq_error_iff` — which range is blamed for a node without a block;
* `PortCounters.allocateMany_of_le`, `PortCounters.allocateMany_of_lt` — allocations in a row
  up to the first excluded node, and beyond it;
* `PortCounters.allocateMany_start` — all of this from the first node on.
-/
import Mathlib.Order.Basic
import PeerOverlay.Proofs.Ports.Capacity

namespace PeerOverlay

namespace BasePorts

variable {bases : BasePorts} {node : Nat} {r : Resource} {cause : AllocationError}

theorem maxValue_lt_size (r : Resource) : r.maxValue < UInt32.size := by
  cases r <;> decide

theorem base_le_maxValue (bases : BasePorts) (r : Resource) : bases.base r ≤ r.maxValue := by
  cases r
  · exact Nat.le_pred_of_lt bases.api.toNat_lt
  · exact Nat.le_pred_of_lt bases.udp.toNat_lt
  · exact Nat.le_pred_of_lt bases.tcp.toNat_lt
  · exact Nat.le_pred_of_lt bases.ipc.toNat_lt
  · exact Nat.le_pred_of_lt bases.zmq.toNat_lt

theorem valueFor_eq_error_iff :
    bases.valueFor r node = .error cause ↔
      r.maxValue < bases.base r + node ∧ cause = .rangeExhausted r (bases.base r) node := by
  rw [valueFor]
  split
  next hle => simp [Nat.not_lt.mpr hle]
  next hlt => simp [Nat.lt_of_not_le hlt, eq_comm]

/-! ### Values in words -/

/-- The value of a resource computed in words of 32 bits.  The node has to fit a word, its sum
with the base must not overflow, and the sum must not exceed the greatest value. -/
def wordFor? (bases : BasePorts) (resource : Resource) (node : UInt64) : Option UInt32 :=
  let base := UInt32.ofNat (bases.base resource)
  let value := base + node.toUInt32
  if node.toNat < UInt32.size ∧ base ≤ value ∧ value.toNat ≤ resource.maxValue then some value
  else none

/-- A sum of two words overflows exactly if it is smaller than the first of them. -/
theorem le_add_iff {a b : UInt32} : a ≤ a + b ↔ a.toNat + b.toNat < UInt32.size := by
  have ha := a.toNat_lt
  have hb := b.toNat_lt
  simp only [UInt32.le_iff_toNat_le, UInt32.toNat_add, UInt32.size]
  omega

theorem wordFor?_eq_some_iff {node : UInt64} {value : UInt32} :
    bases.wordFor? r node = some value ↔
      value.toNat = bases.base r + node.toNat ∧ value.toNat ≤ r.maxValue := by
  have hbase : (UInt32.ofNat (bases.base r)).toNat = bases.base r :=
    UInt32.toNat_ofNat_of_lt' (Nat.lt_of_le_of_lt (base_le_maxValue bases r) (maxValue_lt_size r))
  have hnode : node.toNat < UInt32.size → node.toUInt32.toNat = node.toNat := by
    intro h
    rw [UInt64.toNat_toUInt32]
    exact Nat.mod_eq_of_lt h
  rw [wordFor?, Option.ite_none_right_eq_some, Option.some.injEq]
  constructor
  · rintro ⟨⟨hfits, hover, hmax⟩, rfl⟩
    refine ⟨?_, hmax⟩
    rw [le_add_iff, hbase, hnode hfits] at hover
    rw [UInt32.toNat_add, hbase, hnode hfits]
    exact Nat.mod_eq_of_lt hover
  · rintro ⟨hvalue, hmax⟩
    -- A value within the range fits a word, and the node is no greater than the value.
    have hsum : bases.base r + node.toNat < UInt32.size := hvalue ▸ value.toNat_lt
    have hfits : node.toNat < UInt32.size := Nat.lt_of_le_of_lt (Nat.le_add_left _ _) hsum
    have heq : UInt32.ofNat (bases.base r) + node.toUInt32 = value := by
      rw [← UInt32.toNat_inj, hvalue, UInt32.toNat_add, hbase, hnode hfits]
      exact Nat.mod_eq_of_lt hsum
    refine ⟨⟨hfits, ?_, heq ▸ hmax⟩, heq⟩
    rwa [le_add_iff, hbase, hnode hfits]

/-- **Computing in words loses nothing.**  For every node of 64 bits the value in words is the
one in unbounded numbers, and it is missing for the same nodes. -/
theorem valueFor_eq_wordFor? (bases : BasePorts) (r : Resource) (node : UInt64) :
    bases.valueFor r node.toNat =
      match bases.wordFor? r node with
      | some value => .ok value.toNat
      | none => .error (.rangeExhausted r (bases.base r) node.toNat) := by
  rcases hword : bases.wordFor? r node with _ | value
  · refine valueFor_eq_error_iff.mpr ⟨Nat.lt_of_not_le fun hle => ?_, rfl⟩
    have hvalue : (UInt32.ofNat (bases.base r + node.toNat)).toNat =
        bases.base r + node.toNat :=
      UInt32.toNat_ofNat_of_lt' (Nat.lt_of_le_of_lt hle (maxValue_lt_size r))
    rw [wordFor?_eq_some_iff.mpr ⟨hvalue, hvalue.trans_le hle⟩] at hword
    cases hword
  · exact valueFor_eq_ok_iff.mpr (wordFor?_eq_some_iff.mp hword)

/-! ### The first node without a block -/

theorem map_all_ne_nil (f : Resource → Nat) : Resource.all.map f ≠ [] :=
  List.map_eq_nil_iff.not.mpr (by decide)

/-- The first node for which some range has no value: one past the last node that the shortest
range holds. -/
def firstExcluded (bases : BasePorts) : NodeId :=
  (Resource.all.map fun r => r.maxValue - bases.base r).min (map_all_ne_nil _) + 1

theorem fits_iff : bases.Fits node ↔ node < bases.firstExcluded := by
  rw [firstExcluded, Nat.lt_succ_iff, List.le_min_iff, List.forall_mem_map]
  constructor
  · intro h r _
    exact Nat.le_sub_of_add_le' (h r)
  · intro h r
    exact Nat.add_le_of_le_sub' (base_le_maxValue bases r) (h r (Resource.mem_all r))

/-- The first of some ranges that has no value for a node. -/
def exhausted? (bases : BasePorts) (node : NodeId) (l : List Resource) : Option Resource :=
  l.find? fun r => r.maxValue < bases.base r + node

theorem exhausted?_all_eq_none_iff :
    bases.exhausted? node Resource.all = none ↔ bases.Fits node := by
  simp [exhausted?, Resource.mem_all, Fits]

theorem exists_exhausted?_all (h : bases.firstExcluded ≤ node) :
    ∃ r, bases.exhausted? node Resource.all = some r := by
  refine Option.ne_none_iff_exists'.mp fun hnone => ?_
  exact Nat.not_lt.mpr h (fits_iff.mp (exhausted?_all_eq_none_iff.mp hnone))

/-- An error is the want of a value in the first of some ranges that has none for a node. -/
def Blames (bases : BasePorts) (node : NodeId) (l : List Resource) (cause : AllocationError) :
    Prop :=
  ∃ r, bases.exhausted? node l = some r ∧ cause = .rangeExhausted r (bases.base r) node

/-- One range is asked for its value before some others. -/
theorem bind_valueFor_eq_error_iff {α : Type} {l : List Resource}
    {next : Nat → Except AllocationError α}
    (h : next (bases.base r + node) = .error cause ↔ bases.Blames node l cause) :
    (bases.valueFor r node >>= next) = .error cause ↔ bases.Blames node (r :: l) cause := by
  rcases Nat.lt_or_ge r.maxValue (bases.base r + node) with hlt | hle
  · have hfind : bases.exhausted? node (r :: l) = some r :=
      List.find?_cons_of_pos (decide_eq_true hlt)
    rw [valueFor_eq_error_iff.mpr ⟨hlt, rfl⟩]
    constructor
    · intro he
      exact ⟨r, hfind, (Except.error.inj he).symm⟩
    · rintro ⟨r', hr', rfl⟩
      obtain rfl := Option.some.inj (hfind.symm.trans hr')
      rfl
  · have hfind : bases.exhausted? node (r :: l) = bases.exhausted? node l :=
      List.find?_cons_of_neg (by simpa using hle)
    rw [valueFor_eq_ok_iff.mpr ⟨rfl, hle⟩, Blames, hfind]
    exact h

end BasePorts

namespace PortCounters

variable {counters : PortCounters} {bases : BasePorts} {count : Nat} {r : Resource}

/-! ### Allocations in a row -/

/-- Of the ranges without a value for the node, the first in the order of allocation is
blamed. -/
theorem allocate_eq_error_iff {cause : AllocationError} :
    counters.allocate = .error cause ↔
      counters.bases.Blames counters.nextNode Resource.all cause := by
  refine BasePorts.bind_valueFor_eq_error_iff ?_
  refine BasePorts.bind_valueFor_eq_error_iff ?_
  refine BasePorts.bind_valueFor_eq_error_iff ?_
  refine BasePorts.bind_valueFor_eq_error_iff ?_
  refine BasePorts.bind_valueFor_eq_error_iff ?_
  exact ⟨nofun, nofun⟩

theorem allocateMany_of_le (count : Nat) :
    ∀ counters : PortCounters, counters.nextNode + count ≤ counters.bases.firstExcluded →
      counters.allocateMany count =
        (.ok ((List.range' counters.nextNode count).map counters.bases.block),
          ⟨counters.bases, counters.nextNode + count⟩) := by
  -- Each block advances the counters, so they vary with the count.
  induction count with
  | zero =>
    intro counters _
    rfl
  | succ count ih =>
    intro counters h
    have hnext : counters.nextNode < counters.bases.firstExcluded :=
      Nat.lt_of_lt_of_le (Nat.lt_add_of_pos_right count.succ_pos) h
    have hallocate := allocate_eq_ok_iff.mpr ⟨BasePorts.fits_iff.mpr hnext, rfl⟩
    have hshift : counters.nextNode + 1 + count = counters.nextNode + (count + 1) :=
      Nat.succ_add_eq_add_succ _ _
    have hrest := ih ⟨counters.bases, counters.nextNode + 1⟩ (hshift.trans_le h)
    rw [allocateMany, hallocate]
    simp only [hrest, hshift, List.range'_succ, List.map_cons]
    rfl

/-- Beyond the first excluded node nothing is handed out, and the counters stay there. -/
theorem allocateMany_of_lt (count : Nat) :
    ∀ counters : PortCounters, counters.nextNode ≤ counters.bases.firstExcluded →
      counters.bases.firstExcluded < counters.nextNode + count →
      counters.bases.exhausted? counters.bases.firstExcluded Resource.all = some r →
        counters.allocateMany count =
          (.error (.rangeExhausted r (counters.bases.base r) counters.bases.firstExcluded),
            ⟨counters.bases, counters.bases.firstExcluded⟩) := by
  induction count with
  | zero =>
    intro counters hnext hcount _
    exact absurd hnext (Nat.not_le.mpr hcount)
  | succ count ih =>
    intro counters hnext hcount hr
    rcases Nat.eq_or_lt_of_le hnext with hend | hlt
    · obtain ⟨bases, node⟩ := counters
      obtain rfl : node = bases.firstExcluded := hend
      have hallocate := allocate_eq_error_iff.mpr ⟨r, hr, rfl⟩
      rw [allocateMany, hallocate]
    · have hallocate := allocate_eq_ok_iff.mpr ⟨BasePorts.fits_iff.mpr hlt, rfl⟩
      have hshift : counters.nextNode + 1 + count = counters.nextNode + (count + 1) :=
        Nat.succ_add_eq_add_succ _ _
      have hrest := ih ⟨counters.bases, counters.nextNode + 1⟩ hlt
        (hcount.trans_eq hshift.symm) hr
      rw [allocateMany, hallocate]
      simp only [hrest]
      rfl

/-- Blocks that are handed out from the first node on are those of the nodes in order. -/
theorem allocateMany_start_eq_ok_iff {blocks : List PortBlock} :
    ((start bases).allocateMany count).1 = .ok blocks ↔
      count ≤ bases.firstExcluded ∧ blocks = (List.range count).map bases.block := by
  rcases Nat.lt_or_ge bases.firstExcluded count with hlt | hle
  · obtain ⟨r, hr⟩ := BasePorts.exists_exhausted?_all (Nat.le_refl bases.firstExcluded)
    have hfails := allocateMany_of_lt count (start bases) (Nat.zero_le _)
      (hlt.trans_eq (Nat.zero_add count).symm) hr
    rw [hfails]
    exact ⟨nofun, fun h => absurd h.1 (Nat.not_le.mpr hlt)⟩
  · have hall := allocateMany_of_le count (start bases) ((Nat.zero_add count).trans_le hle)
    rw [hall, Except.ok.injEq, List.range_eq_range', eq_comm]
    exact (and_iff_right hle).symm

/-- The last of some blocks decides whether they can all be handed out. -/
theorem le_firstExcluded_iff :
    count ≤ bases.firstExcluded ↔ count = 0 ∨ bases.Fits (count - 1) := by
  rw [BasePorts.fits_iff]
  have hpos : 0 < bases.firstExcluded := Nat.succ_pos _
  omega

/-- **How far blocks are handed out from the first node on, and what stops it.**  Values are
computed in words without loss.  A number of blocks is handed out exactly if every range holds
the last of them, that is up to the first excluded node; they are the blocks of the nodes in
order, with base plus node in every range.  Allocation fails at the first excluded node, for the
first range in the order of allocation that cannot hold it, and fails alike however often it is
tried again.  The up-front check asks for positive bases and for as many blocks as there are
nodes. -/
theorem allocateMany_start (bases : BasePorts) :
    (∀ r (node : UInt64), bases.valueFor r node.toNat =
      match bases.wordFor? r node with
      | some value => .ok value.toNat
      | none => .error (.rangeExhausted r (bases.base r) node.toNat)) ∧
    (∀ count, ((∃ blocks, ((start bases).allocateMany count).1 = .ok blocks) ↔
        count = 0 ∨ ∀ r, bases.base r + (count - 1) ≤ r.maxValue) ∧
      ((∃ blocks, ((start bases).allocateMany count).1 = .ok blocks) ↔
        count ≤ bases.firstExcluded)) ∧
    (∀ count blocks, ((start bases).allocateMany count).1 = .ok blocks →
      blocks.length = count ∧
      (∀ i block, blocks[i]? = some block →
        block.node = i ∧ ∀ r, block.get r = bases.base r + i) ∧
      ∀ r, (blocks.map (·.get r)).Pairwise (· < ·)) ∧
    (∃ r, (Resource.all.find? fun r => r.maxValue < bases.base r + bases.firstExcluded) =
        some r ∧
      ∀ count, bases.firstExcluded < count →
        (start bases).allocateMany count =
          (.error (.rangeExhausted r (bases.base r) bases.firstExcluded),
            ⟨bases, bases.firstExcluded⟩) ∧
        ∀ again, 0 < again →
          ((start bases).allocateMany count).2.allocateMany again =
            (start bases).allocateMany count) ∧
    ∀ numNodes, bases.checkCapacity numNodes = .ok () ↔
      (∀ r, 0 < bases.base r) ∧
        ∃ blocks, ((start bases).allocateMany numNodes).1 = .ok blocks := by
  have hexists : ∀ count, (∃ blocks, ((start bases).allocateMany count).1 = .ok blocks) ↔
      count ≤ bases.firstExcluded := by
    intro count
    simp only [allocateMany_start_eq_ok_iff, exists_and_left, exists_eq, and_true]
  refine ⟨bases.valueFor_eq_wordFor?, fun count => ⟨?_, hexists count⟩, ?_, ?_, ?_⟩
  · rw [hexists, le_firstExcluded_iff]
    rfl
  · intro count blocks h
    obtain ⟨hle, rfl⟩ := allocateMany_start_eq_ok_iff.mp h
    have hget : ∀ i < count, ∀ r, (bases.block i).get r = bases.base r + i := fun i hi =>
      BasePorts.get_block (BasePorts.fits_iff.mpr (Nat.lt_of_lt_of_le hi hle))
    refine ⟨by rw [List.length_map, List.length_range], ?_, ?_⟩
    · intro i block hblock
      obtain ⟨j, hj, rfl⟩ := Option.map_eq_some_iff.mp (List.getElem?_map.symm.trans hblock)
      obtain ⟨hi, rfl⟩ := List.getElem?_eq_some_iff.mp hj
      rw [List.getElem_range]
      exact ⟨rfl, hget i (by rwa [List.length_range] at hi)⟩
    · intro r
      rw [List.map_map, List.pairwise_map]
      refine (List.pairwise_lt_range).imp_of_mem fun {i j} hi hj hij => ?_
      show (bases.block i).get r < (bases.block j).get r
      rw [hget i (List.mem_range.mp hi), hget j (List.mem_range.mp hj)]
      exact Nat.add_lt_add_left hij _
  · obtain ⟨r, hr⟩ := BasePorts.exists_exhausted?_all (Nat.le_refl bases.firstExcluded)
    refine ⟨r, hr, fun count hcount => ?_⟩
    have hfails := allocateMany_of_lt count (start bases) (Nat.zero_le _)
      (hcount.trans_eq (Nat.zero_add count).symm) hr
    refine ⟨hfails, fun again hagain => ?_⟩
    rw [hfails]
    exact allocateMany_of_lt again ⟨bases, bases.firstExcluded⟩ (Nat.le_refl _)
      (Nat.lt_add_of_pos_right hagain) hr
  · intro numNodes
    rw [hexists, BasePorts.checkCapacity_eq_ok_iff, le_firstExcluded_iff]

/-- Two ranges that hold two nodes each: the first of them in the order of allocation is blamed. -/
theorem allocateMany_start_twoNodes :
    (∃ blocks, ((start { udp := 65534, zmq := 65534 }).allocateMany 2).1 = .ok blocks ∧
      blocks.length = 2) ∧
    (start { udp := 65534, zmq := 65534 }).allocateMany 5 =
      (.error (.rangeExhausted .udpReceiver 65534 2), ⟨{ udp := 65534, zmq := 65534 }, 2⟩) := by
  obtain ⟨-, hcount, hblocks, ⟨r, hr, hfails⟩, -⟩ :=
    allocateMany_start { udp := 65534, zmq := 65534 }
  have hexcluded : BasePorts.firstExcluded { udp := 65534, zmq := 65534 } = 2 := by decide
  rw [hexcluded] at hr hfails
  constructor
  · obtain ⟨blocks, h⟩ := (hcount 2).2.mpr (Nat.le_of_eq hexcluded.symm)
    exact ⟨blocks, h, (hblocks 2 blocks h).1⟩
  · have hudp : Resource.udpReceiver = r := Option.some.inj hr
    rw [(hfails 5 (by decide)).1, ← hudp]
    rfl

end PortCounters

end PeerOverlay
