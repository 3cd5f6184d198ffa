/-
Neighbours in the ring lattice.

The lattice links each node from one side only, to the far ends of its own slots.  As sets of
neighbours these links make up a symmetric band:

* `Graph.mem_neighbors_lattice` — two nodes are neighbours if one of them lies at most `half`
  places on from the other, counted round the ring;
* `Graph.length_neighbors_lattice` — a node has `half` neighbours on either side, and no two of
  these coincide.

Places on are counted modulo `n` between integers, so that the way past node zero is the way
to any other node.
-/
import Mathlib.Data.Finset.Card
import Mathlib.Order.Interval.Finset.Nat
import PeerOverlay.Proofs.Topology.Lattice

namespace PeerOverlay

variable {n half u v i : Nat}

/-! ### Places on round the ring -/

/-- The way on from `v` to `u` passes node zero if `u` is less than `v`. -/
theorem sub_emod_eq (hu : u < n) (hv : v < n) :
    ((u : Int) - v) % n = if v ≤ u then (u : Int) - v else (u : Int) - v + n := by
  split
  next h => exact Int.emod_eq_of_lt (by omega) (by omega)
  next h =>
    rw [← Int.add_emod_right]
    exact Int.emod_eq_of_lt (by omega) (by omega)

/-- The far end of a slot is the node that lies its offset further on. -/
theorem eq_far_iff (hv : v < n) (hi : i < n) :
    u = Slot.far ⟨v, i⟩ n ↔ u < n ∧ ((u : Int) - v) % n = i := by
  have hlt : (v + i) % n < n := Nat.mod_lt _ (Nat.zero_lt_of_lt hv)
  have hfar : v + i = (v + i) % n ∨ v + i = (v + i) % n + n := add_eq_far_or hv hi
  show u = (v + i) % n ↔ _
  constructor
  · rintro rfl
    refine ⟨hlt, ?_⟩
    rw [sub_emod_eq hlt hv]
    split <;> omega
  · rintro ⟨hu, hsub⟩
    rw [sub_emod_eq hu hv] at hsub
    split at hsub <;> omega

/-- The slots at a node lead to the nodes that lie up to `half` places further on. -/
theorem exists_eq_far_iff (hn : half < n) (hv : v < n) :
    (∃ i, 1 ≤ i ∧ i ≤ half ∧ u = Slot.far ⟨v, i⟩ n) ↔
      u < n ∧ u ≠ v ∧ ((u : Int) - v) % n ≤ half := by
  constructor
  · rintro ⟨i, h1, hi, hfar⟩
    obtain ⟨hu, hsub⟩ := (eq_far_iff hv (by omega)).mp hfar
    refine ⟨hu, ?_, by omega⟩
    rintro rfl
    rw [Int.sub_self, Int.zero_emod] at hsub
    omega
  · rintro ⟨hu, hne, hsub⟩
    have hpos : 1 ≤ ((u : Int) - v) % n := by
      rw [sub_emod_eq hu hv]
      split <;> omega
    obtain ⟨i, hi⟩ := Int.eq_ofNat_of_zero_le (Int.le_of_lt hpos)
    exact ⟨i, by omega, by omega, (eq_far_iff hv (by omega)).mpr ⟨hu, hi⟩⟩

/-! ### The band -/

namespace Graph

/-- The neighbours of a node lie at the other ends of the edges that slots own. -/
theorem OwnedBy.mem_neighbors_iff {g : Graph} {slots : List Slot} {far : Slot → NodeId}
    (h : g.OwnedBy n slots far) :
    u ∈ g.neighbors v ↔ ∃ s ∈ slots, s(s.node, far s) = s(v, u) := by
  rw [← h.simple.mem_edges, ← h.bijOn.image_eq]
  rfl

/-- **Neighbours in the ring lattice lie at most `half` places apart.** -/
theorem mem_neighbors_lattice (hn : 2 * half < n) (hv : v < n) :
    u ∈ (lattice n half).neighbors v ↔
      u < n ∧ u ≠ v ∧ (((u : Int) - v) % n ≤ half ∨ ((v : Int) - u) % n ≤ half) := by
  have hhalf : half < n := by omega
  rw [(ownedBy_lattice hn).mem_neighbors_iff]
  constructor
  · rintro ⟨⟨w, i⟩, hs, he⟩
    obtain ⟨hw, h1, hi⟩ := mk_mem_latticeSlots.mp hs
    -- The slot leads from `v` on to `u` or from `u` on to `v`.
    rcases Sym2.eq_iff.mp he with ⟨rfl, hfar⟩ | ⟨rfl, hfar⟩
    · obtain ⟨hu, hne, hsub⟩ := (exists_eq_far_iff hhalf hw).mp ⟨i, h1, hi, hfar.symm⟩
      exact ⟨hu, hne, .inl hsub⟩
    · obtain ⟨-, hne, hsub⟩ := (exists_eq_far_iff hhalf hw).mp ⟨i, h1, hi, hfar.symm⟩
      exact ⟨hw, hne.symm, .inr hsub⟩
  · rintro ⟨hu, hne, hsub | hsub⟩
    · obtain ⟨i, h1, hi, hfar⟩ := (exists_eq_far_iff hhalf hv).mpr ⟨hu, hne, hsub⟩
      refine ⟨⟨v, i⟩, mk_mem_latticeSlots.mpr ⟨hv, h1, hi⟩, ?_⟩
      exact Sym2.eq_iff.mpr (.inl ⟨rfl, hfar.symm⟩)
    · obtain ⟨i, h1, hi, hfar⟩ := (exists_eq_far_iff hhalf hu).mpr ⟨hv, hne.symm, hsub⟩
      refine ⟨⟨u, i⟩, mk_mem_latticeSlots.mpr ⟨hu, h1, hi⟩, ?_⟩
      exact Sym2.eq_iff.mpr (.inr ⟨rfl, hfar.symm⟩)

/-- How many places on the neighbours of a node lie: up to `half` on, or up to `half` back. -/
def bandOffsets (n half : Nat) : Finset Nat :=
  Finset.Icc 1 half ∪ Finset.Ico (n - half) n

theorem mem_bandOffsets : i ∈ bandOffsets n half ↔ 1 ≤ i ∧ i ≤ half ∨ n - half ≤ i ∧ i < n := by
  rw [bandOffsets, Finset.mem_union, Finset.mem_Icc, Finset.mem_Ico]

theorem card_bandOffsets (hn : 2 * half < n) : (bandOffsets n half).card = 2 * half := by
  have hdisjoint : Disjoint (Finset.Icc 1 half) (Finset.Ico (n - half) n) := by
    refine Finset.disjoint_left.mpr fun i hi hi' => ?_
    rw [Finset.mem_Icc] at hi
    rw [Finset.mem_Ico] at hi'
    omega
  rw [bandOffsets, Finset.card_union_of_disjoint hdisjoint, Nat.card_Icc, Nat.card_Ico]
  omega

theorem mem_bandOffsets_iff (hn : half < n) (hu : u < n) (hv : v < n)
    (hi : ((u : Int) - v) % n = i) :
    i ∈ bandOffsets n half ↔
      u ≠ v ∧ (((u : Int) - v) % n ≤ half ∨ ((v : Int) - u) % n ≤ half) := by
  rw [mem_bandOffsets, hi, sub_emod_eq hv hu]
  rw [sub_emod_eq hu hv] at hi
  split at hi <;> split <;> omega

/-- **A node of the ring lattice has `half` neighbours on either side.** -/
theorem length_neighbors_lattice (hn : 2 * half < n) (hv : v < n) :
    ((lattice n half).neighbors v).length = 2 * half := by
  have hn' : (n : Int) ≠ 0 := by omega
  have hlt : ∀ i ∈ bandOffsets n half, i < n := by
    intro i hi
    rw [mem_bandOffsets] at hi
    omega
  have himage : ((lattice n half).neighbors v).toFinset =
      (bandOffsets n half).image fun i => Slot.far ⟨v, i⟩ n := by
    ext u
    rw [List.mem_toFinset, mem_neighbors_lattice hn hv, Finset.mem_image]
    constructor
    · rintro ⟨hu, hband⟩
      obtain ⟨i, hi⟩ := Int.eq_ofNat_of_zero_le (Int.emod_nonneg ((u : Int) - v) hn')
      have hmem := (mem_bandOffsets_iff (by omega) hu hv hi).mpr hband
      exact ⟨i, hmem, ((eq_far_iff hv (hlt i hmem)).mpr ⟨hu, hi⟩).symm⟩
    · rintro ⟨i, hmem, hfar⟩
      obtain ⟨hu, hi⟩ := (eq_far_iff hv (hlt i hmem)).mp hfar.symm
      exact ⟨hu, (mem_bandOffsets_iff (by omega) hu hv hi).mp hmem⟩
  have hinj : Set.InjOn (fun i => Slot.far ⟨v, i⟩ n) (bandOffsets n half) := by
    intro i hi j hj hij
    have hsub := ((eq_far_iff hv (hlt i hi)).mp rfl).2
    have hsub' := ((eq_far_iff hv (hlt j hj)).mp hij).2
    exact Int.ofNat_inj.mp (hsub.symm.trans hsub')
  rw [← List.toFinset_card_of_nodup ((ownedBy_lattice hn).simple.nodup v), himage,
    Finset.card_image_of_injOn hinj, card_bandOffsets hn]

end Graph

end PeerOverlay
