/-
The ring lattice and the ownership of edges.

`Graph.OwnedBy` is the invariant of small-world graphs: the slots of the lattice are in
one-to-one correspondence with the edges of the graph.

* `Graph.ownedBy_lattice` — in the ring lattice every slot owns its lattice edge, because
  slots that reach less than half way round the ring lead along different edges
  (`injOn_latticeEdge`);
* `Graph.OwnedBy.rewire` — moving the far end of one slot's edge keeps the
  correspondence;
* `Graph.OwnedBy.edgeCount_eq` — there are as many edges as slots;
* `Graph.OwnedBy.half_le_length_neighbors` — no node has fewer neighbours than slots.
-/
import PeerOverlay.Proofs.Topology.SimpleGraph
import PeerOverlay.Topology.SmallWorld

namespace PeerOverlay

variable {n half u v i j : Nat} {s : Slot}

/-! ### Slots and their lattice edges -/

/-- The far end of a slot lies `i` places further on, perhaps once round the ring. -/
theorem add_eq_far_or (hv : v < n) (hi : i < n) :
    v + i = Slot.far ⟨v, i⟩ n ∨ v + i = Slot.far ⟨v, i⟩ n + n := by
  show v + i = (v + i) % n ∨ v + i = (v + i) % n + n
  rcases Nat.lt_or_ge (v + i) n with h | h
  · exact .inl (Nat.mod_eq_of_lt h).symm
  · rw [Nat.mod_eq_sub_mod h, Nat.mod_eq_of_lt (by omega)]
    omega

theorem mk_mem_latticeSlots :
    (⟨v, i⟩ : Slot) ∈ latticeSlots n half ↔ v < n ∧ 1 ≤ i ∧ i ≤ half := by
  rw [latticeSlots, List.mem_flatMap]
  constructor
  · rintro ⟨j, hj, hs⟩
    obtain ⟨u, hu, he⟩ := List.mem_map.mp hs
    obtain ⟨rfl, rfl⟩ := Slot.mk.inj he
    rw [List.mem_range] at hj hu
    exact ⟨hu, by omega, hj⟩
  · rintro ⟨hv, h1, hh⟩
    refine ⟨i - 1, List.mem_range.mpr (by omega),
      List.mem_map.mpr ⟨v, List.mem_range.mpr hv, ?_⟩⟩
    rw [Nat.sub_add_cancel h1]

theorem nodup_latticeSlots (n half : Nat) : (latticeSlots n half).Nodup := by
  rw [latticeSlots, List.nodup_flatMap]
  constructor
  · intro i _
    exact List.nodup_range.map fun u v h => congrArg Slot.node h
  · refine List.nodup_range.imp fun {i j} hij s hi hj => hij ?_
    obtain ⟨u, -, rfl⟩ := List.mem_map.mp hi
    obtain ⟨v, -, h⟩ := List.mem_map.mp hj
    exact (Nat.succ_injective (congrArg Slot.offset h)).symm

theorem length_latticeSlots (n half : Nat) : (latticeSlots n half).length = half * n := by
  simp [latticeSlots, List.length_flatMap]

theorem far_lt (hs : s ∈ latticeSlots n half) : s.far n < n := by
  obtain ⟨v, i⟩ := s
  exact Nat.mod_lt _ (Nat.zero_lt_of_lt (mk_mem_latticeSlots.mp hs).1)

theorem node_ne_far (hn : 2 * half < n) (hs : s ∈ latticeSlots n half) :
    s.node ≠ s.far n := by
  obtain ⟨v, i⟩ := s
  obtain ⟨hv, h1, hh⟩ := mk_mem_latticeSlots.mp hs
  have hi : i < n := by omega
  intro he
  dsimp only at he
  rcases add_eq_far_or hv hi with hfar | hfar
  · rw [← he] at hfar
    omega
  · rw [← he] at hfar
    omega

/-- Slots that reach less than half way round the ring lead along different edges: between
two nodes only one way round is that short. -/
theorem injOn_latticeEdge (hn : 2 * half < n) :
    Set.InjOn (fun s : Slot => s(s.node, s.far n)) {s | s ∈ latticeSlots n half} := by
  rintro ⟨u, i⟩ hs ⟨v, j⟩ ht he
  obtain ⟨hu, hi, hi'⟩ := mk_mem_latticeSlots.mp hs
  obtain ⟨hv, hj, hj'⟩ := mk_mem_latticeSlots.mp ht
  have hfu := add_eq_far_or hu (show i < n by omega)
  have hfv := add_eq_far_or hv (show j < n by omega)
  have he : (s(u, Slot.far ⟨u, i⟩ n) : Sym2 Nat) = s(v, Slot.far ⟨v, j⟩ n) := he
  rcases Sym2.eq_iff.mp he with ⟨rfl, hfar⟩ | ⟨huf, hfar⟩
  · rw [Slot.mk.injEq]
    exact ⟨rfl, by omega⟩
  · -- Each slot ends where the other starts, so their offsets would add up to the ring.
    omega

/-! ### Ownership -/

namespace Graph

/-- Slots own the edges of a graph on `n` nodes: slot `s` owns the edge from its node to
`far s`, different slots own different edges, and every edge is owned. -/
structure OwnedBy (g : Graph) (n : Nat) (slots : List Slot) (far : Slot → NodeId) : Prop where
  numNodes : g.numNodes = n
  simple : g.Simple
  bijOn : Set.BijOn (fun s => s(s.node, far s)) {s | s ∈ slots} g.edges

namespace OwnedBy

variable {g : Graph} {slots : List Slot} {far : Slot → NodeId} {t : NodeId}

theorem simpleOn (h : g.OwnedBy n slots far) : g.SimpleOn n :=
  ⟨h.simple, h.numNodes⟩

theorem far_mem_neighbors (h : g.OwnedBy n slots far) (hs : s ∈ slots) :
    far s ∈ g.neighbors s.node :=
  h.simple.mem_edges.mp (h.bijOn.mapsTo hs)

/-- There are as many edges as slots. -/
theorem edgeCount_eq (h : g.OwnedBy n slots far) (hnd : slots.Nodup) :
    g.edgeCount = slots.length := by
  have hslots : {s | s ∈ slots} = (slots.toFinset : Set Slot) := by
    ext s
    simp
  rw [h.simple.edgeCount_eq, ← h.bijOn.image_eq, h.bijOn.injOn.ncard_image, hslots,
    Set.ncard_coe_finset, List.toFinset_card_of_nodup hnd]

/-- If the slots of the lattice own the edges, the ones at a node lead to different
neighbours of it. -/
theorem half_le_length_neighbors (h : g.OwnedBy n (latticeSlots n half) far) (hv : v < n) :
    half ≤ (g.neighbors v).length := by
  have hslot : ∀ i ∈ List.range half, (⟨v, i + 1⟩ : Slot) ∈ latticeSlots n half := by
    intro i hi
    exact mk_mem_latticeSlots.mpr ⟨hv, Nat.succ_pos i, List.mem_range.mp hi⟩
  have hnd : ((List.range half).map fun i => far ⟨v, i + 1⟩).Nodup := by
    refine List.nodup_range.map_on fun i hi j hj hij => ?_
    have hslots : (⟨v, i + 1⟩ : Slot) = ⟨v, j + 1⟩ :=
      h.bijOn.injOn (hslot i hi) (hslot j hj) (by simp only [hij])
    exact Nat.succ_injective (congrArg Slot.offset hslots)
  have hsub : ((List.range half).map fun i => far ⟨v, i + 1⟩) ⊆ g.neighbors v := by
    intro u hu
    obtain ⟨i, hi, rfl⟩ := List.mem_map.mp hu
    exact h.far_mem_neighbors (hslot i hi)
  simpa using (hnd.subperm hsub).length_le

/-- A new edge is owned by a new slot. -/
theorem link (h : g.OwnedBy n slots far) (hnode : s.node < n) (hfar : far s < n)
    (hne : s.node ≠ far s) (hfresh : far s ∉ g.neighbors s.node) :
    (g.link s.node (far s)).OwnedBy n (slots ++ [s]) far := by
  have ha : s.node < g.numNodes := h.numNodes.symm ▸ hnode
  have hb : far s < g.numNodes := h.numNodes.symm ▸ hfar
  have hslots : {x | x ∈ slots ++ [s]} = insert s {x | x ∈ slots} := by
    ext x
    simp [or_comm]
  refine ⟨by simpa using h.numNodes, h.simple.link hne ha hb, ?_⟩
  rw [hslots, h.simple.edges_link hne ha hb]
  exact h.bijOn.insert fun he => hfresh (h.simple.mem_edges.mp he)

/-- Moving the far end of a slot's edge to a node that is no neighbour yet changes what that
slot owns and nothing else. -/
theorem rewire (h : g.OwnedBy n slots far) (hs : s ∈ slots) (ht : t < n) (hne : t ≠ s.node)
    (hfresh : t ∉ g.neighbors s.node) :
    ((g.unlink s.node (far s)).link s.node t).OwnedBy n slots (Function.update far s t) := by
  have hfar := h.far_mem_neighbors hs
  have hne' : s.node ≠ far s := fun he => h.simple.irrefl _ (he ▸ hfar)
  have ha : s.node < g.numNodes := h.simple.lt_numNodes (h.simple.symm hfar)
  have hb : far s < g.numNodes := h.simple.lt_numNodes hfar
  have ht : t < g.numNodes := h.numNodes.symm ▸ ht
  have hsimple := h.simple.unlink hne' ha hb
  refine ⟨by simpa using h.numNodes, hsimple.link hne.symm (by simpa) (by simpa), ?_⟩
  rw [hsimple.edges_link hne.symm (by simpa) (by simpa), h.simple.edges_unlink hne' ha hb]
  -- Without the slot and its edge the correspondence stays as it was.
  have hrest : Set.BijOn (fun x => s(x.node, Function.update far s t x))
      ({x | x ∈ slots} \ {s}) (g.edges \ {s(s.node, far s)}) := by
    refine (h.bijOn.sdiff_singleton hs).congr fun x hx => ?_
    simp only [Function.update_of_ne hx.2]
  have hnew : s(s.node, Function.update far s t s) ∉ g.edges \ {s(s.node, far s)} := by
    rw [Function.update_self]
    exact fun he => hfresh (h.simple.mem_edges.mp he.1)
  have hs : s ∈ {x | x ∈ slots} := hs
  have hall := hrest.insert hnew
  rwa [Function.update_self, Set.insert_sdiff_singleton, Set.insert_eq_of_mem hs] at hall

end OwnedBy

/-- Links the lattice edges of further slots. -/
theorem ownedBy_foldl_link (hn : 2 * half < n) {todo : List Slot} :
    ∀ (done : List Slot) (g : Graph), done ++ todo = latticeSlots n half →
      g.OwnedBy n done (·.far n) →
      (todo.foldl (fun g s => g.link s.node (s.far n)) g).OwnedBy n (latticeSlots n half)
        (·.far n) := by
  induction todo with
  | nil =>
    intro done g hall hg
    rwa [← hall, List.append_nil]
  | cons s rest ih =>
    intro done g hall hg
    have hs : s ∈ latticeSlots n half := hall ▸ by simp
    have hnd : (done ++ s :: rest).Nodup := hall ▸ nodup_latticeSlots n half
    refine ih (done ++ [s]) _ (by simpa using hall) (hg.link ?_ ?_ ?_ ?_)
    · exact (mk_mem_latticeSlots.mp hs).1
    · exact far_lt hs
    · exact node_ne_far hn hs
    · intro hmem
      -- An edge that is there already is owned by an earlier slot, which is not `s`.
      obtain ⟨x, hx, he⟩ := hg.bijOn.surjOn (hg.simple.mem_edges.mpr hmem)
      have hx' : x ∈ latticeSlots n half := hall ▸ List.mem_append_left _ hx
      have hxs := injOn_latticeEdge hn hx' hs he
      exact (List.nodup_append.mp hnd).2.2 x hx s (by simp) hxs

theorem ownedBy_edgeless (n : Nat) {far : Slot → NodeId} : (edgeless n).OwnedBy n [] far := by
  refine ⟨by simp [edgeless, numNodes], simple_edgeless n, ?_⟩
  simp [edges_edgeless]

/-- **Each slot owns its edge of the ring lattice.** -/
theorem ownedBy_lattice (hn : 2 * half < n) :
    (lattice n half).OwnedBy n (latticeSlots n half) (·.far n) :=
  ownedBy_foldl_link hn [] _ (List.nil_append _) (ownedBy_edgeless n)

end Graph

end PeerOverlay
