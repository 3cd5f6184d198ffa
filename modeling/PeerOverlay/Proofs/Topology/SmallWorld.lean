/-
Finished small-world graphs.

* `exists_smallWorld_eq_ok` — parameters that pass the check fit a graph: only a search
  that runs out of patience can fail;
* `smallWorld_mono` — the patience does not matter beyond that;
* `exists_ownedBy` — in a finished graph the slots own the edges;
* `half_le_degree_of_smallWorld` — so every node has at least `k / 2` neighbours;
* `smallWorld_simple_edgeCount` — a finished graph is simple and has `k / 2` edges a
  node.
-/
import PeerOverlay.Proofs.Topology.Rewiring

namespace PeerOverlay

variable {n patience : Nat} {params : SmallWorldParams} {source : DrawSource}

/-- The slots of a graph of `n` nodes; a single node has none. -/
def SmallWorldParams.slots (params : SmallWorldParams) (n : Nat) : List Slot :=
  if n = 1 then [] else latticeSlots n (params.k / 2)

theorem SmallWorldParams.slots_one (params : SmallWorldParams) : params.slots 1 = [] :=
  if_pos rfl

theorem SmallWorldParams.slots_of_one_lt (params : SmallWorldParams) (hn : 1 < n) :
    params.slots n = latticeSlots n (params.k / 2) :=
  if_neg (Nat.ne_of_gt hn)

theorem SmallWorldParams.nodup_slots (params : SmallWorldParams) (n : Nat) :
    (params.slots n).Nodup := by
  unfold slots
  split
  · exact List.nodup_nil
  · exact nodup_latticeSlots n _

theorem SmallWorldParams.pos_of_check (hc : params.check n = .ok ()) : 0 < n :=
  Nat.pos_of_ne_zero (SmallWorldParams.check_eq_ok_iff.mp hc).1

/-- The reach of the slots is less than half way round the ring. -/
theorem SmallWorldParams.two_mul_half_lt (hc : params.check n = .ok ()) (hn : 1 < n) :
    2 * (params.k / 2) < n := by
  obtain ⟨-, -, -, -, hk⟩ := SmallWorldParams.check_eq_ok_iff.mp hc
  have := hk hn
  omega

theorem SmallWorldParams.one_le_half (hc : params.check n = .ok ()) : 1 ≤ params.k / 2 := by
  obtain ⟨-, -, -, hk, -⟩ := SmallWorldParams.check_eq_ok_iff.mp hc
  omega

theorem SmallWorldParams.length_slots (hc : params.check n = .ok ()) :
    (params.slots n).length = if n = 1 then 0 else n * params.k / 2 := by
  obtain ⟨-, -, heven, -, -⟩ := SmallWorldParams.check_eq_ok_iff.mp hc
  unfold slots
  split
  · rfl
  · rw [length_latticeSlots, Nat.mul_comm, Nat.mul_div_assoc _ (Nat.dvd_of_mod_eq_zero heven)]

/-- The wiring before the first visit: the ring lattice, and no word drawn. -/
def Wiring.start (n : Nat) (params : SmallWorldParams) : Wiring :=
  ⟨if n = 1 then .edgeless 1 else .lattice n (params.k / 2), 0⟩

theorem Wiring.start_of_one_lt (params : SmallWorldParams) (hn : 1 < n) :
    Wiring.start n params = ⟨.lattice n (params.k / 2), 0⟩ := by
  rw [start, if_neg (Nat.ne_of_gt hn)]

theorem Wiring.ownedBy_start (hc : params.check n = .ok ()) :
    (Wiring.start n params).graph.OwnedBy n (params.slots n) (·.far n) := by
  rcases Nat.eq_or_lt_of_le (SmallWorldParams.pos_of_check hc) with rfl | hn
  · rw [params.slots_one]
    exact Graph.ownedBy_edgeless 1
  · rw [params.slots_of_one_lt hn, start_of_one_lt params hn]
    exact Graph.ownedBy_lattice (SmallWorldParams.two_mul_half_lt hc hn)

/-- A graph is drawn by a visit to every slot, beginning with the start. -/
theorem smallWorld_of_check (hc : params.check n = .ok ()) :
    smallWorld n params source patience =
      match (Wiring.start n params).visitAll source n params.p patience (params.slots n) with
      | some w => .ok w
      | none => .error .exhausted := by
  rw [smallWorld, hc]
  rcases Nat.eq_or_lt_of_le (SmallWorldParams.pos_of_check hc) with rfl | hn
  · rw [params.slots_one]
    rfl
  · rw [params.slots_of_one_lt hn, Wiring.start_of_one_lt params hn]
    exact if_neg (Nat.ne_of_gt hn)

theorem smallWorld_eq_ok_iff (hc : params.check n = .ok ()) {w : Wiring} :
    smallWorld n params source patience = .ok w ↔
      (Wiring.start n params).visitAll source n params.p patience (params.slots n) =
        some w := by
  rw [smallWorld_of_check hc]
  cases (Wiring.start n params).visitAll source n params.p patience (params.slots n) <;> simp

/-- Parameters that pass the check fit a graph: only a search can fail. -/
theorem exists_smallWorld_eq_ok (hc : params.check n = .ok ())
    (hends : smallWorld n params source patience ≠ .error .exhausted) :
    ∃ w, smallWorld n params source patience = .ok w := by
  rw [smallWorld_of_check hc] at hends ⊢
  cases hrun : (Wiring.start n params).visitAll source n params.p patience
      (params.slots n) with
  | some w => exact ⟨w, rfl⟩
  | none => exact absurd (by rw [hrun]) hends

/-- More patience never changes a graph. -/
theorem smallWorld_mono (hc : params.check n = .ok ()) {w : Wiring} {patience' : Nat}
    (hle : patience ≤ patience') (h : smallWorld n params source patience = .ok w) :
    smallWorld n params source patience' = .ok w := by
  induction hle with
  | refl => exact h
  | step _ ih =>
    rw [smallWorld_eq_ok_iff hc] at ih ⊢
    exact Wiring.visitAll_succ ih

/-- **The slots own the edges of a finished graph.**  A slot whose visit left its edge
alone owns its lattice edge; `v` is the wiring that the visit to the slot found. -/
theorem exists_ownedBy (hc : params.check n = .ok ()) {w : Wiring}
    (h : smallWorld n params source patience = .ok w) :
    ∃ far, w.graph.OwnedBy n (params.slots n) far ∧
      ∀ front s back, params.slots n = front ++ s :: back →
        ∃ v, (Wiring.start n params).visitAll source n params.p patience front = some v ∧
          (v.Keeps source n params.p s → far s = s.far n) := by
  have hrun := (smallWorld_eq_ok_iff hc).mp h
  obtain ⟨far, hw, -, hkeeps⟩ := Wiring.ownedBy_visitAll (SmallWorldParams.pos_of_check hc)
    (List.Subset.refl _) (params.nodup_slots n) (Wiring.ownedBy_start hc)
    (fun _ _ => rfl) hrun
  exact ⟨far, hw, hkeeps⟩

theorem simpleOn_of_smallWorld (hc : params.check n = .ok ()) {w : Wiring}
    (h : smallWorld n params source patience = .ok w) : w.graph.SimpleOn n := by
  obtain ⟨far, hw, -⟩ := exists_ownedBy hc h
  exact hw.simpleOn

/-- Rewiring leaves every node the far ends of its own slots. -/
theorem half_le_degree_of_smallWorld (hc : params.check n = .ok ()) (hn : 1 < n) {w : Wiring}
    (h : smallWorld n params source patience = .ok w) {v : Nat} (hv : v < n) :
    params.k / 2 ≤ (w.graph.neighbors v).length := by
  obtain ⟨far, hw, -⟩ := exists_ownedBy hc h
  rw [params.slots_of_one_lt hn] at hw
  exact hw.half_le_length_neighbors hv

theorem neighbors_of_smallWorld_one (hc : params.check 1 = .ok ()) {w : Wiring}
    (h : smallWorld 1 params source patience = .ok w) (v : NodeId) :
    w.graph.neighbors v = [] := by
  rw [smallWorld_eq_ok_iff hc, params.slots_one] at h
  obtain rfl := Option.some.inj h
  exact Graph.neighbors_edgeless 1 v

/-- **A small-world graph is simple and has `k / 2` edges a node.**  Its nodes are the
numbers below `n`; neighbour lists ascend strictly, name other nodes only, and are
symmetric. -/
theorem smallWorld_simple_edgeCount (hc : params.check n = .ok ())
    (hends : smallWorld n params source patience ≠ .error .exhausted) :
    ∃ w, smallWorld n params source patience = .ok w ∧ w.graph.numNodes = n ∧
      (∀ v < n, ∃ l, w.graph.neighborsOf v = .ok l ∧
        l.Pairwise (· < ·) ∧ (∀ u ∈ l, u < n) ∧ v ∉ l) ∧
      (∀ u v lu lv, w.graph.neighborsOf u = .ok lu → w.graph.neighborsOf v = .ok lv →
        (u ∈ lv ↔ v ∈ lu)) ∧
      w.graph.edgeCount = if n = 1 then 0 else n * params.k / 2 := by
  obtain ⟨w, hw⟩ := exists_smallWorld_eq_ok hc hends
  obtain ⟨far, howned, -⟩ := exists_ownedBy hc hw
  have hgraph := howned.simpleOn
  have hsimple := hgraph.simple
  refine ⟨w, hw, hgraph.numNodes, ?_, ?_, ?_⟩
  · intro v hv
    exact ⟨w.graph.neighbors v, hgraph.neighborsOf_eq hv, hsimple.ascending v,
      fun u hu => hgraph.lt_of_mem hu, hsimple.irrefl v⟩
  · intro u v lu lv hlu hlv
    obtain ⟨-, rfl⟩ := Graph.neighborsOf_eq_ok_iff.mp hlu
    obtain ⟨-, rfl⟩ := Graph.neighborsOf_eq_ok_iff.mp hlv
    exact ⟨hsimple.symm, hsimple.symm⟩
  · rw [howned.edgeCount_eq (params.nodup_slots n), SmallWorldParams.length_slots hc]

/-- The multiples of an odd constant, as a source whose words are well spread. -/
def weylSource : DrawSource where
  word i := UInt64.ofNat (i * 0x9E3779B97F4A7C15)

/-- With probability one every slot of a dense graph is rewired that can be. -/
theorem smallWorld_simple_edgeCount_six :
    ∃ w, smallWorld 6 ⟨4, ⟨0x3FF0000000000000⟩⟩ weylSource 64 = .ok w ∧
      w.graph.numNodes = 6 ∧
      (∀ v < 6, ∃ l, w.graph.neighborsOf v = .ok l ∧
        l.Pairwise (· < ·) ∧ (∀ u ∈ l, u < 6) ∧ v ∉ l) ∧
      (∀ u v lu lv, w.graph.neighborsOf u = .ok lu → w.graph.neighborsOf v = .ok lv →
        (u ∈ lv ↔ v ∈ lu)) ∧
      w.graph.edgeCount = if 6 = 1 then 0 else 6 * 4 / 2 :=
  smallWorld_simple_edgeCount (by decide +kernel) (by decide +kernel)

end PeerOverlay
