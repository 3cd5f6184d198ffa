/-
Simple graphs and their edges.

`Graph.Simple` says that neighbour lists describe an undirected graph without loops:

* `Graph.Simple.link`, `Graph.Simple.unlink` — linking and unlinking different nodes keep
  a graph simple;
* `Graph.Simple.edges_link`, `Graph.Simple.edges_unlink` — they add and remove one edge;
* `Graph.Simple.edgeCount_eq` — half the total length of the neighbour lists is the
  number of edges, with nothing lost in halving.
-/
import Mathlib.Algebra.BigOperators.Group.Finset.Basic
import Mathlib.Algebra.Order.BigOperators.Group.Finset
import Mathlib.Data.Set.Card
import Mathlib.Data.Sym.Sym2
import PeerOverlay.Topology.Graph

namespace PeerOverlay

namespace Graph

variable {g : Graph} {a b u v : NodeId}

@[simp] theorem numNodes_link : (g.link a b).numNodes = g.numNodes := by
  unfold link numNodes
  split
  · rfl
  · simp

@[simp] theorem numNodes_unlink : (g.unlink a b).numNodes = g.numNodes := by
  simp [unlink, numNodes]

theorem neighborsOf_eq_ok_iff {l : List NodeId} :
    g.neighborsOf v = .ok l ↔ v < g.numNodes ∧ l = g.neighbors v := by
  unfold neighborsOf
  split
  next h => simp [h, eq_comm]
  next h => simp [h]

/-- Changing one entry changes the neighbours of that node only. -/
theorem neighbors_modify {f : List NodeId → List NodeId} (ha : a < g.numNodes) :
    Graph.neighbors ⟨g.adjacency.modify a f⟩ v =
      if v = a then f (g.neighbors a) else g.neighbors v := by
  unfold numNodes at ha
  by_cases hv : v = a
  · subst hv
    simp [neighbors, ha, Array.getElem_modify_self]
  · simp [neighbors, Array.getElem?_modify, hv, Ne.symm hv]

theorem neighbors_link (hab : a ≠ b) (ha : a < g.numNodes) (hb : b < g.numNodes) :
    (g.link a b).neighbors v =
      if v = b then insertAscending a (g.neighbors b)
      else if v = a then insertAscending b (g.neighbors a)
      else g.neighbors v := by
  have hb' : b < (Graph.mk (g.adjacency.modify a (insertAscending b))).numNodes := by
    simpa [numNodes] using hb
  rw [link, if_neg hab, neighbors_modify hb', neighbors_modify ha, neighbors_modify ha,
    if_neg hab.symm]

theorem neighbors_unlink (hab : a ≠ b) (ha : a < g.numNodes) (hb : b < g.numNodes) :
    (g.unlink a b).neighbors v =
      if v = b then (g.neighbors b).erase a
      else if v = a then (g.neighbors a).erase b
      else g.neighbors v := by
  have hb' : b < (Graph.mk (g.adjacency.modify a (·.erase b))).numNodes := by
    simpa [numNodes] using hb
  rw [unlink, neighbors_modify hb', neighbors_modify ha, neighbors_modify ha,
    if_neg hab.symm]

theorem mem_neighbors_link (hab : a ≠ b) (ha : a < g.numNodes) (hb : b < g.numNodes) :
    v ∈ (g.link a b).neighbors u ↔ s(u, v) = s(a, b) ∨ v ∈ g.neighbors u := by
  rw [neighbors_link hab ha hb, Sym2.eq_iff]
  split
  next hu =>
    subst hu
    rw [mem_insertAscending]
    exact or_congr_left ⟨fun h => .inr ⟨rfl, h⟩,
      fun h => h.elim (fun h => absurd h.1.symm hab) And.right⟩
  next hub =>
    split
    next hu =>
      subst hu
      rw [mem_insertAscending]
      exact or_congr_left ⟨fun h => .inl ⟨rfl, h⟩,
        fun h => h.elim And.right (fun h => absurd h.1 hab)⟩
    next hua => exact ⟨.inr, fun h => h.elim (fun h => h.elim (fun h => absurd h.1 hua)
        fun h => absurd h.1 hub) id⟩

/-- A simple undirected graph: neighbour lists ascend, name nodes only, and are symmetric;
no node is its own neighbour. -/
structure Simple (g : Graph) : Prop where
  ascending : ∀ v, (g.neighbors v).Pairwise (· < ·)
  lt_numNodes : ∀ {u v}, v ∈ g.neighbors u → v < g.numNodes
  irrefl : ∀ v, v ∉ g.neighbors v
  symm : ∀ {u v}, v ∈ g.neighbors u → u ∈ g.neighbors v

namespace Simple

theorem nodup (h : g.Simple) (v : NodeId) : (g.neighbors v).Nodup :=
  (h.ascending v).imp fun hab => Nat.ne_of_lt hab

theorem mem_neighbors_unlink (h : g.Simple) (hab : a ≠ b) (ha : a < g.numNodes)
    (hb : b < g.numNodes) :
    v ∈ (g.unlink a b).neighbors u ↔ v ∈ g.neighbors u ∧ s(u, v) ≠ s(a, b) := by
  rw [neighbors_unlink hab ha hb, Ne, Sym2.eq_iff]
  split
  next hu =>
    subst hu
    rw [(h.nodup _).mem_erase_iff]
    grind
  next hub =>
    split
    next hu =>
      subst hu
      rw [(h.nodup _).mem_erase_iff]
      grind
    next hua => grind

theorem link (h : g.Simple) (hab : a ≠ b) (ha : a < g.numNodes) (hb : b < g.numNodes) :
    (g.link a b).Simple where
  ascending v := by
    rw [neighbors_link hab ha hb]
    split
    · exact pairwise_insertAscending (h.ascending _)
    split
    · exact pairwise_insertAscending (h.ascending _)
    · exact h.ascending v
  lt_numNodes {u v} hv := by
    rw [numNodes_link]
    rcases (mem_neighbors_link hab ha hb).mp hv with he | hv
    · rcases Sym2.eq_iff.mp he with ⟨-, rfl⟩ | ⟨-, rfl⟩
      · exact hb
      · exact ha
    · exact h.lt_numNodes hv
  irrefl v hv := by
    rcases (mem_neighbors_link hab ha hb).mp hv with he | hv
    · rcases Sym2.eq_iff.mp he with ⟨rfl, hvb⟩ | ⟨rfl, hva⟩
      · exact hab hvb
      · exact hab hva.symm
    · exact h.irrefl v hv
  symm {u v} hv := by
    rw [mem_neighbors_link hab ha hb] at hv ⊢
    exact hv.imp (fun he => Sym2.eq_swap.trans he) h.symm

theorem unlink (h : g.Simple) (hab : a ≠ b) (ha : a < g.numNodes) (hb : b < g.numNodes) :
    (g.unlink a b).Simple where
  ascending v := by
    rw [neighbors_unlink hab ha hb]
    split
    · exact (h.ascending _).erase _
    split
    · exact (h.ascending _).erase _
    · exact h.ascending v
  lt_numNodes {u v} hv := by
    rw [numNodes_unlink]
    exact h.lt_numNodes ((h.mem_neighbors_unlink hab ha hb).mp hv).1
  irrefl v hv := h.irrefl v ((h.mem_neighbors_unlink hab ha hb).mp hv).1
  symm {u v} hv := by
    rw [h.mem_neighbors_unlink hab ha hb] at hv ⊢
    exact ⟨h.symm hv.1, fun he => hv.2 (Sym2.eq_swap.trans he)⟩

end Simple

/-- A simple graph whose nodes are the numbers below `n`. -/
structure SimpleOn (g : Graph) (n : Nat) : Prop where
  simple : g.Simple
  numNodes : g.numNodes = n

namespace SimpleOn

variable {n : Nat}

theorem neighborsOf_eq (h : g.SimpleOn n) (hv : v < n) :
    g.neighborsOf v = .ok (g.neighbors v) :=
  neighborsOf_eq_ok_iff.mpr ⟨h.numNodes.symm ▸ hv, rfl⟩

theorem lt_of_mem (h : g.SimpleOn n) (hu : u ∈ g.neighbors v) : u < n :=
  h.numNodes ▸ h.simple.lt_numNodes hu

end SimpleOn

@[simp] theorem neighbors_edgeless (n v : Nat) : (edgeless n).neighbors v = [] := by
  by_cases hv : v < n <;> simp [edgeless, neighbors, hv]

theorem simple_edgeless (n : Nat) : (edgeless n).Simple := by
  constructor <;> simp

/-- The edges of a graph, as unordered pairs of nodes. -/
def edges (g : Graph) : Set (Sym2 NodeId) :=
  {e | ∃ u v, v ∈ g.neighbors u ∧ s(u, v) = e}

theorem edges_edgeless (n : Nat) : (edgeless n).edges = ∅ := by
  simp [edges]

namespace Simple

theorem mem_edges (h : g.Simple) : s(u, v) ∈ g.edges ↔ v ∈ g.neighbors u := by
  constructor
  · rintro ⟨x, y, hy, he⟩
    rcases Sym2.eq_iff.mp he with ⟨rfl, rfl⟩ | ⟨rfl, rfl⟩
    · exact hy
    · exact h.symm hy
  · exact fun hv => ⟨u, v, hv, rfl⟩

theorem edges_link (h : g.Simple) (hab : a ≠ b) (ha : a < g.numNodes) (hb : b < g.numNodes) :
    (g.link a b).edges = insert s(a, b) g.edges := by
  ext e
  induction e with
  | _ u v =>
    rw [(h.link hab ha hb).mem_edges, mem_neighbors_link hab ha hb, Set.mem_insert_iff,
      h.mem_edges]

theorem edges_unlink (h : g.Simple) (hab : a ≠ b) (ha : a < g.numNodes)
    (hb : b < g.numNodes) : (g.unlink a b).edges = g.edges \ {s(a, b)} := by
  ext e
  induction e with
  | _ u v =>
    rw [(h.unlink hab ha hb).mem_edges, h.mem_neighbors_unlink hab ha hb, Set.mem_sdiff,
      h.mem_edges, Set.mem_singleton_iff]

end Simple

/-! ### Counting edges -/

/-- The sum of all degrees. -/
def degreeSum (g : Graph) : Nat :=
  ∑ v ∈ Finset.range g.numNodes, (g.neighbors v).length

theorem toList_adjacency : g.adjacency.toList = (List.range g.numNodes).map g.neighbors := by
  refine List.ext_getElem (by simp [numNodes]) fun i hi _ => ?_
  simp only [Array.length_toList] at hi
  simp [neighbors, hi]

theorem edgeCount_eq_degreeSum_div_two : g.edgeCount = g.degreeSum / 2 := by
  rw [edgeCount, toList_adjacency, List.length_flatten, List.map_map]
  rfl

/-- The edges in both directions: every node with each of its neighbours. -/
def darts (g : Graph) : Finset (Σ _ : NodeId, NodeId) :=
  (Finset.range g.numNodes).sigma fun u => (g.neighbors u).toFinset

/-- The edges in one direction: from the lesser end to the greater. -/
def ascendingDarts (g : Graph) : Finset (Σ _ : NodeId, NodeId) :=
  g.darts.filter fun d => d.1 < d.2

namespace Simple

theorem mem_darts (h : g.Simple) : ⟨u, v⟩ ∈ g.darts ↔ v ∈ g.neighbors u := by
  simp only [darts, Finset.mem_sigma, Finset.mem_range, List.mem_toFinset]
  exact ⟨And.right, fun hv => ⟨h.lt_numNodes (h.symm hv), hv⟩⟩

theorem mem_ascendingDarts (h : g.Simple) :
    ⟨u, v⟩ ∈ g.ascendingDarts ↔ v ∈ g.neighbors u ∧ u < v := by
  rw [ascendingDarts, Finset.mem_filter, h.mem_darts]

theorem card_darts (h : g.Simple) : g.darts.card = g.degreeSum := by
  rw [darts, Finset.card_sigma, degreeSum]
  exact Finset.sum_congr rfl fun v _ => List.toFinset_card_of_nodup (h.nodup v)

theorem card_ascendingDarts (h : g.Simple) : g.ascendingDarts.card = g.edges.ncard := by
  have himage : g.edges =
      (fun d : (_ : NodeId) × NodeId => s(d.1, d.2)) '' g.ascendingDarts := by
    ext e
    induction e with
    | _ u v =>
      rw [h.mem_edges]
      constructor
      · intro hv
        -- The edge runs from the lesser end to the greater, whichever way it is given.
        have hne : u ≠ v := fun he => h.irrefl v (he ▸ hv)
        rcases Nat.lt_or_gt_of_ne hne with hlt | hlt
        · exact ⟨⟨u, v⟩, h.mem_ascendingDarts.mpr ⟨hv, hlt⟩, rfl⟩
        · exact ⟨⟨v, u⟩, h.mem_ascendingDarts.mpr ⟨h.symm hv, hlt⟩, Sym2.eq_swap⟩
      · rintro ⟨⟨x, y⟩, hxy, he⟩
        rw [← h.mem_edges, ← he, h.mem_edges]
        exact (h.mem_ascendingDarts.mp hxy).1
  rw [himage, Set.InjOn.ncard_image, Set.ncard_coe_finset]
  rintro ⟨a, b⟩ hab ⟨c, d⟩ hcd he
  have hab := (h.mem_ascendingDarts.mp hab).2
  have hcd := (h.mem_ascendingDarts.mp hcd).2
  rcases Sym2.eq_iff.mp he with ⟨rfl, rfl⟩ | ⟨rfl, rfl⟩
  · rfl
  · exact absurd hab (Nat.lt_asymm hcd)

/-- Each edge counts once for either of its ends. -/
theorem degreeSum_eq (h : g.Simple) : g.degreeSum = 2 * g.edges.ncard := by
  -- Reversal maps the descending darts onto the ascending ones.
  have hswap : (g.darts.filter fun d => ¬d.1 < d.2).card = g.ascendingDarts.card := by
    refine Finset.card_nbij' (fun d => ⟨d.2, d.1⟩) (fun d => ⟨d.2, d.1⟩) ?_ ?_
      (fun _ _ => rfl) (fun _ _ => rfl)
    · rintro ⟨u, v⟩ hd
      obtain ⟨hd, hle⟩ := Finset.mem_filter.mp hd
      have hv := h.mem_darts.mp hd
      have hne : u ≠ v := fun he => h.irrefl v (he ▸ hv)
      exact h.mem_ascendingDarts.mpr
        ⟨h.symm hv, Nat.lt_of_le_of_ne (Nat.le_of_not_lt hle) hne.symm⟩
    · rintro ⟨u, v⟩ hd
      obtain ⟨hv, hlt⟩ := h.mem_ascendingDarts.mp hd
      exact Finset.mem_filter.mpr ⟨h.mem_darts.mpr (h.symm hv), Nat.lt_asymm hlt⟩
  have hsplit := Finset.card_filter_add_card_filter_not (s := g.darts) fun d => d.1 < d.2
  rw [← h.card_darts, ← hsplit, hswap, ← h.card_ascendingDarts, Nat.two_mul]
  rfl

theorem edgeCount_eq (h : g.Simple) : g.edgeCount = g.edges.ncard := by
  rw [edgeCount_eq_degreeSum_div_two, h.degreeSum_eq, Nat.mul_div_cancel_left _ (by decide)]

end Simple

end Graph

end PeerOverlay
