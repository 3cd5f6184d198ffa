/-
The views of a small-world graph.

A graph answers for the neighbours of a node, for its degree, for the number of edges and for
the adjacency matrix.  On a simple graph these are views of one relation:

* `Graph.cell?_eq` — the entries of the matrix say who is a neighbour of whom;
* `Graph.mark_eq_row` — a row is what marking the neighbours in a row of zeros gives;
* `Graph.Simple.sum_row` — a row adds up to the degree;
* `Graph.Simple.sum_matrix` — the whole matrix adds up to twice the number of edges;
* `Graph.Simple.edgeCount_eq_card` — there is an edge for every entry above the diagonal;
* `smallWorld_viewsAgree` — all of it, `Graph.ViewsAgree`, for the graphs that are drawn.
-/
import PeerOverlay.Proofs.Topology.SmallWorld

namespace PeerOverlay

namespace Graph

variable {g : Graph} {i j v : NodeId}

/-! ### Entries and rows -/

/-- The entry of the adjacency matrix in a row and a column. -/
def cell? (g : Graph) (i j : Nat) : Option Nat :=
  g.matrix[i]?.bind fun row => row[j]?

/-- The row of a node in the adjacency matrix. -/
def row (g : Graph) (i : NodeId) : List Nat :=
  (List.range g.numNodes).map fun j => if j ∈ g.neighbors i then 1 else 0

theorem matrix_eq : g.matrix = (List.range g.numNodes).map g.row := by
  rw [matrix, toList_adjacency, List.map_map]
  refine List.map_congr_left fun i _ => ?_
  simp [row]

theorem getElem?_matrix (hi : i < g.numNodes) : g.matrix[i]? = some (g.row i) := by
  simp [matrix_eq, hi]

@[simp] theorem length_row : (g.row i).length = g.numNodes := by
  simp [row]

theorem cell?_eq : g.cell? i j =
    if i < g.numNodes ∧ j < g.numNodes then some (if j ∈ g.neighbors i then 1 else 0)
    else none := by
  by_cases hi : i < g.numNodes
  · by_cases hj : j < g.numNodes
    · simp [cell?, getElem?_matrix hi, row, hi, hj]
    · simp [cell?, getElem?_matrix hi, row, hj]
  · simp [cell?, matrix_eq, hi]

/-- The row of zeros in which the columns of a list are marked one after another. -/
def mark (n : Nat) (columns : List Nat) : List Nat :=
  columns.foldl (fun row j => row.set j 1) (List.replicate n 0)

theorem getElem?_foldl_set (columns row : List Nat) (j : Nat) :
    (columns.foldl (fun row j => row.set j 1) row)[j]? =
      if j ∈ columns then row[j]?.map fun _ => 1 else row[j]? := by
  induction columns generalizing row with
  | nil => simp
  | cons a rest ih =>
    rw [List.foldl_cons, ih, List.getElem?_set]
    by_cases hj : j = a
    · subst hj
      by_cases hlt : j < row.length <;> simp [hlt]
    · simp [hj, Ne.symm hj]

theorem mark_eq_row : mark g.numNodes (g.neighbors i) = g.row i := by
  refine List.ext_getElem? fun j => ?_
  rw [mark, getElem?_foldl_set]
  by_cases hj : j < g.numNodes
  · by_cases hmem : j ∈ g.neighbors i <;> simp [row, hj, hmem]
  · simp [row, hj]

/-! ### Numbers that are no nodes -/

theorem neighborsOf_eq_error_iff {e : TopologyError} :
    g.neighborsOf v = .error e ↔ g.numNodes ≤ v ∧ e = .nodeOutOfRange v g.numNodes := by
  unfold neighborsOf
  split
  next h => simp [h]
  next h => simp [Nat.le_of_not_lt h, eq_comm]

theorem degree_eq_error_iff {e : TopologyError} :
    g.degree v = .error e ↔ g.numNodes ≤ v ∧ e = .nodeOutOfRange v g.numNodes := by
  rw [← neighborsOf_eq_error_iff, degree]
  cases g.neighborsOf v <;> simp [Except.map]

/-! ### Sums -/

namespace Simple

theorem sum_row (h : g.Simple) (i : NodeId) : (g.row i).sum = (g.neighbors i).length := by
  have hsum : (g.row i).sum =
      ∑ j ∈ Finset.range g.numNodes, if j ∈ g.neighbors i then 1 else 0 := rfl
  have hfilter : (Finset.range g.numNodes).filter (· ∈ g.neighbors i) =
      (g.neighbors i).toFinset := by
    ext j
    rw [Finset.mem_filter, Finset.mem_range, List.mem_toFinset]
    exact ⟨And.right, fun hj => ⟨h.lt_numNodes hj, hj⟩⟩
  rw [hsum, ← Finset.card_filter, hfilter, List.toFinset_card_of_nodup (h.nodup i)]

/-- Every edge is entered twice, so halving the sum of all entries loses nothing. -/
theorem sum_matrix (h : g.Simple) : (g.matrix.map List.sum).sum = 2 * g.edgeCount := by
  have hrows : g.matrix.map List.sum =
      (List.range g.numNodes).map fun i => (g.neighbors i).length := by
    rw [matrix_eq, List.map_map]
    exact List.map_congr_left fun i _ => h.sum_row i
  rw [hrows, h.edgeCount_eq, ← h.degreeSum_eq]
  rfl

/-- The pairs of nodes with an entry above the diagonal. -/
theorem edgeCount_eq_card (h : g.Simple) :
    g.edgeCount = ((Finset.range g.numNodes ×ˢ Finset.range g.numNodes).filter fun e =>
      e.1 < e.2 ∧ g.cell? e.1 e.2 = some 1).card := by
  rw [h.edgeCount_eq, ← h.card_ascendingDarts]
  refine Finset.card_nbij' (fun d => (d.1, d.2)) (fun e => ⟨e.1, e.2⟩) ?_ ?_
    (fun _ _ => rfl) (fun _ _ => rfl)
  · rintro ⟨u, v⟩ hd
    obtain ⟨hv, hlt⟩ := h.mem_ascendingDarts.mp hd
    have hv' : v < g.numNodes := h.lt_numNodes hv
    have hu' : u < g.numNodes := h.lt_numNodes (h.symm hv)
    simp [cell?_eq, hv, hlt, hu', hv']
  · rintro ⟨u, v⟩ he
    obtain ⟨he, hlt, hentry⟩ := Finset.mem_filter.mp he
    refine h.mem_ascendingDarts.mpr ⟨?_, hlt⟩
    by_contra hv
    rw [cell?_eq] at hentry
    simp [hv] at hentry

theorem cell?_comm (h : g.Simple) (i j : NodeId) : g.cell? i j = g.cell? j i := by
  rw [cell?_eq, cell?_eq]
  have hmem : j ∈ g.neighbors i ↔ i ∈ g.neighbors j := ⟨h.symm, h.symm⟩
  simp only [hmem, and_comm]

end Simple

/-- The views of a graph on the nodes below `n` describe one simple graph. -/
structure ViewsAgree (g : Graph) (n : Nat) : Prop where
  rows : g.matrix.length = n
  columns : ∀ row ∈ g.matrix, row.length = n
  /-- The ones of a row name the neighbours of its node, and every neighbour has a column. -/
  entries : ∀ i < n, ∃ l, g.neighborsOf i = .ok l ∧ (∀ j ∈ l, j < n) ∧
    g.matrix[i]? = some (mark n l) ∧ ∀ j < n, g.cell? i j = some (if j ∈ l then 1 else 0)
  symmetric : ∀ i j, g.cell? i j = g.cell? j i
  diagonal : ∀ i < n, g.cell? i i = some 0
  /-- The degree of a node is the number of its neighbours and the sum of its row. -/
  degrees : ∀ i < n, ∃ l row, g.neighborsOf i = .ok l ∧ g.matrix[i]? = some row ∧
    g.degree i = .ok l.length ∧ row.sum = l.length
  /-- Half the sum of all entries is the number of edges, with nothing lost in halving. -/
  sum : (g.matrix.map List.sum).sum = 2 * g.edgeCount
  /-- There is an edge for every one above the diagonal. -/
  above : g.edgeCount = ((Finset.range n ×ˢ Finset.range n).filter fun e =>
    e.1 < e.2 ∧ g.cell? e.1 e.2 = some 1).card
  neighborsOf_fails : ∀ i e, g.neighborsOf i = .error e ↔ n ≤ i ∧ e = .nodeOutOfRange i n
  degree_fails : ∀ i e, g.degree i = .error e ↔ n ≤ i ∧ e = .nodeOutOfRange i n

theorem SimpleOn.viewsAgree {n : Nat} (h : g.SimpleOn n) : g.ViewsAgree n := by
  obtain ⟨hsimple, rfl⟩ := h
  have hneighbors : ∀ i < g.numNodes, g.neighborsOf i = .ok (g.neighbors i) :=
    fun i hi => neighborsOf_eq_ok_iff.mpr ⟨hi, rfl⟩
  constructor
  case rows => simp [matrix_eq]
  case columns =>
    intro row hrow
    rw [matrix_eq, List.mem_map] at hrow
    obtain ⟨i, -, rfl⟩ := hrow
    exact length_row
  case entries =>
    intro i hi
    refine ⟨g.neighbors i, hneighbors i hi, fun j hj => hsimple.lt_numNodes hj, ?_, ?_⟩
    · rw [mark_eq_row]
      exact getElem?_matrix hi
    · intro j hj
      rw [cell?_eq, if_pos ⟨hi, hj⟩]
  case symmetric => exact hsimple.cell?_comm
  case diagonal =>
    intro i hi
    rw [cell?_eq, if_pos ⟨hi, hi⟩, if_neg (hsimple.irrefl i)]
  case degrees =>
    intro i hi
    refine ⟨g.neighbors i, g.row i, hneighbors i hi, getElem?_matrix hi, ?_, hsimple.sum_row i⟩
    rw [degree, hneighbors i hi]
    rfl
  case sum => exact hsimple.sum_matrix
  case above => exact hsimple.edgeCount_eq_card
  case neighborsOf_fails => exact fun i e => neighborsOf_eq_error_iff
  case degree_fails => exact fun i e => degree_eq_error_iff

end Graph

/-! ### The views of a small-world graph -/

variable {n patience : Nat} {params : SmallWorldParams} {source : DrawSource}

theorem check_of_smallWorld {w : Wiring} (h : smallWorld n params source patience = .ok w) :
    params.check n = .ok () := by
  unfold smallWorld at h
  split at h
  next => cases h
  next hc => exact hc

/-- **The views of a small-world graph agree.**  The matrix, the degrees, the number of edges
and the neighbours of the nodes describe one graph, and the queries fail for the numbers that
are no nodes and for no others. -/
theorem smallWorld_viewsAgree {w : Wiring} (h : smallWorld n params source patience = .ok w) :
    w.graph.ViewsAgree n :=
  (simpleOn_of_smallWorld (check_of_smallWorld h) h).viewsAgree

/-- Six nodes, and every slot rewired that can be. -/
theorem smallWorld_viewsAgree_six :
    ∃ w, smallWorld 6 ⟨4, ⟨0x3FF0000000000000⟩⟩ weylSource 64 = .ok w ∧
      w.graph.ViewsAgree 6 := by
  obtain ⟨w, hw⟩ : ∃ w, smallWorld 6 ⟨4, ⟨0x3FF0000000000000⟩⟩ weylSource 64 = .ok w :=
    exists_smallWorld_eq_ok (by decide +kernel) (by decide +kernel)
  exact ⟨w, hw, smallWorld_viewsAgree hw⟩

end PeerOverlay
