/-
Graphs without rewiring.

A run reads one word at each visit to decide whether the slot's edge is moved, and more words
only to pick a new far end.  `Wiring.draws` logs what each word is drawn for.

* `Wiring.drawn_of_visitAll` — the log of a run names every word that the run draws;
* `Wiring.visitAll_of_keeps` — a run whose visits all leave the edges alone draws one word a
  slot and changes nothing;
* `smallWorld_unrewired` — with probability zero every run is of this kind and ends with the
  ring lattice.
-/
import PeerOverlay.Proofs.Topology.Band
import PeerOverlay.Proofs.Topology.SmallWorld

namespace PeerOverlay

/-! ### What words are drawn for -/

/-- What a word of the source is drawn for. -/
inductive Draw
  /-- To decide whether the edge of a slot is moved. -/
  | acceptance
  /-- To pick the new far end of a slot's edge. -/
  | target
deriving DecidableEq, Repr

/-- The draws of a search: it ends with the first word that picks an eligible number. -/
def searchDraws (source : DrawSource) (n : Nat) (eligible : Nat → Bool) :
    (patience position : Nat) → List Draw
  | 0, _ => []
  | patience + 1, position =>
    .target :: match (pick? n (source.word position)).filter eligible with
      | some _ => []
      | none => searchDraws source n eligible patience (position + 1)

theorem length_searchDraws {source : DrawSource} {n : Nat} {eligible : Nat → Bool}
    {patience position target after : Nat}
    (h : search source n eligible patience position = some (target, after)) :
    after = position + (searchDraws source n eligible patience position).length := by
  induction patience generalizing position with
  | zero => cases h
  | succ patience ih =>
    rw [search] at h
    rw [searchDraws, List.length_cons]
    cases hpick : (pick? n (source.word position)).filter eligible with
    | some t =>
      simp only [hpick] at h ⊢
      obtain ⟨-, rfl⟩ := Prod.mk.inj (Option.some.inj h)
      rfl
    | none =>
      simp only [hpick] at h ⊢
      rw [ih h, Nat.add_assoc, Nat.add_comm 1]

namespace Wiring

variable {source : DrawSource} {n patience : Nat} {p : Binary64} {w w' : Wiring} {s : Slot}
  {todo : List Slot}

/-- The draws of a visit: one for acceptance, and those of the search if the edge is moved. -/
def visitDraws (source : DrawSource) (n : Nat) (p : Binary64) (patience : Nat) (w : Wiring)
    (s : Slot) : List Draw :=
  .acceptance ::
    if w.Keeps source n p s then []
    else searchDraws source n (w.eligible s) patience (w.drawn + 1)

/-- The draws of a run over slots, up to the visit that ends it. -/
def draws (source : DrawSource) (n : Nat) (p : Binary64) (patience : Nat) (w : Wiring) :
    List Slot → List Draw
  | [] => []
  | s :: rest =>
    w.visitDraws source n p patience s ++
      match w.visit source n p patience s with
      | some w => w.draws source n p patience rest
      | none => []

theorem draws_cons_of_visit {rest : List Slot} (h : w.visit source n p patience s = some w') :
    w.draws source n p patience (s :: rest) =
      w.visitDraws source n p patience s ++ w'.draws source n p patience rest := by
  rw [draws, h]

theorem drawn_of_visit (h : w.visit source n p patience s = some w') :
    w'.drawn = w.drawn + (w.visitDraws source n p patience s).length := by
  rw [visitDraws]
  by_cases hk : w.Keeps source n p s
  · rw [visit_of_keeps hk, Option.some_inj] at h
    rw [if_pos hk, ← h]
    rfl
  · rw [visit_of_not_keeps hk] at h
    obtain ⟨⟨target, after⟩, hsearch, rfl⟩ := Option.map_eq_some_iff.mp h
    have hafter := length_searchDraws hsearch
    rw [if_neg hk, List.length_cons]
    show after = _
    omega

/-- **The log of a run names every word that the run draws.** -/
theorem drawn_of_visitAll (h : w.visitAll source n p patience todo = some w') :
    w'.drawn = w.drawn + (w.draws source n p patience todo).length := by
  induction todo generalizing w with
  | nil =>
    obtain rfl := Option.some.inj h
    rfl
  | cons s rest ih =>
    rw [visitAll_cons] at h
    obtain ⟨w₁, hvisit, h⟩ := Option.bind_eq_some_iff.mp h
    rw [ih h, drawn_of_visit hvisit, draws_cons_of_visit hvisit, List.length_append,
      Nat.add_assoc]

/-- Visits that leave every edge alone draw one word each. -/
theorem visitAll_of_keeps (hkeeps : ∀ (w : Wiring) (s : Slot), w.Keeps source n p s) :
    w.visitAll source n p patience todo = some ⟨w.graph, w.drawn + todo.length⟩ ∧
      w.draws source n p patience todo = List.replicate todo.length .acceptance := by
  induction todo generalizing w with
  | nil => exact ⟨rfl, rfl⟩
  | cons s rest ih =>
    have hvisit : w.visit source n p patience s = some ⟨w.graph, w.drawn + 1⟩ :=
      visit_of_keeps (hkeeps w s)
    obtain ⟨hrun, hdraws⟩ := @ih ⟨w.graph, w.drawn + 1⟩
    constructor
    · rw [visitAll_cons, hvisit, Option.bind_some, hrun, List.length_cons, Nat.add_assoc,
        Nat.add_comm 1]
    · rw [draws_cons_of_visit hvisit, visitDraws, if_pos (hkeeps w s), hdraws]
      rfl

end Wiring

/-! ### Probability zero -/

variable {n patience : Nat} {params : SmallWorldParams} {source : DrawSource}

/-- The draws of a small-world graph. -/
def SmallWorldParams.draws (params : SmallWorldParams) (n : Nat) (source : DrawSource)
    (patience : Nat) : List Draw :=
  (Wiring.start n params).draws source n params.p patience (params.slots n)

/-- No step of the unit interval is less than zero, whatever the sign of the zero. -/
theorem Binary64.exceeds_zero (negative : Bool) (steps : Nat) :
    (Binary64.zero negative).exceeds steps = false := by
  have hvalue : (Binary64.zero negative).value = .finite negative 0 0 := by
    cases negative <;> decide
  rw [exceeds, hvalue]
  simp

theorem Wiring.keeps_of_zero (hp : ∃ negative, params.p = .zero negative) (w : Wiring)
    (s : Slot) : w.Keeps source n params.p s := by
  obtain ⟨negative, hp⟩ := hp
  exact .inl (hp ▸ Binary64.exceeds_zero negative _)

theorem smallWorld_of_zero (hc : params.check n = .ok ())
    (hp : ∃ negative, params.p = .zero negative) :
    smallWorld n params source patience =
        .ok ⟨(Wiring.start n params).graph, (params.slots n).length⟩ ∧
      params.draws n source patience = List.replicate (params.slots n).length .acceptance := by
  obtain ⟨hrun, hdraws⟩ := @Wiring.visitAll_of_keeps source n patience params.p
    (Wiring.start n params) (params.slots n) (Wiring.keeps_of_zero hp)
  refine ⟨(smallWorld_eq_ok_iff hc).mpr (hrun.trans ?_), hdraws⟩
  rw [show (Wiring.start n params).drawn = 0 from rfl, Nat.zero_add]

/-- The neighbours of a node before the first visit, and how many there are. -/
theorem neighbors_start (hc : params.check n = .ok ()) {v : Nat} (hv : v < n) :
    (∀ u : Nat, u ∈ (Wiring.start n params).graph.neighbors v ↔
      u < n ∧ u ≠ v ∧ (((u : Int) - v) % n ≤ (params.k / 2 : Nat) ∨
        ((v : Int) - u) % n ≤ (params.k / 2 : Nat))) ∧
      ((Wiring.start n params).graph.neighbors v).length = if n = 1 then 0 else params.k := by
  rcases Nat.eq_or_lt_of_le (SmallWorldParams.pos_of_check hc) with rfl | hn
  · -- A single node has no other node to be joined to.
    have hnil : (Wiring.start 1 params).graph.neighbors v = [] := Graph.neighbors_edgeless 1 v
    rw [hnil]
    refine ⟨fun u => ⟨fun hu => (List.not_mem_nil hu).elim, ?_⟩, rfl⟩
    rintro ⟨hu, hne, -⟩
    omega
  · have hhalf := SmallWorldParams.two_mul_half_lt hc hn
    have heven := (SmallWorldParams.check_eq_ok_iff.mp hc).2.2.1
    rw [Wiring.start_of_one_lt params hn, if_neg (by omega)]
    refine ⟨fun u => Graph.mem_neighbors_lattice hhalf hv, ?_⟩
    rw [Graph.length_neighbors_lattice hhalf hv]
    omega

/-- **With probability zero the ring lattice is built.**  Whatever the source, nodes are
neighbours if they lie at most `k / 2` places apart round the ring, all have `k` neighbours
unless there is a single node, and each slot draws its acceptance and nothing else. -/
theorem smallWorld_unrewired (hc : params.check n = .ok ())
    (hp : ∃ negative, params.p = .zero negative) :
    ∃ w, smallWorld n params source patience = .ok w ∧ w.graph.numNodes = n ∧
      (∀ v < n, ∃ l, w.graph.neighborsOf v = .ok l ∧
        (∀ u : Nat, u ∈ l ↔ u < n ∧ u ≠ v ∧ (((u : Int) - v) % n ≤ (params.k / 2 : Nat) ∨
          ((v : Int) - u) % n ≤ (params.k / 2 : Nat))) ∧
        w.graph.degree v = .ok (if n = 1 then 0 else params.k)) ∧
      params.draws n source patience =
        List.replicate (if n = 1 then 0 else n * params.k / 2) .acceptance ∧
      w.drawn = (params.draws n source patience).length := by
  obtain ⟨hw, hdraws⟩ := @smallWorld_of_zero n patience params source hc hp
  have hgraph := simpleOn_of_smallWorld hc hw
  refine ⟨_, hw, hgraph.numNodes, fun v hv => ?_, ?_, ?_⟩
  · obtain ⟨hmem, hlength⟩ := neighbors_start hc hv
    refine ⟨_, hgraph.neighborsOf_eq hv, hmem, ?_⟩
    rw [Graph.degree, hgraph.neighborsOf_eq hv, ← hlength]
    rfl
  · rw [hdraws, SmallWorldParams.length_slots hc]
  · rw [hdraws, List.length_replicate]

/-- Of ten nodes with probability minus zero each is joined to the two on either side, even
where a search could not read a single word. -/
theorem smallWorld_unrewired_ten :
    ∃ w, smallWorld 10 ⟨4, .zero true⟩ weylSource 0 = .ok w ∧ w.graph.numNodes = 10 ∧
      (∀ v < 10, ∃ l, w.graph.neighborsOf v = .ok l ∧
        (∀ u : Nat, u ∈ l ↔ u < 10 ∧ u ≠ v ∧ (((u : Int) - v) % (10 : Nat) ≤ (4 / 2 : Nat) ∨
          ((v : Int) - u) % (10 : Nat) ≤ (4 / 2 : Nat))) ∧
        w.graph.degree v = .ok (if 10 = 1 then 0 else 4)) ∧
      SmallWorldParams.draws ⟨4, .zero true⟩ 10 weylSource 0 =
        List.replicate (if 10 = 1 then 0 else 10 * 4 / 2) .acceptance ∧
      w.drawn = (SmallWorldParams.draws ⟨4, .zero true⟩ 10 weylSource 0).length :=
  smallWorld_unrewired (by decide +kernel) ⟨true, rfl⟩

end PeerOverlay
