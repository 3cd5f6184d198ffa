/-
Searches for a new far end.

A visit that moves an edge reads the source until a word picks an eligible node.  Its search
ends with the first such word, `search_eq_some_iff`, and what the run has kept up to the visit
makes it a search with an end:

* `Wiring.exists_eligible_iff` — exactly the nodes that are not joined to all others have an
  eligible one left;
* `Wiring.visit_eq_some_iff` — the visit moves the far end to the first eligible node drawn;
* `Wiring.owns_of_visitAll` — the edge that it moves is the slot's lattice edge;
* `Wiring.exists_visitAll` — a run ends on every source that picks every node again and again;
* `smallWorld_searches` — both for the runs that draw a small-world graph.
-/
import PeerOverlay.Proofs.Topology.SmallWorld

namespace PeerOverlay

/-! ### The first eligible number -/

section Search

variable {source : DrawSource} {n position skipped t after : Nat} {eligible : Nat → Bool}
  {patience patience' : Nat}

/-- Of the words from a position on, the one behind `skipped` others is the first that picks an
eligible number. -/
structure FirstPick (source : DrawSource) (n : Nat) (eligible : Nat → Bool)
    (position skipped t : Nat) : Prop where
  picked : pick? n (source.word (position + skipped)) = some t
  accepted : eligible t = true
  before : ∀ j < skipped, ∀ u, pick? n (source.word (position + j)) = some u →
    eligible u = false

theorem firstPick_zero_iff :
    FirstPick source n eligible position 0 t ↔
      (pick? n (source.word position)).filter eligible = some t := by
  rw [Option.filter_eq_some_iff]
  constructor
  · intro h
    exact ⟨h.picked, h.accepted⟩
  · rintro ⟨hpick, heligible⟩
    exact ⟨hpick, heligible, fun j hj => absurd hj (Nat.not_lt_zero j)⟩

/-- A word that picks nothing eligible can be left out in front. -/
theorem firstPick_succ_iff (h : (pick? n (source.word position)).filter eligible = none) :
    FirstPick source n eligible position (skipped + 1) t ↔
      FirstPick source n eligible (position + 1) skipped t := by
  have hshift : ∀ i, position + (i + 1) = position + 1 + i := by
    intro i
    omega
  constructor
  · intro hfirst
    refine ⟨?_, hfirst.accepted, fun j hj u hu => ?_⟩
    · rw [← hshift]
      exact hfirst.picked
    · exact hfirst.before (j + 1) (by omega) u (by rwa [hshift])
  · intro hfirst
    refine ⟨?_, hfirst.accepted, fun j hj u hu => ?_⟩
    · rw [hshift]
      exact hfirst.picked
    · cases j with
      | zero =>
        have hfilter := Option.filter_eq_none_iff.mp h u hu
        simpa using hfilter
      | succ j =>
        rw [hshift] at hu
        exact hfirst.before j (by omega) u hu

/-- An eligible number that is picked at once is the first one. -/
theorem not_firstPick_succ (h : (pick? n (source.word position)).filter eligible = some t)
    {u : Nat} : ¬FirstPick source n eligible position (skipped + 1) u := by
  intro hfirst
  obtain ⟨hpick, heligible⟩ := Option.filter_eq_some_iff.mp h
  have hnot := hfirst.before 0 (by omega) t hpick
  rw [heligible] at hnot
  cases hnot

/-- **A search ends with the first word that picks an eligible number.** -/
theorem search_eq_some_iff :
    search source n eligible patience position = some (t, after) ↔
      ∃ skipped < patience, FirstPick source n eligible position skipped t ∧
        after = position + skipped + 1 := by
  induction patience generalizing position with
  | zero => simp [search]
  | succ patience ih =>
    rw [search]
    cases hfilter : (pick? n (source.word position)).filter eligible with
    | some u =>
      constructor
      · intro h
        obtain ⟨rfl, rfl⟩ := Prod.mk.inj (Option.some.inj h)
        exact ⟨0, by omega, firstPick_zero_iff.mpr hfilter, rfl⟩
      · rintro ⟨skipped, -, hfirst, rfl⟩
        cases skipped with
        | zero =>
          have hu : u = t := by
            have ht := firstPick_zero_iff.mp hfirst
            rw [hfilter] at ht
            exact Option.some.inj ht
          rw [hu]
        | succ skipped => exact absurd hfirst (not_firstPick_succ hfilter)
    | none =>
      show search source n eligible patience (position + 1) = some (t, after) ↔ _
      rw [ih]
      constructor
      · rintro ⟨skipped, hlt, hfirst, rfl⟩
        exact ⟨skipped + 1, by omega, (firstPick_succ_iff hfilter).mpr hfirst, by omega⟩
      · rintro ⟨skipped, hlt, hfirst, rfl⟩
        cases skipped with
        | zero =>
          have ht := firstPick_zero_iff.mp hfirst
          rw [hfilter] at ht
          cases ht
        | succ skipped =>
          exact ⟨skipped, by omega, (firstPick_succ_iff hfilter).mp hfirst, by omega⟩

/-- Where some word picks an eligible number, one does so first. -/
theorem exists_firstPick {i : Nat} (hi : position ≤ i) (hpick : pick? n (source.word i) = some t)
    (ht : eligible t = true) : ∃ skipped u, FirstPick source n eligible position skipped u := by
  classical
  have hsome : ∃ k u, pick? n (source.word (position + k)) = some u ∧ eligible u = true := by
    refine ⟨i - position, t, ?_, ht⟩
    rwa [show position + (i - position) = i by omega]
  obtain ⟨u, hu, heligible⟩ := Nat.find_spec hsome
  refine ⟨Nat.find hsome, u, hu, heligible, fun j hj v hv => ?_⟩
  have hmin := Nat.find_min hsome hj
  cases hv' : eligible v with
  | false => rfl
  | true => exact absurd ⟨v, hv, hv'⟩ hmin

/-- From every position on, a source picks each number below `n` some time. -/
def DrawSource.PicksAll (source : DrawSource) (n : Nat) : Prop :=
  ∀ position, ∀ t < n, ∃ i ≥ position, pick? n (source.word i) = some t

end Search

namespace Wiring

variable {source : DrawSource} {n patience patience' : Nat} {p : Binary64} {w w' : Wiring}
  {s : Slot} {todo : List Slot}

theorem visit_mono (hle : patience ≤ patience') (h : w.visit source n p patience s = some w') :
    w.visit source n p patience' s = some w' := by
  induction hle with
  | refl => exact h
  | step _ ih => exact visit_succ ih

theorem visitAll_mono (hle : patience ≤ patience')
    (h : w.visitAll source n p patience todo = some w') :
    w.visitAll source n p patience' todo = some w' := by
  induction hle with
  | refl => exact h
  | step _ ih => exact visitAll_succ ih

/-! ### Eligible nodes -/

/-- A node with fewer than `n - 1` neighbours has an eligible one left: it and its neighbours
are not all of the nodes. -/
theorem exists_eligible (h : (w.graph.neighbors s.node).length < n - 1) :
    ∃ t < n, w.eligible s t = true := by
  have hcard : (insert s.node (w.graph.neighbors s.node).toFinset).card <
      (Finset.range n).card := by
    have hinsert := Finset.card_insert_le s.node (w.graph.neighbors s.node).toFinset
    have hlength := List.toFinset_card_le (w.graph.neighbors s.node)
    rw [Finset.card_range]
    omega
  obtain ⟨t, ht, hnot⟩ := Finset.exists_mem_notMem_of_card_lt_card hcard
  rw [Finset.mem_insert, List.mem_toFinset, not_or] at hnot
  exact ⟨t, Finset.mem_range.mp ht, eligible_iff.mpr hnot⟩

/-- Exactly the nodes that are not joined to all others have an eligible one left. -/
theorem exists_eligible_iff (hw : w.graph.SimpleOn n) (hs : s.node < n) :
    (∃ t < n, w.eligible s t = true) ↔ (w.graph.neighbors s.node).length < n - 1 := by
  refine ⟨?_, exists_eligible⟩
  rintro ⟨t, ht, heligible⟩
  obtain ⟨hne, hfresh⟩ := eligible_iff.mp heligible
  -- The neighbours are different nodes, and neither the slot's own node nor `t` is among them.
  have hnodup : (s.node :: t :: w.graph.neighbors s.node).Nodup := by
    refine List.nodup_cons.mpr ⟨?_, List.nodup_cons.mpr ⟨hfresh, hw.simple.nodup _⟩⟩
    rw [List.mem_cons, not_or]
    exact ⟨hne.symm, hw.simple.irrefl _⟩
  have hsub : s.node :: t :: w.graph.neighbors s.node ⊆ List.range n := by
    intro u hu
    rw [List.mem_range]
    rcases List.mem_cons.mp hu with rfl | hu
    · exact hs
    rcases List.mem_cons.mp hu with rfl | hu
    · exact ht
    · exact hw.lt_of_mem hu
  have hlength := (hnodup.subperm hsub).length_le
  rw [List.length_cons, List.length_cons, List.length_range] at hlength
  omega

/-! ### Visits that search -/

/-- **A visit that searches moves the far end to the first eligible node drawn.** -/
theorem visit_eq_some_iff (h : ¬w.Keeps source n p s) :
    w.visit source n p patience s = some w' ↔
      ∃ skipped < patience, ∃ t,
        FirstPick source n (w.eligible s) (w.drawn + 1) skipped t ∧
          w' = ⟨(w.graph.unlink s.node (s.far n)).link s.node t,
            w.drawn + 1 + skipped + 1⟩ := by
  rw [visit_of_not_keeps h, Option.map_eq_some_iff]
  constructor
  · rintro ⟨⟨t, after⟩, hsearch, rfl⟩
    obtain ⟨skipped, hlt, hfirst, rfl⟩ := search_eq_some_iff.mp hsearch
    exact ⟨skipped, hlt, t, hfirst, rfl⟩
  · rintro ⟨skipped, hlt, t, hfirst, rfl⟩
    exact ⟨(t, w.drawn + 1 + skipped + 1), search_eq_some_iff.mpr ⟨skipped, hlt, hfirst, rfl⟩,
      rfl⟩

theorem exists_visit (hsource : source.PicksAll n) (w : Wiring) (s : Slot) :
    ∃ patience w', w.visit source n p patience s = some w' := by
  by_cases hk : w.Keeps source n p s
  · exact ⟨0, _, visit_of_keeps hk⟩
  · have hlt : (w.graph.neighbors s.node).length < n - 1 := by
      rw [Keeps, not_or] at hk
      exact Nat.lt_of_not_le hk.2
    obtain ⟨t, ht, heligible⟩ := exists_eligible hlt
    obtain ⟨i, hi, hpick⟩ := hsource (w.drawn + 1) t ht
    obtain ⟨skipped, u, hfirst⟩ := exists_firstPick hi hpick heligible
    exact ⟨skipped + 1, _, (visit_eq_some_iff hk).mpr ⟨skipped, by omega, u, hfirst, rfl⟩⟩

/-- **A run ends on every source that picks every node again and again.** -/
theorem exists_visitAll (hsource : source.PicksAll n) (w : Wiring) (todo : List Slot) :
    ∃ patience w', w.visitAll source n p patience todo = some w' := by
  induction todo generalizing w with
  | nil => exact ⟨0, w, rfl⟩
  | cons s rest ih =>
    obtain ⟨patience₁, w₁, hvisit⟩ := @exists_visit source n p hsource w s
    obtain ⟨patience₂, w₂, hrest⟩ := ih w₁
    -- The greater patience serves both.
    refine ⟨max patience₁ patience₂, w₂, ?_⟩
    rw [visitAll_cons, visit_mono (Nat.le_max_left _ _) hvisit]
    exact visitAll_mono (Nat.le_max_right _ _) hrest

/-- When a slot is visited it owns its lattice edge. -/
theorem owns_of_visitAll {params : SmallWorldParams} (hc : params.check n = .ok ())
    {front back : List Slot} (hslots : params.slots n = front ++ s :: back)
    (h : (start n params).visitAll source n p patience front = some w) :
    ∃ far, w.graph.OwnedBy n (params.slots n) far ∧ far s = s.far n := by
  have hnd : (front ++ s :: back).Nodup := hslots ▸ params.nodup_slots n
  obtain ⟨hfront, -, hdisjoint⟩ := List.nodup_append.mp hnd
  have hsub : front ⊆ params.slots n := by
    rw [hslots]
    exact List.subset_append_left _ _
  have hs : s ∉ front := fun hs => hdisjoint s hs s List.mem_cons_self rfl
  obtain ⟨far, hw, hout, -⟩ := ownedBy_visitAll (SmallWorldParams.pos_of_check hc) hsub hfront
    (ownedBy_start hc) (fun _ _ => rfl) h
  exact ⟨far, hw, hout s hs⟩

/-- The search of a visit is sound: it has something to find, it ends with the first eligible
node drawn, and the edge that is moved to this node is there and leads elsewhere. -/
structure SoundSearch (source : DrawSource) (n : Nat) (p : Binary64) (w : Wiring) (s : Slot) :
    Prop where
  exists_target : ∃ t < n, t ≠ s.node ∧ t ∉ w.graph.neighbors s.node
  edge : s.far n ∈ w.graph.neighbors s.node ∧ s.node ∈ w.graph.neighbors (s.far n)
  visit : ∀ patience w', w.visit source n p patience s = some w' ↔
    ∃ skipped < patience, ∃ t, FirstPick source n (w.eligible s) (w.drawn + 1) skipped t ∧
      s.far n ≠ t ∧
      w' = ⟨(w.graph.unlink s.node (s.far n)).link s.node t, w.drawn + 1 + skipped + 1⟩

theorem soundSearch {slots : List Slot} {far : Slot → NodeId}
    (hw : w.graph.OwnedBy n slots far) (hs : s ∈ slots) (hfar : far s = s.far n)
    (hk : ¬w.Keeps source n p s) : w.SoundSearch source n p s := by
  have hedge : s.far n ∈ w.graph.neighbors s.node := hfar ▸ hw.far_mem_neighbors hs
  constructor
  case exists_target =>
    rw [Keeps, not_or] at hk
    obtain ⟨t, ht, heligible⟩ := exists_eligible (Nat.lt_of_not_le hk.2)
    exact ⟨t, ht, eligible_iff.mp heligible⟩
  case edge => exact ⟨hedge, hw.simple.symm hedge⟩
  case visit =>
    intro patience w'
    rw [visit_eq_some_iff hk]
    constructor
    · rintro ⟨skipped, hlt, t, hfirst, rfl⟩
      refine ⟨skipped, hlt, t, hfirst, ?_, rfl⟩
      intro he
      exact (eligible_iff.mp hfirst.accepted).2 (he ▸ hedge)
    · rintro ⟨skipped, hlt, t, hfirst, -, rfl⟩
      exact ⟨skipped, hlt, t, hfirst, rfl⟩

end Wiring

/-! ### Runs that draw a small-world graph -/

/-- **Every search of a run is sound, and a run ends on every source that picks every node
again and again.**  The first part holds of every source, also where the run is cut off later:
a slot's node is left alone exactly if no node is eligible.  In the second, no patience beyond
a certain one makes a difference. -/
theorem smallWorld_searches {n : Nat} {params : SmallWorldParams} {source : DrawSource}
    (hc : params.check n = .ok ()) :
    (∀ patience front s back w, params.slots n = front ++ s :: back →
      (Wiring.start n params).visitAll source n params.p patience front = some w →
      ((∃ t < n, w.eligible s t = true) ↔ (w.graph.neighbors s.node).length < n - 1) ∧
        (¬w.Keeps source n params.p s → w.SoundSearch source n params.p s)) ∧
    (source.PicksAll n → ∃ enough w, ∀ patience ≥ enough,
      smallWorld n params source patience = .ok w) := by
  constructor
  · intro patience front s back w hslots hrun
    obtain ⟨far, hw, hfar⟩ := Wiring.owns_of_visitAll hc hslots hrun
    have hs : s ∈ params.slots n := by
      rw [hslots]
      simp
    have hnode : s.node < n :=
      hw.simpleOn.lt_of_mem (hw.simple.symm (hw.far_mem_neighbors hs))
    exact ⟨Wiring.exists_eligible_iff hw.simpleOn hnode, Wiring.soundSearch hw hs hfar⟩
  · intro hsource
    obtain ⟨enough, w, hrun⟩ :=
      @Wiring.exists_visitAll source n params.p hsource (Wiring.start n params) (params.slots n)
    have hw := (smallWorld_eq_ok_iff hc).mpr hrun
    exact ⟨enough, w, fun patience hle => smallWorld_mono hc hle hw⟩

/-- A source whose words pick the numbers below six in turn. -/
def cyclicSource : DrawSource where
  word i := UInt64.ofNat (i % 6 * 3074457345618258603)

theorem picksAll_cyclicSource : cyclicSource.PicksAll 6 := by
  intro position t ht
  have hword : cyclicSource.word (6 * position + t) = cyclicSource.word t := by
    have hmod : (6 * position + t) % 6 = t % 6 := by omega
    show UInt64.ofNat ((6 * position + t) % 6 * _) = UInt64.ofNat (t % 6 * _)
    rw [hmod]
  have hpick : ∀ t < 6, pick? 6 (cyclicSource.word t) = some t := by decide +kernel
  refine ⟨6 * position + t, by omega, ?_⟩
  rw [hword]
  exact hpick t ht

/-- Of six nodes with every slot rewired the last slot is searched for, and the run ends. -/
theorem smallWorld_searches_six :
    (∃ w, (Wiring.start 6 ⟨4, ⟨0x3FF0000000000000⟩⟩).visitAll cyclicSource 6
        ⟨0x3FF0000000000000⟩ 64 ((latticeSlots 6 2).take 11) = some w ∧
      w.SoundSearch cyclicSource 6 ⟨0x3FF0000000000000⟩ ⟨5, 2⟩) ∧
    ∃ enough w, ∀ patience ≥ enough,
      smallWorld 6 ⟨4, ⟨0x3FF0000000000000⟩⟩ cyclicSource patience = .ok w := by
  have hrun : ((Wiring.start 6 ⟨4, ⟨0x3FF0000000000000⟩⟩).visitAll cyclicSource 6
      ⟨0x3FF0000000000000⟩ 64 ((latticeSlots 6 2).take 11)).any
        (fun w => !decide (w.Keeps cyclicSource 6 ⟨0x3FF0000000000000⟩ ⟨5, 2⟩)) = true := by
    decide +kernel
  obtain ⟨w, hw, hk⟩ := (Option.any_eq_true _ _).mp hrun
  rw [Bool.not_eq_true', decide_eq_false_iff_not] at hk
  obtain ⟨hsearch, hends⟩ := @smallWorld_searches 6 ⟨4, ⟨0x3FF0000000000000⟩⟩ cyclicSource
    (by decide +kernel)
  have hslots : SmallWorldParams.slots ⟨4, ⟨0x3FF0000000000000⟩⟩ 6 =
      (latticeSlots 6 2).take 11 ++ ⟨5, 2⟩ :: [] := by decide +kernel
  exact ⟨⟨w, hw, (hsearch 64 _ _ _ w hslots hw).2 hk⟩, hends picksAll_cyclicSource⟩

end PeerOverlay
