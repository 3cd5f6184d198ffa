/-
Rewiring keeps the ownership of edges.

A visit either leaves the slot's lattice edge alone (`Wiring.Keeps`) or moves its far end
to a drawn node (`Wiring.visit_of_keeps`, `Wiring.visit_of_not_keeps`).  The invariant of
the run over all slots is that the slots own the edges and that a slot still to be
visited owns its lattice edge: that edge is therefore present when its turn comes, even
if another node's rewiring has removed and made up edges in between.

* `Wiring.visitAll_succ` — the outcome of a run does not depend on the patience, as long
  as it suffices;
* `Wiring.ownedBy_visit` — what one visit preserves;
* `Wiring.ownedBy_visitAll` — what a run over any slots preserves, and which slots keep
  their lattice edge.
-/
import PeerOverlay.Proofs.Topology.Lattice

namespace PeerOverlay

namespace Wiring

variable {source : DrawSource} {n patience : Nat} {p : Binary64} {w w' : Wiring} {s : Slot}
  {slots todo : List Slot} {far : Slot → NodeId}

/-- A visit leaves the edge of a slot alone: the acceptance draw is not below `p`, or the
slot's node is joined to all others. -/
def Keeps (source : DrawSource) (n : Nat) (p : Binary64) (w : Wiring) (s : Slot) : Prop :=
  p.exceeds (chanceSteps (source.word w.drawn)) = false ∨
    n - 1 ≤ (w.graph.neighbors s.node).length

instance (source : DrawSource) (n : Nat) (p : Binary64) (w : Wiring) (s : Slot) :
    Decidable (w.Keeps source n p s) :=
  inferInstanceAs (Decidable (_ ∨ _))

/-- The nodes that the far end of a slot's edge may move to. -/
def eligible (w : Wiring) (s : Slot) (t : NodeId) : Bool :=
  t ≠ s.node && !(w.graph.neighbors s.node).contains t

theorem eligible_iff {t : NodeId} :
    w.eligible s t = true ↔ t ≠ s.node ∧ t ∉ w.graph.neighbors s.node := by
  simp [eligible]

theorem visit_of_keeps (h : w.Keeps source n p s) :
    w.visit source n p patience s = some ⟨w.graph, w.drawn + 1⟩ := by
  rw [visit]
  rcases h with h | h
  · rw [if_pos (by simp [h])]
  · split
    · rfl
    · exact if_pos h

theorem visit_of_not_keeps (h : ¬w.Keeps source n p s) :
    w.visit source n p patience s =
      (search source n (w.eligible s) patience (w.drawn + 1)).map fun found =>
        Wiring.mk ((w.graph.unlink s.node (s.far n)).link s.node found.1) found.2 := by
  rw [Keeps, not_or] at h
  rw [visit, if_neg (by simp [h.1]), if_neg h.2]
  have heligible : w.eligible s =
      fun t => t ≠ s.node && !(w.graph.neighbors s.node).contains t := rfl
  rw [heligible]
  cases search source n _ patience (w.drawn + 1) <;> rfl

theorem visitAll_cons (rest : List Slot) :
    w.visitAll source n p patience (s :: rest) =
      (w.visit source n p patience s).bind fun w => w.visitAll source n p patience rest := by
  rw [visitAll]
  cases w.visit source n p patience s <;> rfl

theorem visit_succ (h : w.visit source n p patience s = some w') :
    w.visit source n p (patience + 1) s = some w' := by
  by_cases hk : w.Keeps source n p s
  · rw [visit_of_keeps hk] at h ⊢
    exact h
  · rw [visit_of_not_keeps hk] at h ⊢
    obtain ⟨found, hsearch, hw'⟩ := Option.map_eq_some_iff.mp h
    exact Option.map_eq_some_iff.mpr ⟨found, search_succ hsearch, hw'⟩

/-- More patience never changes what a run ends with. -/
theorem visitAll_succ (h : w.visitAll source n p patience todo = some w') :
    w.visitAll source n p (patience + 1) todo = some w' := by
  induction todo generalizing w with
  | nil => exact h
  | cons s rest ih =>
    rw [visitAll_cons] at h ⊢
    obtain ⟨w₁, hvisit, h⟩ := Option.bind_eq_some_iff.mp h
    exact Option.bind_eq_some_iff.mpr ⟨w₁, visit_succ hvisit, ih h⟩

/-- A visit to a slot that owns its lattice edge changes at most what that slot owns, and
nothing if it leaves the edge alone. -/
theorem ownedBy_visit (hn : 0 < n) (hw : w.graph.OwnedBy n slots far) (hs : s ∈ slots)
    (hfar : far s = s.far n) (h : w.visit source n p patience s = some w') :
    ∃ t, w'.graph.OwnedBy n slots (Function.update far s t) ∧
      (w.Keeps source n p s → t = s.far n) := by
  by_cases hk : w.Keeps source n p s
  · rw [visit_of_keeps hk, Option.some_inj] at h
    subst h
    refine ⟨far s, ?_, fun _ => hfar⟩
    rwa [Function.update_eq_self]
  · rw [visit_of_not_keeps hk] at h
    obtain ⟨⟨t, drawn⟩, hsearch, rfl⟩ := Option.map_eq_some_iff.mp h
    obtain ⟨ht, heligible⟩ := search_eligible hn hsearch
    obtain ⟨hne, hfresh⟩ := eligible_iff.mp heligible
    refine ⟨t, ?_, fun hk' => absurd hk' hk⟩
    rw [← hfar]
    exact hw.rewire hs ht hne hfresh

/-- What a run over slots that own their lattice edges preserves. -/
theorem ownedBy_visitAll (hn : 0 < n) (htodo : todo ⊆ slots) (hnd : todo.Nodup)
    (hw : w.graph.OwnedBy n slots far) (hfar : ∀ s ∈ todo, far s = s.far n)
    (h : w.visitAll source n p patience todo = some w') :
    ∃ far', w'.graph.OwnedBy n slots far' ∧ (∀ s ∉ todo, far' s = far s) ∧
      ∀ front s back, todo = front ++ s :: back →
        ∃ v, w.visitAll source n p patience front = some v ∧
          (v.Keeps source n p s → far' s = s.far n) := by
  induction todo generalizing w far with
  | nil =>
    obtain rfl := Option.some.inj h
    exact ⟨far, hw, fun _ _ => rfl, fun front s back he => by simp at he⟩
  | cons s rest ih =>
    obtain ⟨hs, hnd⟩ := List.nodup_cons.mp hnd
    obtain ⟨hmem, hrest⟩ := List.cons_subset.mp htodo
    rw [visitAll_cons] at h
    obtain ⟨w₁, hvisit, h⟩ := Option.bind_eq_some_iff.mp h
    obtain ⟨t, hw₁, hkeeps⟩ := ownedBy_visit hn hw hmem (hfar s (by simp)) hvisit
    -- The slots after `s` still own their lattice edges, since `s` is not among them.
    have hfar₁ : ∀ x ∈ rest, Function.update far s t x = x.far n := by
      intro x hx
      have hne : x ≠ s := fun he => hs (he ▸ hx)
      rw [Function.update_of_ne hne]
      exact hfar x (List.mem_cons_of_mem _ hx)
    obtain ⟨far', hw', hout, hin⟩ := ih hrest hnd hw₁ hfar₁ h
    refine ⟨far', hw', ?_, ?_⟩
    · intro x hx
      rw [List.mem_cons, not_or] at hx
      rw [hout x hx.2, Function.update_of_ne hx.1]
    · rintro front x back he
      cases front with
      | nil =>
        -- The slot is `s` itself, and no later visit changes what it owns.
        obtain ⟨rfl, rfl⟩ := List.cons.inj he
        refine ⟨w, rfl, fun hk => ?_⟩
        rw [hout _ hs, Function.update_self]
        exact hkeeps hk
      | cons y front =>
        -- The visit to `s` comes before the wirings that the induction speaks of.
        obtain ⟨rfl, htail⟩ := List.cons.inj he
        obtain ⟨v, hv, hk⟩ := hin front x back htail
        refine ⟨v, ?_, hk⟩
        rw [visitAll_cons, hvisit]
        exact hv

end Wiring

end PeerOverlay
