/-
Storing the records of a run.

* `storeAll_append` — storing goes on where it stopped, unless a record has failed;
* `storeAll_induction` — what every store keeps a run of stores keeps;
* `storeAll_eq_error_iff` — the error of a run of stores is that of the first record that
  the sink refuses, and nothing is stored after it;
* `generateInto_eq_ok_iff`, `generateInto_eq_error_iff` — a run into a sink builds its
  records first and then stores them all.
-/
import PeerOverlay.Generation
import PeerOverlay.Proofs.Outcome

namespace PeerOverlay

variable {σ : Type} {store : Store σ} {records : List NodeRecord} {s s' t : σ}
  {cause : SinkError} {e : RunError}

theorem storeAll_cons_of_ok {r : NodeRecord} (h : store r s = (.ok (), t)) :
    storeAll store (r :: records) s = storeAll store records t := by
  rw [storeAll, h]

theorem storeAll_cons_of_error {r : NodeRecord} (h : store r s = (.error cause, t)) :
    storeAll store (r :: records) s = (.error (.store r.node cause), t) := by
  rw [storeAll, h]

theorem storeAll_append (front back : List NodeRecord)
    (h : storeAll store front s = (.ok (), t)) :
    storeAll store (front ++ back) s = storeAll store back t := by
  induction front generalizing s with
  | nil =>
    obtain ⟨-, rfl⟩ := Prod.mk.inj h
    rfl
  | cons r rest ih =>
    rcases hr : store r s with ⟨⟨cause⟩ | ⟨⟩, s₁⟩
    · rw [storeAll_cons_of_error hr] at h
      cases h
    · rw [storeAll_cons_of_ok hr] at h
      rw [List.cons_append, storeAll_cons_of_ok hr]
      exact ih h

/-- What every store keeps a run of stores keeps. -/
theorem storeAll_induction {P : σ → Prop} (h : storeAll store records s = (.ok (), s'))
    (hs : P s) (hstep : ∀ r ∈ records, ∀ x x', P x → store r x = (.ok (), x') → P x') :
    P s' := by
  induction records generalizing s with
  | nil =>
    obtain ⟨-, rfl⟩ := Prod.mk.inj h
    exact hs
  | cons r rest ih =>
    obtain ⟨hr, hrest⟩ := List.forall_mem_cons.mp hstep
    rcases hstored : store r s with ⟨⟨cause⟩ | ⟨⟩, s₁⟩
    · rw [storeAll_cons_of_error hstored] at h
      cases h
    · rw [storeAll_cons_of_ok hstored] at h
      exact ih h (hr s s₁ hs hstored) hrest

/-- **Storing stops at the first record that the sink refuses.** -/
theorem storeAll_eq_error_iff :
    storeAll store records s = (.error e, s') ↔
      ∃ front r back t cause, records = front ++ r :: back ∧
        storeAll store front s = (.ok (), t) ∧ store r t = (.error cause, s') ∧
          e = .store r.node cause := by
  constructor
  · intro h
    induction records generalizing s with
    | nil => cases h
    | cons r rest ih =>
      -- The refused record is the first one, or else one of the rest.
      rcases hr : store r s with ⟨⟨cause⟩ | ⟨⟩, s₁⟩
      · rw [storeAll_cons_of_error hr] at h
        obtain ⟨he, rfl⟩ := Prod.mk.inj h
        exact ⟨[], r, rest, s, cause, rfl, rfl, hr, (Except.error.inj he).symm⟩
      · rw [storeAll_cons_of_ok hr] at h
        obtain ⟨front, x, back, t, cause, rfl, hfront, hx, he⟩ := ih h
        exact ⟨r :: front, x, back, t, cause, rfl, by rwa [storeAll_cons_of_ok hr], hx, he⟩
  · rintro ⟨front, r, back, t, cause, rfl, hfront, hr, rfl⟩
    rw [storeAll_append front _ hfront, storeAll_cons_of_error hr]

variable {c : Config} {fresh : DrawSource} {patience : Nat}

theorem generateInto_eq_ok_iff {summary : Summary} :
    generateInto c fresh patience store s = (.ok summary, s') ↔
      ∃ g records, buildRecords c fresh patience = .ok (g, records) ∧
        storeAll store records s = (.ok (), s') ∧ summary = summarize g records := by
  rw [generateInto]
  rcases buildRecords c fresh patience with cause | ⟨g, records⟩
  · simp
  · rcases hstored : storeAll store records s with ⟨cause | ⟨⟩, t⟩
    · simp [Except.map, hstored]
    · simp [Except.map, hstored, eq_comm, and_comm]

theorem generateInto_eq_error_iff :
    generateInto c fresh patience store s = (.error e, s') ↔
      (buildRecords c fresh patience = .error e ∧ s' = s) ∨
        ∃ g records, buildRecords c fresh patience = .ok (g, records) ∧
          storeAll store records s = (.error e, s') := by
  rw [generateInto]
  rcases buildRecords c fresh patience with cause | ⟨g, records⟩
  · simp [eq_comm]
  · rcases hstored : storeAll store records s with ⟨cause | ⟨⟩, t⟩
    · simp [Except.map, hstored]
    · simp [Except.map, hstored]

end PeerOverlay
