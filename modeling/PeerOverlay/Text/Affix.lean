/-
Prefixes and suffixes of texts.

`dropPrefix?` and `dropSuffix?` remove a text from one end, if it stands there.
-/
namespace PeerOverlay.Text

/-- What follows a prefix. -/
def dropPrefix? : (front cs : List Char) → Option (List Char)
  | [], cs => some cs
  | _ :: _, [] => none
  | p :: front, c :: cs => if p = c then dropPrefix? front cs else none

/-- What stands before a suffix. -/
def dropSuffix? (back cs : List Char) : Option (List Char) :=
  (dropPrefix? back.reverse cs.reverse).map List.reverse

theorem dropPrefix?_eq_some_iff {front cs rest : List Char} :
    dropPrefix? front cs = some rest ↔ cs = front ++ rest := by
  induction front generalizing cs with
  | nil => simp [dropPrefix?, eq_comm]
  | cons p front ih =>
    cases cs with
    | nil => simp [dropPrefix?]
    | cons c cs =>
      by_cases h : p = c
      · simp [dropPrefix?, h, ih]
      · simp [dropPrefix?, h, Ne.symm h]

theorem dropSuffix?_eq_some_iff {back cs rest : List Char} :
    dropSuffix? back cs = some rest ↔ cs = rest ++ back := by
  rw [dropSuffix?, Option.map_eq_some_iff]
  constructor
  · rintro ⟨r, hr, rfl⟩
    rw [dropPrefix?_eq_some_iff] at hr
    simpa using congrArg List.reverse hr
  · rintro rfl
    exact ⟨rest.reverse, by rw [dropPrefix?_eq_some_iff, List.reverse_append], rest.reverse_reverse⟩

end PeerOverlay.Text
