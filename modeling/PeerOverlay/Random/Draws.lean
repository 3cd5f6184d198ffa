/-
Random draws from a stream of 64-bit words.

A `DrawSource` is an endless stream of words, read by position.  `chanceSteps` turns a
word into a step of the unit interval, `pick?` turns one into a number below `n` or
rejects it, and `search` reads on until a picked number is eligible.

Design notes: nothing guarantees that a stream ever yields an eligible number, so
`search` takes the number of words it may read and answers `none` when they are used
up; `search_succ` says that more patience never changes an answer.
-/
namespace PeerOverlay

/-- An endless stream of 64-bit words, read by position. -/
structure DrawSource where
  word : Nat → UInt64

/-- The uniform number in the unit interval that a word stands for, in steps of
`2 ^ (−53)`: the word's upper 53 bits. -/
def chanceSteps (word : UInt64) : Nat :=
  (word >>> 11).toNat

/-- The greatest low half of a product that is accepted when a number below `n` is
picked: one less than `n` shifted until its highest bit is set. -/
def acceptedLow (n : UInt64) : UInt64 :=
  (n <<< (63 - n.log2)) - 1

/-- The high half of the 128-bit product of a word and `n`, from the products of the
word's own halves. -/
def highHalf (word : UInt64) (n : Nat) : Nat :=
  ((word >>> 32).toNat * n + (word % 4294967296).toNat * n / 4294967296) / 4294967296

theorem highHalf_eq (word : UInt64) (n : Nat) :
    highHalf word n = word.toNat * n / UInt64.size := by
  have hs : (word >>> 32).toNat = word.toNat / 4294967296 := by
    simp [UInt64.toNat_shiftRight, Nat.shiftRight_eq_div_pow]
  have hm : (word % 4294967296).toNat = word.toNat % 4294967296 := by
    simp [UInt64.toNat_mod]
  have hw : word.toNat * n =
      word.toNat % 4294967296 * n + 4294967296 * (word.toNat / 4294967296 * n) := by
    rw [← Nat.mul_assoc, ← Nat.add_mul, Nat.mod_add_div]
  rw [highHalf, hs, hm, hw, Nat.add_comm (_ / 4294967296 * n),
    ← Nat.add_mul_div_left _ _ (by decide), Nat.div_div_eq_div_mul]

/-- Picks a number below `n` from one word: the high half of the 128-bit product with
`n`, provided that the low half is accepted. -/
def pick? (n : Nat) (word : UInt64) : Option Nat :=
  let factor := UInt64.ofNat n
  if word * factor ≤ acceptedLow factor then some (highHalf word n) else none

theorem pick?_lt {n : Nat} {word : UInt64} {t : Nat} (hn : 0 < n) (h : pick? n word = some t) :
    t < n := by
  simp only [pick?] at h
  split at h
  · simp only [Option.some.injEq, highHalf_eq] at h
    subst h
    exact Nat.div_lt_of_lt_mul (Nat.mul_lt_mul_of_pos_right word.toNat_lt hn)
  · cases h

/-- The first eligible number below `n` that the words from `position` on yield, with the
position after it; `none` if `patience` words hold none. -/
def search (source : DrawSource) (n : Nat) (eligible : Nat → Bool) :
    (patience position : Nat) → Option (Nat × Nat)
  | 0, _ => none
  | patience + 1, position =>
    match (pick? n (source.word position)).filter eligible with
    | some target => some (target, position + 1)
    | none => search source n eligible patience (position + 1)

theorem search_succ {source : DrawSource} {n : Nat} {eligible : Nat → Bool}
    {patience position : Nat} {r : Nat × Nat}
    (h : search source n eligible patience position = some r) :
    search source n eligible (patience + 1) position = some r := by
  induction patience generalizing position with
  | zero => cases h
  | succ patience ih =>
    rw [search] at h ⊢
    split at h
    next => exact h
    next => exact ih h

theorem search_eligible {source : DrawSource} {n : Nat} {eligible : Nat → Bool}
    {patience position target after : Nat} (hn : 0 < n)
    (h : search source n eligible patience position = some (target, after)) :
    target < n ∧ eligible target = true := by
  induction patience generalizing position with
  | zero => cases h
  | succ patience ih =>
    rw [search] at h
    split at h
    next t hpick =>
      obtain ⟨rfl, -⟩ := Prod.mk.inj (Option.some.inj h)
      obtain ⟨hpick, heligible⟩ := Option.filter_eq_some_iff.1 hpick
      exact ⟨pick?_lt hn hpick, heligible⟩
    next => exact ih h

end PeerOverlay
