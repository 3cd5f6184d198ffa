/-
Numerals and runs of digits.

Many runs of digits have one value, since zeros may stand in front.  The numeral of a number is
the one among them without a needless zero:

* `number?_eq_some_iff` — what is read as a number, and as which;
* `numeral_ofDigitChars` — digits that begin with another one than zero are a numeral;
* `eq_numeral_iff` — so are those that are read as a number and have no zero before another
  digit.
-/
import Mathlib.Data.List.Basic
import Mathlib.Data.List.Induction
import Mathlib.Tactic.Common
import PeerOverlay.Text.CharClass
import PeerOverlay.Text.Numeral

namespace PeerOverlay.Text

theorem head?_numeral_ne {n : Nat} (h : n ≠ 0) : (numeral n).head? ≠ some '0' := by
  induction n using Nat.strongRecOn with
  | ind n ih =>
    rw [numeral, Nat.toDigits_eq_if (by decide)]
    split
    next hlt =>
      have hdigit : ∀ n < 10, n ≠ 0 → [n.digitChar].head? ≠ some '0' := by decide
      exact hdigit n hlt h
    next hge =>
      -- The first digit is that of the number without its last digit.
      rw [List.head?_append_of_ne_nil _ Nat.toDigits_ne_nil]
      exact ih (n / 10) (by omega) (by omega)

theorem number?_eq_some_iff {cs : List Char} {n : Nat} :
    number? cs = some n ↔
      cs ≠ [] ∧ (∀ c ∈ cs, c.isDigit = true) ∧ Nat.ofDigitChars 10 cs 0 = n := by
  rw [number?, Option.ite_none_right_eq_some, List.all_eq_true, Option.some_inj, and_assoc]

/-! ### Needless zeros -/

/-- A digit is the numeral of its value. -/
theorem numeral_digit {c : Char} (h : c.isDigit = true) :
    c.toNat - '0'.toNat < 10 ∧ numeral (c.toNat - '0'.toNat) = [c] := by
  have hvalue : ∀ v, v < 10 → numeral v = [Char.ofNat (v + 48)] := by decide
  have hrange := toNat_of_isDigit h
  have hzero : '0'.toNat = 48 := rfl
  refine ⟨by omega, ?_⟩
  rw [hvalue _ (by omega), hzero, Nat.sub_add_cancel hrange.1, Char.ofNat_toNat]

/-- Digits that begin with another one than zero are the numeral of their value. -/
theorem numeral_ofDigitChars {cs : List Char} (hne : cs ≠ [])
    (hdigits : ∀ c ∈ cs, c.isDigit = true) (hhead : cs.head? ≠ some '0') :
    numeral (Nat.ofDigitChars 10 cs 0) = cs := by
  -- Numerals grow at their end, so the induction takes digits away from there.
  induction cs using List.reverseRecOn with
  | nil => exact absurd rfl hne
  | append_singleton front c ih =>
    obtain ⟨hlt, hc⟩ := numeral_digit (hdigits c (by simp))
    rw [Nat.ofDigitChars_append, Nat.ofDigitChars_cons, Nat.ofDigitChars_nil]
    by_cases hfront : front = []
    · subst hfront
      simpa using hc
    · rw [List.head?_append_of_ne_nil _ hfront] at hhead
      have hnumeral : numeral (Nat.ofDigitChars 10 front 0) = front :=
        ih hfront (fun d hd => hdigits d (List.mem_append_left _ hd)) hhead
      have hpos : 0 < Nat.ofDigitChars 10 front 0 := by
        refine Nat.pos_of_ne_zero fun hzero => hhead ?_
        rw [← hnumeral, hzero]
        rfl
      rw [numeral, ← Nat.toDigits_append_toDigits (by decide) hpos hlt]
      exact congrArg₂ List.append hnumeral hc

/-- A run of digits is the numeral of its value unless it begins with a zero before another
digit. -/
theorem eq_numeral_iff {cs : List Char} {n : Nat} (h : number? cs = some n) :
    cs = numeral n ↔ ¬∃ c rest, cs = '0' :: c :: rest := by
  obtain ⟨hne, hdigits, rfl⟩ := number?_eq_some_iff.mp h
  constructor
  · rintro heq ⟨c, rest, hzero⟩
    by_cases hvalue : Nat.ofDigitChars 10 cs 0 = 0
    · rw [hvalue] at heq
      cases heq.symm.trans hzero
    · refine head?_numeral_ne hvalue ?_
      rw [← heq, hzero, List.head?_cons]
  · intro hzero
    by_cases hhead : cs.head? = some '0'
    · obtain ⟨rest, rfl⟩ := List.head?_eq_some_iff.mp hhead
      cases rest with
      | nil => rfl
      | cons c rest => exact absurd ⟨c, rest, rfl⟩ hzero
    · exact (numeral_ofDigitChars hne hdigits hhead).symm

end PeerOverlay.Text
