/-
Numerals.

`numeral n` is the decimal numeral of `n` without leading zeros, `number? cs` the
value of a non-empty run of ASCII digits, and `digitValue? base c` the value of
one digit.  Reading undoes writing: `number?_numeral`.
-/
namespace PeerOverlay.Text

/-- The decimal numeral of `n`, without leading zeros. -/
def numeral (n : Nat) : List Char :=
  Nat.toDigits 10 n

/-- The value of a non-empty run of ASCII digits; leading zeros are allowed. -/
def number? (cs : List Char) : Option Nat :=
  if cs ≠ [] ∧ cs.all Char.isDigit then some (Nat.ofDigitChars 10 cs 0) else none

/-- The value of one digit in a base up to 36, in either case. -/
def digitValue? (base : Nat) (c : Char) : Option Nat :=
  let value :=
    if '0' ≤ c ∧ c ≤ '9' then some (c.toNat - '0'.toNat)
    else if 'a' ≤ c ∧ c ≤ 'z' then some (c.toNat - 'a'.toNat + 10)
    else if 'A' ≤ c ∧ c ≤ 'Z' then some (c.toNat - 'A'.toNat + 10)
    else none
  value.filter (· < base)

/-- The value of a non-empty run of digits in `base`. -/
def numberIn? (base : Nat) (cs : List Char) : Option Nat :=
  if cs = [] then none
  else cs.foldl (fun acc c => acc.bind fun n => (digitValue? base c).map (base * n + ·)) (some 0)

/-- A whole number as text: a minus sign in front of a negative one. -/
def signedNumeral (i : Int) : List Char :=
  if i < 0 then '-' :: numeral i.natAbs else numeral i.natAbs

theorem all_isDigit_numeral (n : Nat) : (numeral n).all Char.isDigit = true := by
  simpa [numeral] using fun c h => Nat.isDigit_of_mem_toDigits (by decide) (by decide) h

theorem isDigit_of_mem_numeral {n : Nat} {c : Char} (h : c ∈ numeral n) : c.isDigit = true :=
  List.all_eq_true.mp (all_isDigit_numeral n) c h

theorem numeral_ne_nil (n : Nat) : numeral n ≠ [] :=
  Nat.toDigits_ne_nil

theorem number?_numeral (n : Nat) : number? (numeral n) = some n := by
  rw [number?, if_pos ⟨numeral_ne_nil n, all_isDigit_numeral n⟩, numeral,
    Nat.ofDigitChars_toDigits (by decide) (by decide)]

end PeerOverlay.Text
