/-
Binary floating-point numbers of 64 bits.

A `Binary64` is its bit pattern.  `value` reads a pattern as not-a-number, an
infinity or `± mantissa · 2 ^ (exponent − 1074)` with natural `mantissa` and
`exponent`, so every comparison is one of natural numbers.  `ofScaled` goes the
other way: the number nearest to a quotient, ties to the even mantissa.

Design notes: the patterns of the non-negative finite numbers, read as numbers,
are `exponent · 2 ^ 52 + mantissa`, also across the border between subnormal and
normal numbers; rounding up into the next binade therefore needs no case.
-/
namespace PeerOverlay

/-- A floating-point number by its 64 bits. -/
structure Binary64 where
  bits : UInt64
deriving DecidableEq, Repr, Inhabited

namespace Binary64

/-- The weight of the sign bit. -/
def signBit : Nat := 0x8000000000000000

/-- The weight of the lowest bit of the exponent, which is the mantissa's implicit bit. -/
def implicitBit : Nat := 0x10000000000000

/-- What a bit pattern stands for; a finite one stands for
`± mantissa · 2 ^ (exponent − 1074)`. -/
inductive Value
  | nan
  | infinite (negative : Bool)
  | finite (negative : Bool) (mantissa exponent : Nat)
deriving DecidableEq, Repr

/-- The bits without the sign, as a number. -/
def magnitude (x : Binary64) : Nat :=
  x.bits.toNat % signBit

/-- Whether the sign bit is set. -/
def isNegative (x : Binary64) : Bool :=
  signBit ≤ x.bits.toNat

/-- The magnitude of the infinities. -/
def infiniteMagnitude : Nat :=
  2047 * implicitBit

/-- The reading of a bit pattern. -/
def value (x : Binary64) : Value :=
  let exponent := x.magnitude / implicitBit
  let fraction := x.magnitude % implicitBit
  if exponent = 2047 then
    if fraction = 0 then .infinite x.isNegative else .nan
  else if exponent = 0 then .finite x.isNegative fraction 0
  else .finite x.isNegative (fraction + implicitBit) (exponent - 1)

/-- The pattern with the given sign and magnitude. -/
def ofMagnitude (negative : Bool) (magnitude : Nat) : Binary64 :=
  ⟨UInt64.ofNat ((if negative then signBit else 0) + magnitude)⟩

/-- The two infinities. -/
def infinity (negative : Bool) : Binary64 :=
  ofMagnitude negative infiniteMagnitude

/-- Not a number. -/
def nan : Binary64 :=
  ofMagnitude false (infiniteMagnitude + implicitBit / 2)

/-- The two zeros. -/
def zero (negative : Bool) : Binary64 :=
  ofMagnitude negative 0

/-- A quotient rounded to the nearest whole number, a tie to the even one. -/
def roundHalfEven (num den : Nat) : Nat :=
  let quotient := num / den
  let twice := 2 * (num % den)
  if twice < den then quotient
  else if den < twice then quotient + 1
  else quotient + quotient % 2

/-- The number nearest to `num / den · 2 ^ (−1074)`; beyond the greatest finite
number it is infinite. -/
def ofScaled (negative : Bool) (num den : Nat) : Binary64 :=
  let exponent := (num / den).log2 - 52
  let mantissa := roundHalfEven num (den <<< exponent)
  ofMagnitude negative (min (exponent * implicitBit + mantissa) infiniteMagnitude)

/-- The number nearest to `digits · 10 ^ exponent`.  Numbers far outside the range
are settled by their order of magnitude alone. -/
def ofDecimal (negative : Bool) (digits : Nat) (exponent : Int) : Binary64 :=
  if digits = 0 then zero negative
  else
    let order := exponent + (digits.log2 : Int) / 3
    if 400 < exponent then infinity negative
    else if order < -400 then zero negative
    else if 0 ≤ exponent then
      ofScaled negative ((digits * Nat.pow 10 exponent.toNat) <<< 1074) 1
    else ofScaled negative (digits <<< 1074) (Nat.pow 10 exponent.natAbs)

/-- Whether a number lies in the closed unit interval. -/
def inUnitInterval (x : Binary64) : Bool :=
  match x.value with
  | .finite negative mantissa exponent =>
    mantissa = 0 || (!negative && mantissa <<< exponent ≤ 1 <<< 1074)
  | _ => false

/-- Whether `steps · 2 ^ (−53)` is less than a number. -/
def exceeds (x : Binary64) (steps : Nat) : Bool :=
  match x.value with
  | .finite negative mantissa exponent =>
    !negative && steps <<< 1021 < mantissa <<< exponent
  | .infinite negative => !negative
  | .nan => false

end Binary64

end PeerOverlay
