/-
Decimal text of floating-point numbers.

`Binary64.ofText?` reads a decimal numeral with optional fraction and exponent, or
the name of an infinity or of not-a-number in any case.  `Binary64.text` writes the
fewest digits that read back to the same number, in positional notation.
-/
import PeerOverlay.Number.Binary64
import PeerOverlay.Text.Numeral

namespace PeerOverlay.Binary64

open PeerOverlay.Text

/-- Splits an optional sign from the front; the flag tells a minus sign. -/
def splitSign : List Char → Bool × List Char
  | '-' :: cs => (true, cs)
  | '+' :: cs => (false, cs)
  | cs => (false, cs)

/-- The exponent part of a numeral: nothing, or `e` and a whole number. -/
def exponent? : List Char → Option Int
  | [] => some 0
  | c :: cs =>
    if c = 'e' ∨ c = 'E' then
      let (negative, digits) := splitSign cs
      (number? digits).map fun n => if negative then -(n : Int) else n
    else none

/-- The digits of an unsigned numeral as one number, and the power of ten of its last
digit.  At least one digit stands before or after the point. -/
def decimal? (cs : List Char) : Option (Nat × Int) :=
  let whole := cs.takeWhile Char.isDigit
  let rest := cs.dropWhile Char.isDigit
  let (fraction, tail) :=
    match rest with
    | '.' :: r => (r.takeWhile Char.isDigit, r.dropWhile Char.isDigit)
    | _ => ([], rest)
  match number? (whole ++ fraction), exponent? tail with
  | some digits, some e => some (digits, e - fraction.length)
  | _, _ => none

/-- Reads a number; the result is the nearest one to the numeral. -/
def ofText? (cs : List Char) : Option Binary64 :=
  let (negative, body) := splitSign cs
  let word := body.map Char.toLower
  if word = "inf".toList ∨ word = "infinity".toList then some (infinity negative)
  else if word = "nan".toList then some nan
  else (decimal? body).map fun d => ofDecimal negative d.1 d.2

/-- The denominator that all values below share: quarters of `2 ^ (−1074)`. -/
def quarterUnit : Nat :=
  1 <<< 1076

/-- How many zeros follow the point of a value below one, given in quarter units. -/
def zerosAfterPoint : (fuel : Nat) → Nat → Nat
  | 0, _ => 0
  | fuel + 1, v => if v * 10 < quarterUnit then zerosAfterPoint fuel (v * 10) + 1 else 0

/-- The power of ten just above a positive value given in quarter units. -/
def orderOfMagnitude (v : Nat) : Int :=
  if quarterUnit ≤ v then (numeral (v / quarterUnit)).length
  else -(zerosAfterPoint 400 v : Int)

/-- The multiple of `10 ^ unit` nearest to `v` among its two neighbours that lie between
`low` and `high` (ends included if `closed`); a tie goes up. -/
def nearestOnGrid (v low high : Nat) (closed : Bool) (unit : Int) : Option Nat :=
  let up := if unit < 0 then Nat.pow 10 unit.natAbs else 1
  let den := if unit < 0 then quarterUnit else quarterUnit * Nat.pow 10 unit.toNat
  let inside (d : Nat) : Bool :=
    if closed then low * up ≤ d * den && d * den ≤ high * up
    else low * up < d * den && d * den < high * up
  let d := v * up / den
  let remainder := v * up % den
  match inside d, inside (d + 1) with
  | true, true => some (if 2 * remainder < den then d else d + 1)
  | true, false => some d
  | false, true => some (d + 1)
  | false, false => none

/-- The shortest grid point from `count` digits on, with its power of ten. -/
def shortestFrom (v low high : Nat) (closed : Bool) (order : Int) :
    (fuel count : Nat) → Nat × Int
  | 0, count => (v * Nat.pow 10 count / quarterUnit, -(count : Int))
  | fuel + 1, count =>
    match nearestOnGrid v low high closed (order - count) with
    | some d => (d, order - count)
    | none => shortestFrom v low high closed order fuel (count + 1)

/-- The fewest digits that read back to the positive number
`mantissa · 2 ^ (exponent − 1074)`, and the power of ten of the last of them. -/
def shortest (mantissa exponent : Nat) : Nat × Int :=
  let v := (4 * mantissa) <<< exponent
  let high := (4 * mantissa + 2) <<< exponent
  let low :=
    if mantissa = implicitBit ∧ 0 < exponent then (4 * mantissa - 1) <<< exponent
    else (4 * mantissa - 2) <<< exponent
  shortestFrom v low high (mantissa % 2 = 0) (orderOfMagnitude v) 17 1

/-- The positional numeral of `digits · 10 ^ exponent`, without needless zeros. -/
def positional (digits : Nat) (exponent : Int) : List Char :=
  let ds := numeral digits
  if 0 ≤ exponent then ds ++ List.replicate exponent.toNat '0'
  else
    let places := exponent.natAbs
    let padded := List.replicate (places + 1 - ds.length) '0' ++ ds
    let whole := padded.take (padded.length - places)
    let fraction := padded.drop (padded.length - places)
    let kept := (fraction.reverse.dropWhile (· = '0')).reverse
    if kept = [] then whole else whole ++ '.' :: kept

/-- The fewest digits that read back to a number, never with an exponent. -/
def text (x : Binary64) : List Char :=
  match x.value with
  | .nan => "NaN".toList
  | .infinite negative => (if negative then ['-'] else []) ++ "inf".toList
  | .finite negative mantissa exponent =>
    (if negative then ['-'] else []) ++
      (if mantissa = 0 then ['0']
       else
        let (digits, unit) := shortest mantissa exponent
        positional digits unit)

/-- The text of a number in which a finite whole number keeps one decimal place. -/
def textWithPoint (x : Binary64) : List Char :=
  match x.value with
  | .finite _ _ _ => if x.text.contains '.' then x.text else x.text ++ ['.', '0']
  | _ => x.text

end PeerOverlay.Binary64
