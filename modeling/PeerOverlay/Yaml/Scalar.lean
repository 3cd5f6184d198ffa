/-
What a plain scalar says.

`Scalar.ofText` reads the text of a plain scalar as nothing, a truth value, a whole
number, a floating-point number or, if it is none of these, as text.

Design notes: a run of digits that begins with a zero is text; numbers in base 2, 8 and
16 have prefixes in lower case.  Whole numbers come in four widths, since readers accept
only some of them.
-/
import PeerOverlay.Number.DecimalText
import PeerOverlay.Text.Affix

namespace PeerOverlay.Yaml

open PeerOverlay.Text

/-- What a scalar says. -/
inductive Scalar
  | nothing
  | bool (value : Bool)
  /-- A number from zero up to 64 bits. -/
  | unsigned (value : Nat)
  /-- A negative number of at most 64 bits. -/
  | negative (value : Int)
  /-- A whole number of at most 128 bits that fits neither form before. -/
  | wide (value : Int)
  | float (value : Binary64)
  | text (value : String)
deriving DecidableEq, Repr

/-- The words for nothing. -/
def isNullWord (s : String) : Bool :=
  ["null", "Null", "NULL", "~"].contains s

/-- The truth value that a word names. -/
def boolWord? (s : String) : Option Bool :=
  if ["true", "True", "TRUE"].contains s then some true
  else if ["false", "False", "FALSE"].contains s then some false
  else none

/-- Whether a text is a number with needless zeros in front, after an optional sign. -/
def hasLeadingZero (cs : List Char) : Bool :=
  let digits :=
    match cs with
    | '-' :: rest => rest
    | '+' :: rest => rest
    | _ => cs
  2 ≤ digits.length && digits.head? = some '0' && digits.all Char.isDigit

/-- A number in base 16, 8 or 2 behind the prefix of its base. -/
def basedNumber? (cs : List Char) : Option Nat :=
  match cs with
  | '0' :: 'x' :: rest => numberIn? 16 rest
  | '0' :: 'o' :: rest => numberIn? 8 rest
  | '0' :: 'b' :: rest => numberIn? 2 rest
  | _ => none

/-- A number from zero up to `limit`, with an optional plus sign. -/
def unsigned? (limit : Nat) (cs : List Char) : Option Nat :=
  let body :=
    match cs with
    | '+' :: rest => rest
    | _ => cs
  match (basedNumber? body).filter (· ≤ limit) with
  | some n => some n
  | none => if hasLeadingZero cs then none else (number? body).filter (· ≤ limit)

/-- A negative number down to `-limit`, or minus zero. -/
def negative? (limit : Nat) (cs : List Char) : Option Int :=
  match cs with
  | '-' :: body =>
    match (basedNumber? body).filter (· ≤ limit) with
    | some n => some (-n)
    | none =>
      if hasLeadingZero cs then none
      else ((number? body).filter (· ≤ limit)).map fun n => -(n : Int)
  | _ => none

/-- A whole number of at most 128 bits. -/
def wholeNumber? (cs : List Char) : Option Scalar :=
  let size := UInt64.size
  match unsigned? (size - 1) cs, negative? (size / 2) cs with
  | some n, _ => some (.unsigned n)
  | none, some i => some (.negative i)
  | none, none =>
    match unsigned? (size * size - 1) cs, negative? (size * size / 2) cs with
    | some n, _ => some (.wide n)
    | none, some i => some (.wide i)
    | none, none => none

/-- A finite number in decimal notation, or one of the words for infinities and for
not-a-number. -/
def float? (cs : List Char) : Option Binary64 :=
  let body :=
    match cs with
    | '+' :: rest => rest
    | _ => cs
  let unsigned := cs.head? ≠ some '+' || (body.head? ≠ some '+' && body.head? ≠ some '-')
  let words (l : List String) := (l.map String.toList).contains
  if !unsigned then none
  else if words [".inf", ".Inf", ".INF"] body then some (Binary64.infinity false)
  else if words ["-.inf", "-.Inf", "-.INF"] cs then some (Binary64.infinity true)
  else if words [".nan", ".NaN", ".NAN"] cs then some Binary64.nan
  else
    (Binary64.ofText? body).filter fun x =>
      match x.value with
      | .finite _ _ _ => true
      | _ => false

/-- What the text of a plain scalar says. -/
def Scalar.ofText (s : String) : Scalar :=
  if s = "" || isNullWord s then .nothing
  else
    match boolWord? s, wholeNumber? s.toList with
    | some b, _ => .bool b
    | none, some n => n
    | none, none =>
      if hasLeadingZero s.toList then .text s
      else
        match float? s.toList with
        | some x => .float x
        | none => .text s

end PeerOverlay.Yaml
