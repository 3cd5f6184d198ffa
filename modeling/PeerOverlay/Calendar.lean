/-
Calendar dates.

A `Date` is a day of the proleptic Gregorian calendar, with years from −262143 to
262142.  `Date.text` writes it as year, month and day with hyphens between them, and
`Date.parse?` reads that form and its looser spellings: blanks before a number, months
and days of one digit, short years, and a sign in front of a year of any length.
-/
import PeerOverlay.Text.CharClass
import PeerOverlay.Text.Numeral

namespace PeerOverlay

open PeerOverlay.Text

/-- Whether a year has a leap day. -/
def isLeapYear (year : Int) : Bool :=
  year % 4 = 0 && (year % 100 ≠ 0 || year % 400 = 0)

/-- How many days a month has. -/
def daysInMonth (year : Int) (month : Nat) : Nat :=
  if month = 2 then (if isLeapYear year then 29 else 28)
  else if month = 4 ∨ month = 6 ∨ month = 9 ∨ month = 11 then 30
  else 31

/-- Whether three numbers are a date that the calendar holds. -/
def isCalendarDay (year : Int) (month day : Nat) : Bool :=
  -262143 ≤ year && year ≤ 262142 && 1 ≤ month && month ≤ 12 && 1 ≤ day &&
    day ≤ daysInMonth year month

/-- A day of the calendar. -/
structure Date where
  year : Int
  month : Nat
  day : Nat
  valid : isCalendarDay year month day = true
deriving DecidableEq, Repr

namespace Date

/-- The date that three numbers name. -/
def of? (year : Int) (month day : Nat) : Option Date :=
  if h : isCalendarDay year month day = true then some ⟨year, month, day, h⟩ else none

/-- A numeral with zeros in front up to a width. -/
def padded (width n : Nat) : List Char :=
  let digits := numeral n
  List.replicate (width - digits.length) '0' ++ digits

/-- A year: four digits from 0 to 9999, otherwise a sign and at least four digits. -/
def yearText (year : Int) : List Char :=
  if year < 0 then '-' :: padded 4 year.natAbs
  else if year ≤ 9999 then padded 4 year.natAbs
  else '+' :: padded 4 year.natAbs

/-- The written form of a date. -/
def text (d : Date) : String :=
  String.ofList (yearText d.year ++ '-' :: padded 2 d.month ++ '-' :: padded 2 d.day)

/-- Reads a number of at most `width` digits; the rest of the text follows. -/
def digits? (width : Nat) (cs : List Char) : Option (Nat × List Char) :=
  let run := (cs.take width).takeWhile Char.isDigit
  (number? run).map fun n => (n, cs.drop run.length)

/-- Reads a year: up to four digits, or any number of them after a sign. -/
def year? (cs : List Char) : Option (Int × List Char) :=
  match cs.dropWhile isBlank with
  | '-' :: rest => (digits? rest.length rest).map fun r => (-(r.1 : Int), r.2)
  | '+' :: rest => (digits? rest.length rest).map fun r => ((r.1 : Int), r.2)
  | rest => (digits? 4 rest).map fun r => ((r.1 : Int), r.2)

/-- Reads a hyphen and a number of up to two digits. -/
def field? : List Char → Option (Nat × List Char)
  | '-' :: cs => digits? 2 (cs.dropWhile isBlank)
  | _ => none

/-- Reads a date; nothing may follow it. -/
def parse? (cs : List Char) : Option Date := do
  let (year, rest) ← year? cs
  let (month, rest) ← field? rest
  let (day, rest) ← field? rest
  if rest = [] then of? year month day else none

end Date

end PeerOverlay
