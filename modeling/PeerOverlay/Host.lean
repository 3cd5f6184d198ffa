/-
Hosts: IPv4 addresses, IPv6 addresses and DNS names.

`isIpv4` accepts four decimal octets without leading zeros.  `isIpv6` accepts eight
groups of up to four hexadecimal digits; one run of groups may be left out as `::`,
and the last two groups may be written as a dotted quad.  `isHostname` accepts dot
separated labels of letters, digits and inner hyphens.

Design notes: only whether a text is an address matters here, so the readers return
what they leave unread and how many groups they took, not the address.
-/
import PeerOverlay.Text.CharClass
import PeerOverlay.Text.Numeral

namespace PeerOverlay.Host

open PeerOverlay.Text

/-- Skips one decimal octet: at most three digits, at most 255, no leading zero. -/
def octet? (cs : List Char) : Option (List Char) :=
  let digits := cs.takeWhile Char.isDigit
  let rest := cs.dropWhile Char.isDigit
  match number? digits with
  | some n =>
    if digits.length ≤ 3 ∧ n ≤ 255 ∧ (digits.length = 1 ∨ digits.head? ≠ some '0') then some rest
    else none
  | none => none

/-- Skips one given character. -/
def skip? (c : Char) : List Char → Option (List Char)
  | [] => none
  | d :: cs => if d = c then some cs else none

/-- Skips four octets with dots between them. -/
def quad? (cs : List Char) : Option (List Char) := do
  let cs ← octet? cs
  let cs ← skip? '.' cs >>= octet?
  let cs ← skip? '.' cs >>= octet?
  skip? '.' cs >>= octet?

/-- An IPv4 address. -/
def isIpv4 (cs : List Char) : Bool :=
  quad? cs = some []

/-- Skips one group of one to four hexadecimal digits; a fifth digit is an error. -/
def group? (cs : List Char) : Option (List Char) :=
  let digits := cs.takeWhile isHexDigit
  if 1 ≤ digits.length ∧ digits.length ≤ 4 then some (cs.dropWhile isHexDigit) else none

/-- Groups read from a text: how many of the eight they fill, whether a dotted quad came
last, and the text after them. -/
structure Groups where
  filled : Nat
  quadLast : Bool
  rest : List Char

/-- Reads groups with colons between them until `room` is full or no further group
follows.  A dotted quad fills two groups and ends the reading. -/
def readGroups : (room : Nat) → (first : Bool) → List Char → Groups
  | 0, _, cs => ⟨0, false, cs⟩
  | room + 1, first, cs =>
    let start := if first then some cs else skip? ':' cs
    match (if 1 ≤ room then start >>= quad? else none), start >>= group? with
    | some rest, _ => ⟨2, true, rest⟩
    | none, some rest =>
      let more := readGroups room false rest
      ⟨more.filled + 1, more.quadLast, more.rest⟩
    | none, none => ⟨0, false, cs⟩

/-- An IPv6 address: eight groups, or fewer around one `::`. -/
def isIpv6 (cs : List Char) : Bool :=
  let front := readGroups 8 true cs
  if front.filled = 8 then front.rest = []
  else if front.quadLast then false
  else
    match skip? ':' front.rest >>= skip? ':' with
    | some tail => (readGroups (7 - front.filled) true tail).rest = []
    | none => false

/-- An IP address of either version. -/
def isAddress (cs : List Char) : Bool :=
  isIpv4 cs || isIpv6 cs

/-- A character of a host name label. -/
def isLabelChar (c : Char) : Bool :=
  isAsciiAlnum c || c = '-'

/-- A label: one to 63 letters, digits and hyphens, without a hyphen at either end. -/
def isLabel (cs : List Char) : Bool :=
  cs ≠ [] && cs.length ≤ 63 && cs.head? ≠ some '-' && cs.getLast? ≠ some '-' &&
    cs.all isLabelChar

/-- A DNS name: labels with dots between them, at most 253 characters. -/
def isHostname (cs : List Char) : Bool :=
  cs ≠ [] && cs.length ≤ 253 && (cs.splitOn '.').all isLabel

/-- A text that may stand as the host of an endpoint. -/
def isValid (host : String) : Bool :=
  isAddress host.toList || isHostname host.toList

end PeerOverlay.Host
