/-
Directives, anchors and tags.

Each reader starts at its indicator and answers a token and the place after it, or
nothing if the text is not well formed.
-/
import PeerOverlay.Text.Numeral
import PeerOverlay.Text.Utf8
import PeerOverlay.Yaml.Cursor

namespace PeerOverlay.Yaml

open PeerOverlay.Text

/-- Reads a number of a version: at most nine digits. -/
def versionNumber? (c : Cursor) : Option (Nat × Cursor) :=
  let (digits, c) := c.takeWhile Char.isDigit
  if digits.length ≤ 9 then (number? digits).map fun n => (n, c) else none

/-- Reads the value of a version directive. -/
def version? (c : Cursor) : Option (Token × Cursor) := do
  let (major, c) ← versionNumber? (c.skipWhile isSpace)
  if !c.at? '.' then none
  let (minor, c) ← versionNumber? (c.skip 1)
  return (.version major minor, c)

/-- Reads a tag handle: an exclamation mark, a word, and perhaps another mark.  Inside a
directive the second mark may only be left out of the shortest handle. -/
def tagHandle? (inDirective : Bool) (c : Cursor) : Option (List Char × Cursor) :=
  if !c.at? '!' then none
  else
    let (word, c) := (c.skip 1).takeWhile isWordChar
    if c.at? '!' then some ('!' :: word ++ ['!'], c.skip 1)
    else if inDirective && word ≠ [] then none
    else some ('!' :: word, c)

/-- A character of a tag; inside angle brackets some more are allowed. -/
def isTagChar (verbatim : Bool) (c : Char) : Bool :=
  isWordChar c || ";/?:@&=+$.%!~*'()".toList.contains c ||
    (verbatim && ",[]".toList.contains c)

/-- Reads one octet that is written as a percent sign and two hexadecimal digits. -/
def octet? : List Char → Option (UInt8 × List Char)
  | '%' :: a :: b :: rest => do
    let high ← digitValue? 16 a
    let low ← digitValue? 16 b
    return (UInt8.ofNat (16 * high + low), rest)
  | _ => none

/-- How many octets follow the first octet of a character; it fails on an octet that begins
no character. -/
def following? (first : UInt8) : Option Nat :=
  if first < 0x80 then some 0
  else if first < 0xC0 then none
  else if first < 0xE0 then some 1
  else if first < 0xF0 then some 2
  else if first < 0xF8 then some 3
  else none

/-- Reads octets that are written with percent signs and go on with a character. -/
def furtherOctets? : (count : Nat) → List Char → Option (List UInt8 × List Char)
  | 0, cs => some ([], cs)
  | count + 1, cs => do
    let (b, rest) ← octet? cs
    if b < 0x80 || 0xC0 ≤ b then none
    let (bytes, rest) ← furtherOctets? count rest
    return (b :: bytes, rest)

/-- The octets of the characters of a tag, where some are written with percent signs. -/
def tagOctets? : (fuel : Nat) → List Char → Option (List UInt8)
  | _, [] => some []
  | 0, _ => none
  | fuel + 1, '%' :: cs => do
    let (first, rest) ← octet? ('%' :: cs)
    let (further, rest) ← furtherOctets? (← following? first) rest
    let tail ← tagOctets? fuel rest
    return first :: further ++ tail
  | fuel + 1, c :: cs => (tagOctets? fuel cs).map (Utf8.encode c.toString ++ ·)

/-- Reads the octets of a tag. -/
def tagText? (verbatim : Bool) (c : Cursor) : Option (List UInt8 × Cursor) := do
  let (raw, c) := c.takeWhile (isTagChar verbatim)
  let octets ← tagOctets? raw.length raw
  return (octets, c)

/-- Reads the value of a tag directive: a handle and what it stands for. -/
def tagDirective? (c : Cursor) : Option (Token × Cursor) := do
  let (handle, c) ← tagHandle? true (c.skipWhile isSpace)
  if !c.atSpace then none
  let (stem, c) ← tagText? true (c.skipWhile isSpace)
  if stem = [] || !c.gapAt 0 then none
  return (.tagHandle handle (.ofOctets stem), c)

/-- Reads a directive line. -/
def directive? (c : Cursor) : Option (Token × Cursor) := do
  let (name, c) := (c.skip 1).takeWhile isWordChar
  if name = [] || !c.gapAt 0 then none
  let (token, c) ←
    if name = "YAML".toList then version? c
    else if name = "TAG".toList then tagDirective? c
    else none
  return (token, ← c.finishLine?)

/-- Reads the name of an anchor or an alias. -/
def anchorName? (c : Cursor) : Option (List Char × Cursor) :=
  let (name, c) := (c.skip 1).takeWhile isWordChar
  if name ≠ [] && (c.gapAt 0 || c.rest.head?.any "?:,]\x7d%@`".toList.contains) then some (name, c)
  else none

/-- Reads a tag: verbatim in angle brackets, or a handle and a suffix.  A lone exclamation
mark is a suffix without a handle. -/
def tag? (inFlow : Bool) (c : Cursor) : Option (Token × Cursor) := do
  let (token, c) ←
    if c.peek? 1 = some '<' then do
      let (suffix, c) ← tagText? true (c.skip 2)
      if suffix = [] || !c.at? '>' then none
      pure (Token.tag [] (.ofOctets suffix), c.skip 1)
    else do
      let (handle, after) ← tagHandle? false c
      if 2 ≤ handle.length && handle.getLast? = some '!' then do
        let (suffix, c) ← tagText? false after
        if suffix = [] then none
        pure (Token.tag handle (.ofOctets suffix), c)
      else do
        let (tail, c) ← tagText? false after
        let suffix := (Tag.ofText (String.ofList (handle.drop 1))).append (.ofOctets tail)
        pure (if suffix.octets = [] then Token.tag [] .lone else Token.tag ['!'] suffix, c)
  if c.gapAt 0 || (inFlow && c.at? ',') then some (token, c) else none

end PeerOverlay.Yaml
