/-
A place in a text.

A `Cursor` holds the characters that are still to be read, together with the octets, lines
and columns before them.
-/
import PeerOverlay.Yaml.Token

namespace PeerOverlay.Yaml

/-- A place in a text and what follows it. -/
structure Cursor where
  rest : List Char
  /-- How many octets of UTF-8 come before. -/
  index : Nat := 0
  line : Nat := 0
  column : Nat := 0
  /-- How many characters the whole text has; it bounds every loop over the text. -/
  size : Nat
deriving Repr

namespace Cursor

/-- The start of a text. -/
def start (text : List Char) : Cursor :=
  { rest := text, size := text.length }

/-- The octets that characters take in UTF-8. -/
def octets (cs : List Char) : Nat :=
  cs.foldl (fun count d => count + d.utf8Size) 0

/-- The character some places further on. -/
def peek? (c : Cursor) (ahead : Nat) : Option Char :=
  c.rest[ahead]?

/-- Whether a given character comes next. -/
def at? (c : Cursor) (d : Char) : Bool :=
  c.rest.head? = some d

/-- Whether the text ends here. -/
def atEnd (c : Cursor) : Bool :=
  c.rest.isEmpty

/-- Whether a line break comes next. -/
def atBreak (c : Cursor) : Bool :=
  c.rest.head?.any isBreak

/-- Whether a blank comes next. -/
def atSpace (c : Cursor) : Bool :=
  c.rest.head?.any isSpace

/-- Whether a blank, a line break or the end of the text comes some places further on. -/
def gapAt (c : Cursor) (ahead : Nat) : Bool :=
  (c.peek? ahead).all fun d => isSpace d || isBreak d

/-- Passes characters that are no line breaks. -/
def skip (c : Cursor) (count : Nat) : Cursor :=
  { c with
    rest := c.rest.drop count
    index := c.index + octets (c.rest.take count)
    column := c.column + count }

/-- Goes on with a new line. -/
def newLine (c : Cursor) : Cursor :=
  { c with line := c.line + 1, column := 0 }

/-- Passes a line break, if one comes next. -/
def skipBreak (c : Cursor) : Cursor :=
  if c.rest.take 2 = ['\r', '\n'] then (c.skip 2).newLine
  else if c.atBreak then (c.skip 1).newLine
  else c

/-- The end of the text begins a new line, unless it stands at the start of one. -/
def endLine (c : Cursor) : Cursor :=
  if c.column = 0 then c else c.newLine

/-- What a scalar holds for the line break that comes next: a line feed, or the separator
itself where it is a line or paragraph separator. -/
def breakText (c : Cursor) : List Char :=
  match c.rest with
  | d :: _ =>
    if d = '\r' || d = '\n' || d = '\u0085' then ['\n'] else if isBreak d then [d] else []
  | [] => []

/-- The characters from here on that have a property, and the place after them. -/
def takeWhile (c : Cursor) (p : Char → Bool) : List Char × Cursor :=
  let taken := c.rest.takeWhile p
  (taken,
    { c with
      rest := c.rest.dropWhile p
      index := c.index + octets taken
      column := c.column + taken.length })

/-- Passes the characters from here on that have a property. -/
def skipWhile (c : Cursor) (p : Char → Bool) : Cursor :=
  (c.takeWhile p).2

/-- Passes a comment, if one comes next. -/
def skipComment (c : Cursor) : Cursor :=
  if c.at? '#' then c.skipWhile fun d => !isBreak d else c

/-- Whether a document marker of three given characters stands here at the start of a line. -/
def atMarker (c : Cursor) (d : Char) : Bool :=
  c.column = 0 && c.rest.take 3 = [d, d, d] && c.gapAt 3

/-- Whether a document starts or ends here. -/
def atDocumentMarker (c : Cursor) : Bool :=
  c.atMarker '-' || c.atMarker '.'

/-- Passes blanks, a comment and a line break; nothing else may stand on the line. -/
def finishLine? (c : Cursor) : Option Cursor :=
  let c := (c.skipWhile isSpace).skipComment
  if c.atBreak then some c.skipBreak else if c.atEnd then some c else none

end Cursor

end PeerOverlay.Yaml
