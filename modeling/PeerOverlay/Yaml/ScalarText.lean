/-
The text of scalars: plain, quoted and block scalars.

A run of blanks and line breaks inside a flow scalar is a `Gap`; `Gap.fold` is what it
leaves in the text: the blanks of a single line, a space for one line break, and one
break fewer than there are for several.
-/
import PeerOverlay.Text.Numeral
import PeerOverlay.Yaml.Cursor

namespace PeerOverlay.Yaml

open PeerOverlay.Text

/-- Blanks and line breaks between two words of a scalar. -/
structure Gap where
  /-- Blanks, as long as no line break has come. -/
  blanks : List Char := []
  /-- Whether a line break has come. -/
  broken : Bool := false
  /-- The first line break. -/
  first : List Char := []
  /-- The line breaks after it. -/
  further : List Char := []

/-- What a gap leaves in the text. -/
def Gap.fold (g : Gap) : List Char :=
  if !g.broken then g.blanks
  else if g.first.head? = some '\n' then (if g.further = [] then [' '] else g.further)
  else g.first ++ g.further

/-- Reads on to the next word.  Where `tabFree` columns are given, no tab may stand in them
after a line break. -/
def readGap (tabFree : Int) : (fuel : Nat) → Gap → Cursor → Option (Gap × Cursor)
  | 0, g, c => some (g, c)
  | fuel + 1, g, c =>
    if c.atSpace then
      if g.broken then
        if (c.column : Int) < tabFree ∧ c.at? '\t' then none
        else readGap tabFree fuel g (c.skip 1)
      else readGap tabFree fuel { g with blanks := g.blanks ++ c.rest.take 1 } (c.skip 1)
    else if c.atBreak then
      if g.broken then
        readGap tabFree fuel { g with further := g.further ++ c.breakText } c.skipBreak
      else
        readGap tabFree fuel { g with broken := true, blanks := [], first := c.breakText }
          c.skipBreak
    else some (g, c)

/-- A text that has been read, and the place after it. -/
structure Read where
  text : List Char
  after : Cursor
  /-- Whether a line break stands between the text and the place after it. -/
  broken : Bool := false

/-- The word of a plain scalar that comes next.  In a flow collection a colon in front of an
indicator is an error. -/
def plainWord? (inFlow : Bool) : List Char → Option (List Char)
  | [] => some []
  | d :: rest =>
    if isSpace d || isBreak d then some []
    else if inFlow && d = ':' && rest.head?.any ",?[]\x7b\x7d".toList.contains then none
    else if (d = ':' && rest.head?.all fun e => isSpace e || isBreak e) ||
        (inFlow && ",[]\x7b\x7d".toList.contains d) then some []
    else (plainWord? inFlow rest).map (d :: ·)

/-- Reads a plain scalar whose further lines are indented by at least `indent` columns; `text`
is what has been read and `gap` what came after it. -/
def plainFrom? (inFlow : Bool) (indent : Int) :
    (fuel : Nat) → (text : List Char) → Gap → Cursor → Option Read
  | 0, _, _, _ => none
  | fuel + 1, text, gap, c =>
    if c.atDocumentMarker || c.at? '#' then some ⟨text, c, gap.broken⟩
    else
      match plainWord? inFlow c.rest with
      | none => none
      | some [] => some ⟨text, c, gap.broken⟩
      | some word =>
        let text := text ++ gap.fold ++ word
        let c := c.skip word.length
        if !c.atSpace && !c.atBreak then some ⟨text, c, false⟩
        else
          match readGap indent c.size {} c with
          | none => none
          | some (gap, c) =>
            if !inFlow && (c.column : Int) < indent then some ⟨text, c, gap.broken⟩
            else plainFrom? inFlow indent fuel text gap c

/-- Reads a plain scalar. -/
def plain? (inFlow : Bool) (indent : Int) (c : Cursor) : Option Read :=
  plainFrom? inFlow indent (c.size + 1) [] {} c

/-- The character that a letter after a backslash stands for. -/
def simpleEscape? (c : Char) : Option Char :=
  [('0', '\x00'), ('a', '\x07'), ('b', '\x08'), ('t', '\t'), ('\t', '\t'), ('n', '\n'),
   ('v', '\x0b'), ('f', '\x0c'), ('r', '\r'), ('e', '\x1b'), (' ', ' '), ('"', '"'),
   ('/', '/'), ('\\', '\\'), ('N', '\u0085'), ('_', '\u00a0'), ('L', '\u2028'),
   ('P', '\u2029')].lookup c

/-- How many digits of a code point follow a letter after a backslash. -/
def codeLength? (c : Char) : Option Nat :=
  [('x', 2), ('u', 4), ('U', 8)].lookup c

/-- The character of a code point. -/
def charOfCode? (n : Nat) : Option Char :=
  if n.isValidChar then some (Char.ofNat n) else none

/-- Reads the rest of an escape sequence after the backslash. -/
def escape? (c : Cursor) : Option (Char × Cursor) := do
  let letter ← c.peek? 0
  match codeLength? letter with
  | some length =>
    let digits := (c.skip 1).rest.take length
    if digits.length ≠ length then none
    let n ← numberIn? 16 digits
    return (← charOfCode? n, c.skip (1 + length))
  | none => return (← simpleEscape? letter, c.skip 1)

/-- Reads a quoted scalar up to its closing quote; `text` is what has been read, last
character first. -/
def quotedFrom? (double : Bool) :
    (fuel : Nat) → (text : List Char) → Cursor → Option Read
  | 0, _, _ => none
  | fuel + 1, text, c =>
    let quote := if double then '"' else '\''
    if c.atDocumentMarker then none
    else if c.atSpace || c.atBreak then
      match readGap 0 c.size {} c with
      | none => none
      | some (gap, c) => quotedFrom? double fuel (gap.fold.reverse ++ text) c
    else
      match c.rest with
      | [] => none
      | d :: rest =>
        if !double && d = quote && rest.head? = some quote then
          quotedFrom? double fuel (quote :: text) (c.skip 2)
        else if d = quote then some ⟨text.reverse, c.skip 1, false⟩
        else if double && d = '\\' then
          if (c.skip 1).atBreak then
            match readGap 0 c.size { broken := true } (c.skip 1).skipBreak with
            | none => none
            | some (gap, c) => quotedFrom? double fuel (gap.fold.reverse ++ text) c
          else
            match escape? (c.skip 1) with
            | none => none
            | some (e, c) => quotedFrom? double fuel (e :: text) c
        else quotedFrom? double fuel (d :: text) (c.skip 1)

/-- Reads a quoted scalar. -/
def quoted? (double : Bool) (c : Cursor) : Option Read :=
  quotedFrom? double (c.size + 1) [] (c.skip 1)

/-- What becomes of the line breaks at the end of a block scalar. -/
inductive Chomping
  | strip
  | clip
  | keep
deriving DecidableEq

/-- Reads the chomping indicator of a block scalar. -/
def chomping (c : Cursor) : Chomping × Cursor :=
  if c.at? '+' then (.keep, c.skip 1)
  else if c.at? '-' then (.strip, c.skip 1)
  else (.clip, c)

/-- Reads the indentation indicator of a block scalar: a digit, but not zero. -/
def indentation? (c : Cursor) : Option (Option Nat × Cursor) :=
  match c.peek? 0 with
  | some d =>
    if d = '0' then none
    else if d.isDigit then some (digitValue? 10 d, c.skip 1)
    else some (none, c)
  | none => some (none, c)

/-- Reads the indicators of a block scalar, in either order. -/
def blockHeader? (c : Cursor) : Option (Chomping × Option Nat × Cursor) := do
  if c.at? '+' || c.at? '-' then
    let (chomp, c) := chomping c
    let (increment, c) ← indentation? c
    return (chomp, increment, ← c.finishLine?)
  else
    let (increment, c) ← indentation? c
    if increment.isSome then
      let (chomp, c) := chomping c
      return (chomp, increment, ← c.finishLine?)
    else return (.clip, none, ← c.finishLine?)

/-- Passes spaces up to a column; without one, all of them. -/
def skipIndent (indent : Option Nat) (c : Cursor) : Cursor :=
  let spaces := (c.rest.takeWhile (· = ' ')).length
  match indent with
  | none => c.skip spaces
  | some column => c.skip (min spaces (column - c.column))

/-- Reads indentation and empty lines in front of a line of a block scalar.  The answer is
their line breaks, the greatest indentation and the place of the line. -/
def blockBreaks? (indent : Option Nat) :
    (fuel : Nat) → (greatest : Nat) → (breaks : List Char) → Cursor →
      Option (List Char × Nat × Cursor)
  | 0, _, _, _ => none
  | fuel + 1, greatest, breaks, c =>
    let c := skipIndent indent c
    let greatest := max greatest c.column
    if indent.all (c.column < ·) && c.at? '\t' then none
    else if c.atBreak then
      blockBreaks? indent fuel greatest (breaks ++ c.breakText) c.skipBreak
    else some (breaks, greatest, c)

/-- The lines of a block scalar: the text so far, the line break after it, the empty lines
after that, and whether the last line begins with a blank. -/
structure BlockLines where
  text : List Char := []
  lastBreak : List Char := []
  emptyLines : List Char := []
  blankFirst : Bool := false

/-- Adds a line.  In a folded scalar a single break between two lines that begin with no
blank becomes a space. -/
def BlockLines.add (folded : Bool) (b : BlockLines) (line lineBreak : List Char) : BlockLines :=
  let blankFirst := line.head?.any isSpace
  let joint :=
    if folded && b.lastBreak.head? = some '\n' && !b.blankFirst && !blankFirst then
      if b.emptyLines = [] then [' '] else []
    else b.lastBreak
  { text := b.text ++ joint ++ b.emptyLines ++ line
    lastBreak := lineBreak
    emptyLines := []
    blankFirst }

/-- Reads the lines of a block scalar that are indented by `indent` columns. -/
def blockLines? (folded : Bool) (indent : Nat) :
    (fuel : Nat) → BlockLines → Cursor → Option (BlockLines × Cursor)
  | 0, _, _ => none
  | fuel + 1, b, c =>
    if c.column ≠ indent || c.atEnd then some (b, c)
    else
      let (line, c) := c.takeWhile fun d => !isBreak d
      let b := b.add folded line c.breakText
      let c := c.skipBreak
      match blockBreaks? (some indent) (c.size + 1) 0 [] c with
      | none => none
      | some (breaks, _, c) => blockLines? folded indent fuel { b with emptyLines := breaks } c

/-- Reads a block scalar inside a block that is indented by `outer` columns (minus one at the
outermost level). -/
def block? (folded : Bool) (outer : Int) (c : Cursor) : Option Read := do
  let (chomp, increment, c) ← blockHeader? (c.skip 1)
  let given := increment.map fun n => outer.toNat + n
  let (breaks, greatest, c) ← blockBreaks? given (c.size + 1) 0 [] c
  let indent := given.getD (max greatest (max (outer + 1).toNat 1))
  let (b, c) ← blockLines? folded indent (c.size + 1) { emptyLines := breaks } c
  let tail :=
    match chomp with
    | .strip => []
    | .clip => b.lastBreak
    | .keep => b.lastBreak ++ b.emptyLines
  return ⟨b.text ++ tail, c, false⟩

end PeerOverlay.Yaml
