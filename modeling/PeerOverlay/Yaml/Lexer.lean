/-
From text to tokens.

`Lexer.step` either hands out the next token or reads a further one.  A token waits as
long as it may still turn out to begin a mapping key, because then a key token has to
come before it; a colon settles that it does, and a line break, a long distance or
another key settles that it does not.  `tokens` runs the lexer over a whole text.

Design notes: tokens carry no positions; only what indentation and keys need of them is
kept.  Each step consumes a character, closes a block or hands out a token, so the number
of steps is bounded by the length of the text.
-/
import PeerOverlay.Yaml.ScalarText
import PeerOverlay.Yaml.Words

namespace PeerOverlay.Yaml

/-- A token that may still begin a mapping key. -/
structure PossibleKey where
  /-- The token's number in the order of reading. -/
  token : Nat
  /-- Whether nothing but a key can stand at the token's place. -/
  required : Bool
  index : Nat
  line : Nat
  column : Nat

/-- The state of a run over a text. -/
structure Lexer where
  cursor : Cursor
  /-- The tokens read so far. -/
  read : Array Token := #[]
  /-- How many of them have been handed out. -/
  handedOut : Nat := 0
  /-- The column of the current block, and those of the blocks around it. -/
  indent : Int := -1
  outer : List Int := []
  /-- Whether a mapping key may begin here. -/
  keyAllowed : Bool := true
  /-- The possible key of each open flow collection, innermost first, and of the block. -/
  keys : List (Option PossibleKey) := [none]
  /-- Whether the text goes on after the last character with some that must not stand in it. -/
  cut : Bool := false

/-- The greatest distance in octets between the start of a key and its colon. -/
def keyDistance : Nat := 1024

namespace Lexer

/-- Whether the lexer stands inside a flow collection. -/
def inFlow (s : Lexer) : Bool :=
  2 ≤ s.keys.length

/-- Adds a token after those read. -/
def push (s : Lexer) (t : Token) : Lexer :=
  { s with read := s.read.push t }

/-- Adds a token in front of the token of a number. -/
def insertAt (s : Lexer) (number : Nat) (t : Token) : Lexer :=
  { s with read := s.read.insertIdxIfInBounds number t }

/-- Forgets possible keys that stand on an earlier line or too far back.  It fails if such
a key was required. -/
def dropStale? (s : Lexer) : Option Lexer := do
  let keys ← s.keys.mapM fun key? =>
    match key? with
    | some k =>
      if k.line < s.cursor.line || k.index + keyDistance < s.cursor.index then
        if k.required then none else some none
      else some (some k)
    | none => some none
  return { s with keys }

/-- Forgets the innermost possible key; it fails if that key was required. -/
def forgetKey? (s : Lexer) : Option Lexer :=
  match s.keys with
  | some k :: rest => if k.required then none else some { s with keys := none :: rest }
  | _ => some s

/-- Notes that a key may begin with the next token. -/
def noteKey? (s : Lexer) : Option Lexer :=
  if s.keyAllowed then do
    let s ← s.forgetKey?
    let key : PossibleKey :=
      { token := s.read.size
        required := !s.inFlow && s.indent = s.cursor.column
        index := s.cursor.index
        line := s.cursor.line
        column := s.cursor.column }
    return { s with keys := some key :: s.keys.tail }
  else some s

/-- Closes the blocks that are indented by more than a column. -/
def closeBlocks (s : Lexer) (column : Int) : Lexer :=
  if s.inFlow then s
  else
    let blocks := s.indent :: s.outer
    let closed := (blocks.takeWhile (column < ·)).length
    match blocks.drop closed with
    | indent :: outer =>
      { s with read := s.read ++ Array.replicate closed Token.blockEnd, indent, outer }
    | [] => s

/-- Opens a block at a column to the right of the current one.  Its opening token comes in
front of the token of the given number, or last. -/
def openBlock (s : Lexer) (column : Nat) (number : Option Nat) (t : Token) : Lexer :=
  if s.inFlow || (column : Int) ≤ s.indent then s
  else
    let s := { s with indent := column, outer := s.indent :: s.outer }
    match number with
    | some n => s.insertAt n t
    | none => s.push t

/-- Moves past a number of characters. -/
def pass (s : Lexer) (count : Nat) : Lexer :=
  { s with cursor := s.cursor.skip count }

/-- Moves to the next token: past blanks, comments, line breaks and a byte order mark at the
start of a line.  Tabs separate tokens only where no key may begin. -/
def toToken (s : Lexer) : (fuel : Nat) → Lexer
  | 0 => s
  | fuel + 1 =>
    let c := s.cursor
    let c := if c.column = 0 && c.at? byteOrderMark then c.skip 1 else c
    let tabs := s.inFlow || !s.keyAllowed
    let c := (c.skipWhile fun d => d = ' ' || (tabs && d = '\t')).skipComment
    if c.atBreak then
      toToken { s with cursor := c.skipBreak, keyAllowed := s.keyAllowed || !s.inFlow } fuel
    else { s with cursor := c }

/-- Ends the text: all blocks are closed, and no key on the last line is possible any more. -/
def readEnd? (s : Lexer) : Option Lexer := do
  let s ← ({ s with cursor := s.cursor.endLine }.closeBlocks (-1)).forgetKey?
  return { s with keyAllowed := false }.push .streamEnd

/-- Reads a directive. -/
def readDirective? (s : Lexer) : Option Lexer := do
  let s ← (s.closeBlocks (-1)).forgetKey?
  let (t, cursor) ← directive? s.cursor
  return { s with keyAllowed := false, cursor }.push t

/-- Reads a document marker. -/
def readMarker? (s : Lexer) (t : Token) : Option Lexer := do
  let s ← (s.closeBlocks (-1)).forgetKey?
  return ({ s with keyAllowed := false }.pass 3).push t

/-- Opens a flow collection, which may itself begin a key. -/
def openFlow? (s : Lexer) (t : Token) : Option Lexer := do
  let s ← s.noteKey?
  return ({ s with keys := none :: s.keys, keyAllowed := true }.pass 1).push t

/-- Closes a flow collection. -/
def closeFlow? (s : Lexer) (t : Token) : Option Lexer := do
  let s ← s.forgetKey?
  let keys := if s.inFlow then s.keys.tail else s.keys
  return ({ s with keys, keyAllowed := false }.pass 1).push t

/-- Reads the comma between two entries of a flow collection. -/
def readFlowEntry? (s : Lexer) : Option Lexer := do
  let s ← s.forgetKey?
  return ({ s with keyAllowed := true }.pass 1).push .flowEntry

/-- Reads the hyphen in front of a sequence entry. -/
def readBlockEntry? (s : Lexer) : Option Lexer := do
  if !s.inFlow && !s.keyAllowed then none
  let s ← (s.openBlock s.cursor.column none .blockSequenceStart).forgetKey?
  return ({ s with keyAllowed := true }.pass 1).push .blockEntry

/-- Reads the question mark in front of a key. -/
def readKey? (s : Lexer) : Option Lexer := do
  if !s.inFlow && !s.keyAllowed then none
  let s ← (s.openBlock s.cursor.column none .blockMappingStart).forgetKey?
  return ({ s with keyAllowed := !s.inFlow }.pass 1).push .key

/-- Reads the colon in front of a value.  If a key may have begun earlier, it did. -/
def readValue? (s : Lexer) : Option Lexer :=
  match s.keys with
  | some k :: rest =>
    let s := { s with keys := none :: rest, keyAllowed := false }
    let s := (s.insertAt k.token .key).openBlock k.column (some k.token) .blockMappingStart
    some ((s.pass 1).push .value)
  | _ =>
    if !s.inFlow && !s.keyAllowed then none
    else
      let s := s.openBlock s.cursor.column none .blockMappingStart
      some (({ s with keyAllowed := !s.inFlow }.pass 1).push .value)

/-- Reads an anchor, an alias or a tag, each of which may begin a key. -/
def readProperty? (s : Lexer) (property? : Cursor → Option (Token × Cursor)) : Option Lexer := do
  let s ← s.noteKey?
  let (t, cursor) ← property? s.cursor
  return { s with keyAllowed := false, cursor }.push t

/-- Reads a scalar inside a line or over several lines, which may begin a key. -/
def readFlowScalar? (s : Lexer) (style : Style) (scalar? : Cursor → Option Read) :
    Option Lexer := do
  let s ← s.noteKey?
  let r ← scalar? s.cursor
  return { s with keyAllowed := r.broken, cursor := r.after }.push (.scalar r.text style)

/-- Reads a block scalar, which begins no key. -/
def readBlockScalar? (s : Lexer) (folded : Bool) : Option Lexer := do
  let s ← s.forgetKey?
  let r ← block? folded s.indent s.cursor
  let style := if folded then Style.folded else Style.literal
  return { s with keyAllowed := true, cursor := r.after }.push (.scalar r.text style)

/-- Whether a plain scalar may begin with a character that stands at the cursor. -/
def beginsPlain (inFlow : Bool) (d : Char) (c : Cursor) : Bool :=
  !(isSpace d || "-?:,[]\x7b\x7d#&*!|>'\"%@`".toList.contains d) ||
    (d = '-' && !(c.peek? 1).any isSpace) ||
    (!inFlow && (d = '?' || d = ':') && !c.gapAt 1)

/-- Reads the token that stands at the cursor. -/
def readTokenHere? (s : Lexer) : Option Lexer :=
  let c := s.cursor
  match c.rest with
  | [] => s.readEnd?
  | d :: _ =>
    if c.column = 0 && d = '%' then s.readDirective?
    else if c.atMarker '-' then s.readMarker? .documentStart
    else if c.atMarker '.' then s.readMarker? .documentEnd
    else if d = '[' then s.openFlow? .flowSequenceStart
    else if d = '\x7b' then s.openFlow? .flowMappingStart
    else if d = ']' then s.closeFlow? .flowSequenceEnd
    else if d = '\x7d' then s.closeFlow? .flowMappingEnd
    else if d = ',' then s.readFlowEntry?
    else if d = '-' && c.gapAt 1 then s.readBlockEntry?
    else if d = '?' && (s.inFlow || c.gapAt 1) then s.readKey?
    else if d = ':' && (s.inFlow || c.gapAt 1) then s.readValue?
    else if d = '*' then
      s.readProperty? fun c => (anchorName? c).map fun r => (.alias r.1, r.2)
    else if d = '&' then
      s.readProperty? fun c => (anchorName? c).map fun r => (.anchor r.1, r.2)
    else if d = '!' then s.readProperty? (tag? s.inFlow)
    else if d = '|' && !s.inFlow then s.readBlockScalar? false
    else if d = '>' && !s.inFlow then s.readBlockScalar? true
    else if d = '\'' then s.readFlowScalar? .singleQuoted (quoted? false)
    else if d = '"' then s.readFlowScalar? .doubleQuoted (quoted? true)
    else if beginsPlain s.inFlow d c then
      s.readFlowScalar? .plain (plain? s.inFlow (s.indent + 1))
    else none

/-- Whether a number of characters can be looked at without meeting what is no text. -/
def sees (s : Lexer) (count : Nat) : Bool :=
  !s.cut || count = 0 || (s.cursor.peek? (count - 1)).isSome

/-- Reads one token, and those that its indentation closes. -/
def readToken? (s : Lexer) : Option Lexer := do
  let s ← (s.toToken (s.cursor.size + 1)).dropStale?
  if !s.sees 4 then none
  let s ← (s.closeBlocks s.cursor.column).readTokenHere?
  if s.sees 1 then some s else none

/-- Whether the next token to hand out may still begin a key. -/
def waits (s : Lexer) : Bool :=
  s.keys.any fun key? => key?.any fun k => k.token = s.handedOut

/-- Hands out a token, or reads one if none is ready. -/
def step? (s : Lexer) : Option Lexer :=
  if s.handedOut < s.read.size then do
    let s ← s.dropStale?
    if s.waits then s.readToken? else some { s with handedOut := s.handedOut + 1 }
  else s.readToken?

/-- Steps until the end of the text has been handed out.  The tokens handed out before the
text stops being YAML are followed by a fault. -/
def run (s : Lexer) : (fuel : Nat) → List Token
  | 0 => (s.read.toList.take s.handedOut) ++ [.fault]
  | fuel + 1 =>
    if 0 < s.handedOut && s.read[s.handedOut - 1]? = some .streamEnd then s.read.toList
    else
      match s.step? with
      | some s => run s fuel
      | none => (s.read.toList.take s.handedOut) ++ [.fault]

end Lexer

/-- How many octets of a text are taken in at once. -/
def blockSize : Nat := 16384

/-- A text as the blocks in which it is taken in; `room` octets are left in the first. -/
def blocks : (room : Nat) → List Char → List (List Char)
  | _, [] => [[]]
  | room, c :: rest =>
    let further := blocks ((if c.utf8Size ≤ room then room else blockSize) - c.utf8Size) rest
    let begun := (c :: further.headD []) :: further.tail
    if c.utf8Size ≤ room then begun else [] :: begun

/-- The tokens of a text.  A character that must not stand in a text is met when its block is
taken in, so all tokens of the blocks before can still be read. -/
def tokens (text : String) : List Token :=
  let chars := text.toList
  let cut := !chars.all isAllowed
  let readable :=
    if cut then ((blocks blockSize chars).takeWhile (·.all isAllowed)).flatten else chars
  let s : Lexer := { cursor := .start readable, cut }
  s.run (8 * (readable.length + 4))

end PeerOverlay.Yaml
