/-
YAML tokens.

A text is read as a list of `Token`s.  Where the text stops being YAML the list ends with
`fault`, so that everything before that place can still be used.
-/
import PeerOverlay.Yaml.Tag

namespace PeerOverlay.Yaml

/-- How a scalar is written. -/
inductive Style
  | plain
  | singleQuoted
  | doubleQuoted
  | literal
  | folded
deriving DecidableEq, Repr

/-- A token of YAML text. -/
inductive Token
  | version (major minor : Nat)
  | tagHandle (handle : List Char) (stem : Tag)
  | documentStart
  | documentEnd
  | streamEnd
  | blockSequenceStart
  | blockMappingStart
  | blockEnd
  | flowSequenceStart
  | flowSequenceEnd
  | flowMappingStart
  | flowMappingEnd
  | blockEntry
  | flowEntry
  | key
  | value
  | alias (name : List Char)
  | anchor (name : List Char)
  | tag (handle : List Char) (suffix : Tag)
  | scalar (text : List Char) (style : Style)
  /-- The text is no YAML from here on. -/
  | fault
deriving DecidableEq, Repr

/-- The characters that may stand in YAML text. -/
def isAllowed (c : Char) : Bool :=
  let n := c.toNat
  n = 0x9 || n = 0xA || n = 0xD || (0x20 ≤ n && n ≤ 0x7E) || n = 0x85 ||
    (0xA0 ≤ n && n ≤ 0xD7FF) || (0xE000 ≤ n && n ≤ 0xFFFD) || 0x10000 ≤ n

/-- A character that ends a line. -/
def isBreak (c : Char) : Bool :=
  c = '\n' || c = '\r' || c = '\u0085' || c = '\u2028' || c = '\u2029'

/-- A blank inside a line. -/
def isSpace (c : Char) : Bool :=
  c = ' ' || c = '\t'

/-- A character of an anchor, an alias, a directive or a tag handle. -/
def isWordChar (c : Char) : Bool :=
  c.isAlphanum || c = '_' || c = '-'

/-- The mark that may stand in front of a line to tell the byte order of the text. -/
def byteOrderMark : Char := '\uFEFF'

end PeerOverlay.Yaml
