/-
Tags of nodes.

A `Tag` is a run of octets, which need not be UTF-8.  Tags that begin with an exclamation
mark belong to the document that uses them; `localName?` is what such a tag names.
-/
import PeerOverlay.Text.Utf8

namespace PeerOverlay.Yaml

open PeerOverlay.Text

/-- A tag, by its octets. -/
structure Tag where
  octets : List UInt8
deriving DecidableEq, Repr

namespace Tag

/-- The exclamation mark, with which the tags of a document begin. -/
def exclamation : UInt8 := 0x21

/-- The tag with a given text. -/
def ofText (s : String) : Tag :=
  ⟨Utf8.encode s⟩

/-- The tag that a run of octets spells: a zero octet ends it. -/
def ofOctets (octets : List UInt8) : Tag :=
  ⟨octets.takeWhile (· ≠ 0)⟩

/-- A tag with a suffix after it. -/
def append (stem suffix : Tag) : Tag :=
  ⟨stem.octets ++ suffix.octets⟩

/-- The tag that is a lone exclamation mark. -/
def lone : Tag := ⟨[exclamation]⟩

/-- Whether a tag belongs to its document. -/
def isLocal (t : Tag) : Bool :=
  t.octets.head? = some exclamation

/-- What a tag of a document names, provided that it is text.  A lone mark names itself. -/
def localName? (t : Tag) : Option String :=
  match t.octets with
  | mark :: name =>
    if mark ≠ exclamation then none
    else if name = [] then some "!"
    else Utf8.decode? name
  | [] => none

/-- What the tags with a meaning in every document begin with. -/
def commonStem : Tag := ofText "tag:yaml.org,2002:"

/-- The tag of truth values. -/
def bool : Tag := commonStem.append (ofText "bool")

/-- The tag of whole numbers. -/
def int : Tag := commonStem.append (ofText "int")

/-- The tag of floating-point numbers. -/
def float : Tag := commonStem.append (ofText "float")

/-- The tag of nothing. -/
def null : Tag := commonStem.append (ofText "null")

end Tag

end PeerOverlay.Yaml
