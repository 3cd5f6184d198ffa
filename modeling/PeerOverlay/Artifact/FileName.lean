/-
Artifact formats and file names.

The artifact of node `n` is called `config`, the number `n`, a point and the extension
of the format.  `nodeOfFileName?` reads the node back; it also accepts leading zeros.
-/
import PeerOverlay.Text.Affix
import PeerOverlay.Text.Numeral
import PeerOverlay.Topology.Basic

namespace PeerOverlay

open PeerOverlay.Text

/-- The format of an artifact. -/
inductive ArtifactFormat
  /-- Lines of keys and values, for the node program. -/
  | ini
  /-- A JSON object, for tooling. -/
  | json
deriving DecidableEq, Repr

namespace ArtifactFormat

/-- All formats. -/
def all : List ArtifactFormat :=
  [ini, json]

/-- The extension of a format's file names, which is also the format's own name. -/
def extension : ArtifactFormat → String
  | ini => "ini"
  | json => "json"

/-- The format of a given name. -/
def ofName? (name : String) : Option ArtifactFormat :=
  all.find? fun f => f.extension = name

/-- What all artifact names begin with. -/
def stem : String :=
  "config"

/-- The file name of a node's artifact. -/
def fileName (f : ArtifactFormat) (node : NodeId) : String :=
  stem ++ String.ofList (numeral node) ++ "." ++ f.extension

/-- The node whose artifact a file name is; its number must fit 64 bits. -/
def nodeOfFileName? (f : ArtifactFormat) (name : String) : Option NodeId := do
  let rest ← dropPrefix? stem.toList name.toList
  let digits ← dropSuffix? ('.' :: f.extension.toList) rest
  (number? digits).filter (· < UInt64.size)

/-- Whether a file name is that of an artifact in any format. -/
def isArtifactName (name : String) : Bool :=
  all.any fun f => (f.nodeOfFileName? name).isSome

end ArtifactFormat

end PeerOverlay
