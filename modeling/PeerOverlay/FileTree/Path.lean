/-
Names and paths.

A `Name` is the name of a directory entry and a `Path` the text that leads to one; both
are bytes, which need not be UTF-8.  `Path.route` reads a path as its steps, and
`Path.join` appends a name to the path of a directory as that is spelled.
-/
import PeerOverlay.Text.Utf8

namespace PeerOverlay

open PeerOverlay.Text

/-- The name of a directory entry. -/
structure Name where
  bytes : List UInt8
deriving DecidableEq, Repr

namespace Name

/-- The name with a given text. -/
def ofText (s : String) : Name :=
  ⟨Utf8.encode s⟩

/-- The text of a name that is valid UTF-8. -/
def text? (n : Name) : Option String :=
  Utf8.decode? n.bytes

/-- Names stand in the order of their bytes. -/
def le (a b : Name) : Bool :=
  a.bytes ≤ b.bytes

end Name

/-- The slash, which separates the names on a path. -/
def slash : UInt8 := 0x2F

/-- One step of a path: stay, go to the parent, or go to an entry. -/
inductive Step
  | here
  | up
  | down (name : Name)
deriving DecidableEq, Repr

namespace Step

/-- The step that a piece between two slashes stands for. -/
def ofPiece (piece : List UInt8) : Step :=
  if piece = [0x2E] then here
  else if piece = [0x2E, 0x2E] then up
  else down ⟨piece⟩

end Step

/-- A path as it is walked. -/
structure Route where
  /-- Whether the walk starts at the root. -/
  absolute : Bool
  steps : List Step
  /-- Whether the path ends in a slash, so that only a directory may stand there. -/
  trailing : Bool
  /-- How many bytes the path has, as it is spelled. -/
  length : Nat
deriving DecidableEq, Repr

/-- The text of a path. -/
structure Path where
  bytes : List UInt8
deriving DecidableEq, Repr

namespace Path

/-- The path with a given text. -/
def ofText (s : String) : Path :=
  ⟨Utf8.encode s⟩

/-- The text shown for a path. -/
def shown (p : Path) : String :=
  Utf8.shown p.bytes

/-- The steps of a path; pieces without a byte are no steps. -/
def route (p : Path) : Route where
  absolute := p.bytes.head? = some slash
  steps := ((p.bytes.splitOn slash).filter (· ≠ [])).map Step.ofPiece
  trailing := p.bytes.getLast? = some slash
  length := p.bytes.length

/-- The path of an entry below a directory path. -/
def join (dir : Path) (name : Name) : Path :=
  if dir.bytes = [] then ⟨name.bytes⟩
  else if dir.bytes.getLast? = some slash then ⟨dir.bytes ++ name.bytes⟩
  else ⟨dir.bytes ++ slash :: name.bytes⟩

end Path

namespace Route

/-- The steps that tell a route apart from another spelling: those that stay count only at
the start of a relative route. -/
def components (r : Route) : List Step :=
  match r.absolute, r.steps with
  | false, .here :: rest => .here :: rest.filter (· ≠ .here)
  | _, steps => steps.filter (· ≠ .here)

/-- The text of a step. -/
def stepText : Step → List UInt8
  | .here => [0x2E]
  | .up => [0x2E, 0x2E]
  | .down name => name.bytes

/-- The route with given components, spelled with one slash between two of them. -/
def ofComponents (absolute : Bool) (components : List Step) : Route where
  absolute := absolute
  steps := components
  trailing := false
  length :=
    (if absolute then 1 else 0) + (components.flatMap stepText).length + (components.length - 1)

/-- The route to the directory that the last step of a route is taken from. -/
def beforeLast (r : Route) : Route :=
  { r with steps := r.steps.dropLast, trailing := false }

end Route

end PeerOverlay
