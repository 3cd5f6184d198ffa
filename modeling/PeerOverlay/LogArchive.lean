/-
Sorting logs by date.

A log file is called `prefix__DATEsuffix.log`; the suffix before the extension is a time
stamp of five bytes.  `logDate?` reads the date from a name, and `organizeLogs` moves each
dated log of a directory into a directory named after its date.
-/
import PeerOverlay.Calendar
import PeerOverlay.FileTree.Access
import PeerOverlay.Text.Affix

namespace PeerOverlay

open PeerOverlay.Text

/-- Splits a text at its first double underscore. -/
def splitAtMarker? : List Char → Option (List Char × List Char)
  | [] => none
  | '_' :: '_' :: rest => some ([], rest)
  | c :: rest => (splitAtMarker? rest).map fun s => (c :: s.1, s.2)

/-- The text between the first and the second double underscore, or after the only one. -/
def markedPiece? (cs : List Char) : Option (List Char) := do
  let (_, rest) ← splitAtMarker? cs
  return ((splitAtMarker? rest).map Prod.fst).getD rest

/-- Drops characters that fill exactly `count` bytes. -/
def dropBytes? : (count : Nat) → List Char → Option (List Char)
  | 0, cs => some cs
  | _ + 1, [] => none
  | count + 1, c :: cs =>
    if c.utf8Size ≤ count + 1 then dropBytes? (count + 1 - c.utf8Size) cs else none
termination_by _ cs => cs.length

/-- The bytes between the date and the end of a piece: the time stamp and `.log`. -/
def stampBytes : Nat := 9

/-- Whether a name ends like a log's. -/
def isLogName (name : String) : Bool :=
  (dropSuffix? ".log".toList name.toList).isSome

/-- The date that a log belongs to. -/
def logDate? (name : String) : Option Date := do
  if !isLogName name then none
  let piece ← markedPiece? name.toList
  let token ← (dropBytes? stampBytes piece.reverse).map List.reverse
  Date.parse? token

/-- The outcome of sorting a directory. -/
structure ArchiveReport where
  /-- Old and new path of each file that was moved. -/
  moved : List (Path × Path) := []
  /-- Logs whose names carry no date. -/
  skipped : List Path := []
deriving DecidableEq, Repr

/-- Why sorting stopped. -/
inductive ArchiveError
  | readDir (path : Path) (cause : IoError)
  | createBucket (path : Path) (cause : IoError)
  | move (source target : Path) (cause : IoError)
deriving DecidableEq, Repr

/-- The error and the cause behind it, outermost first. -/
def ArchiveError.chain : ArchiveError → List String
  | .readDir path cause =>
    ["Failed to read logs directory '" ++ path.shown ++ "'", cause.name]
  | .createBucket path cause =>
    ["Failed to create log bucket '" ++ path.shown ++ "'", cause.name]
  | .move source target cause =>
    ["Failed to move '" ++ source.shown ++ "' to '" ++ target.shown ++ "'", cause.name]

/-- Moves a log into the directory of its date, which is made if need be; the answer is the
new path. -/
def fileLog (dir : Path) (name : Name) (date : Date) (t : FileTree) :
    Except ArchiveError Path × FileTree :=
  let bucket := dir.join (.ofText date.text)
  match t.createDirAll bucket.route with
  | (.error e, t) => (.error (.createBucket bucket e), t)
  | (.ok (), t) =>
    let source := dir.join name
    let target := bucket.join name
    match t.moveFile source.route target.route with
    | .error e => (.error (.move source target e), t)
    | .ok t => (.ok target, t)

/-- Goes through the names listed in a directory and stops at the first failure. -/
def fileLogs (dir : Path) : List Name → FileTree → Except ArchiveError ArchiveReport × FileTree
  | [], t => (.ok {}, t)
  | name :: rest, t =>
    let source := dir.join name
    match (name.text?.filter fun text => t.isFile source.route && isLogName text) with
    | none => fileLogs dir rest t
    | some text =>
      match logDate? text with
      | none =>
        let (report, t) := fileLogs dir rest t
        (report.map fun r => { r with skipped := source :: r.skipped }, t)
      | some date =>
        match fileLog dir name date t with
        | (.error e, t) => (.error e, t)
        | (.ok target, t) =>
          let (report, t) := fileLogs dir rest t
          (report.map fun r => { r with moved := (source, target) :: r.moved }, t)

/-- Moves every dated log directly inside a directory into the directory of its date. -/
def organizeLogs (dir : Path) (t : FileTree) : Except ArchiveError ArchiveReport × FileTree :=
  match t.readDir dir.route with
  | .error e => (.error (.readDir dir e), t)
  | .ok names => fileLogs dir names t

end PeerOverlay
