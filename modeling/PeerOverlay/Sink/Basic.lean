/-
Sinks for finished node records.

A sink stores one artifact a node; storing a node again replaces its artifact.  A `Store`
is what a run needs of a sink: one operation that stores a record.
-/
import PeerOverlay.FileTree.Access
import PeerOverlay.Record

namespace PeerOverlay

open PeerOverlay.Text

/-- Why a sink failed. -/
inductive SinkError
  | createDir (path : Path) (cause : IoError)
  | readDir (path : Path) (cause : IoError)
  | existingArtifacts (path : Path) (existing : List Path)
  | removeStale (path : Path) (cause : IoError)
  | write (node : NodeId) (path : Path) (cause : IoError)
deriving DecidableEq, Repr

namespace SinkError

/-- The sentence that reports the error. -/
def message : SinkError → String
  | createDir path _ => "failed to create output directory '" ++ path.shown ++ "'"
  | readDir path _ => "failed to list output directory '" ++ path.shown ++ "'"
  | existingArtifacts path existing =>
    "output directory '" ++ path.shown ++ s!"' already holds {existing.length} artifact(s) " ++
      "from an earlier run; pass --overwrite to replace them"
  | removeStale path _ => "failed to remove stale artifact '" ++ path.shown ++ "'"
  | write node path _ =>
    s!"failed to write artifact for node {node} to '" ++ path.shown ++ "'"

/-- The error of the file system behind the failure, if there is one. -/
def cause? : SinkError → Option IoError
  | createDir _ cause | readDir _ cause | removeStale _ cause | write _ _ cause => some cause
  | existingArtifacts _ _ => none

/-- The error and the cause behind it, outermost first. -/
def chain (e : SinkError) : List String :=
  e.message :: (e.cause?.map IoError.name).toList

end SinkError

/-- How a sink with states `σ` stores a record. -/
abbrev Store (σ : Type) := NodeRecord → σ → Except SinkError Unit × σ

end PeerOverlay
