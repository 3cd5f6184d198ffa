/-
The sink that keeps artifacts in memory, by node.
-/
import PeerOverlay.Artifact.Render
import PeerOverlay.Sink.Basic

namespace PeerOverlay

/-- Rendered artifacts by node. -/
structure MemorySink where
  format : ArtifactFormat
  settings : NodeSettings
  artifacts : AscendingMap NodeId String

namespace MemorySink

/-- A sink without artifacts. -/
def new (format : ArtifactFormat) (settings : NodeSettings) : MemorySink :=
  ⟨format, settings, .empty⟩

/-- Stores the artifact of a record, in place of an earlier one of its node. -/
def insert (s : MemorySink) (r : NodeRecord) : MemorySink :=
  { s with artifacts := s.artifacts.insert r.node (s.format.render r s.settings) }

/-- Storing in memory never fails. -/
def store : Store MemorySink := fun r s =>
  (.ok (), s.insert r)

/-- The artifact of a node. -/
def get? (s : MemorySink) (node : NodeId) : Option String :=
  s.artifacts.get? node

/-- How many nodes have an artifact. -/
def size (s : MemorySink) : Nat :=
  s.artifacts.size

end MemorySink

end PeerOverlay
