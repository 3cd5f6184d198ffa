/-
The sink that writes artifacts into a directory.

Opening the sink refuses a directory that holds artifacts of an earlier run, unless
overwriting is allowed.  After a run, `removeStale` removes those earlier artifacts that
the run did not write, so a directory never mixes two overlays.
-/
import PeerOverlay.Artifact.Render
import PeerOverlay.Sink.Basic

namespace PeerOverlay

/-- A sink for artifact files in one directory. -/
structure DirectorySink where
  dir : Path
  format : ArtifactFormat
  settings : NodeSettings
  /-- Artifacts found when the sink was opened and not yet dealt with. -/
  existing : List Path
  /-- Artifacts written so far, in order. -/
  written : List Path

/-- Whether a name is the text of an artifact file name in any format. -/
def Name.isArtifact (n : Name) : Bool :=
  match n.text? with
  | some text => ArtifactFormat.isArtifactName text
  | none => false

/-- The artifact files directly inside a directory, in ascending order. -/
def existingArtifacts (t : FileTree) (dir : Path) : Except SinkError (List Path) :=
  match t.readDir dir.route with
  | .error e => .error (.readDir dir e)
  | .ok names =>
    .ok <| (names.filter fun n => t.isFile (dir.join n).route && n.isArtifact).map dir.join

namespace DirectorySink

/-- Opens a sink and makes its directory if need be. -/
def openAt (t : FileTree) (dir : Path) (format : ArtifactFormat) (settings : NodeSettings)
    (overwrite : Bool) : Except SinkError DirectorySink × FileTree :=
  let found :=
    if t.isDirectory dir.route then existingArtifacts t dir else .ok []
  match found with
  | .error e => (.error e, t)
  | .ok existing =>
    if existing ≠ [] ∧ overwrite = false then (.error (.existingArtifacts dir existing), t)
    else
      match t.createDirAll dir.route with
      | (.error e, t) => (.error (.createDir dir e), t)
      | (.ok (), t) => (.ok ⟨dir, format, settings, existing, []⟩, t)

/-- The path that a node's artifact is written to. -/
def pathFor (s : DirectorySink) (node : NodeId) : Path :=
  s.dir.join (.ofText (s.format.fileName node))

/-- Writes the artifact of a record. -/
def store : Store (DirectorySink × FileTree) := fun r (s, t) =>
  let path := s.pathFor r.node
  match t.writeFile path.route (s.format.render r s.settings) with
  | .error e => (.error (.write r.node path e), s, t)
  | .ok t => (.ok (), { s with written := s.written ++ [path] }, t)

/-- Removes files in order and stops at the first failure. -/
def removeAll (t : FileTree) : List Path → Except SinkError Unit × FileTree
  | [] => (.ok (), t)
  | path :: rest =>
    match t.removeFile path.route with
    | .error e => (.error (.removeStale path e), t)
    | .ok t => removeAll t rest

/-- The artifacts found at the opening that have not been written since. -/
def stale (s : DirectorySink) : List Path :=
  s.existing.filter fun path => !s.written.contains path

/-- Removes the stale artifacts and answers their paths.  Whatever comes of it, the sink
forgets the artifacts found at its opening. -/
def removeStale (s : DirectorySink) (t : FileTree) :
    Except SinkError (List Path) × DirectorySink × FileTree :=
  let (removed, t) := removeAll t s.stale
  (removed.map fun _ => s.stale, { s with existing := [] }, t)

end DirectorySink

end PeerOverlay
