/-
Cleaning a node directory.

`cleanNodeState` removes the databases, snapshots and the database log that a node leaves
in its directory.  Each target is removed on its own, and a missing one is no error.
-/
import PeerOverlay.FileTree.Access

namespace PeerOverlay

/-- Databases, and the log of the main one. -/
def databaseTargets : List String :=
  ["db", "hxi", "spent-addresses-log", "spent-addresses-db", "mainnet.log", "mainnetdb"]

/-- Snapshot files and their copies. -/
def snapshotTargets : List String :=
  ["mainnet.snapshot.meta", "mainnet.snapshot.state", "mainnet.snapshot.meta.bkp",
   "mainnet.snapshot.state.bkp"]

/-- Everything that cleaning removes, in order. -/
def cleanupTargets : List String :=
  databaseTargets ++ snapshotTargets

/-- The outcome of cleaning. -/
structure CleanupReport where
  removed : List Path := []
  missing : List Path := []
  failed : List (Path × IoError) := []
deriving DecidableEq, Repr

/-- Whether no target is left. -/
def CleanupReport.isClean (r : CleanupReport) : Bool :=
  r.failed.isEmpty

/-- Removes targets below a directory, in order. -/
def removeTargets (dir : Path) : List String → FileTree → CleanupReport × FileTree
  | [], t => ({}, t)
  | target :: rest, t =>
    let path := dir.join (.ofText target)
    let (outcome, t) := t.removeTree path.route
    let (report, t) := removeTargets dir rest t
    match outcome with
    | .ok true => ({ report with removed := path :: report.removed }, t)
    | .ok false => ({ report with missing := path :: report.missing }, t)
    | .error e => ({ report with failed := (path, e) :: report.failed }, t)

/-- Removes the node state below a directory. -/
def cleanNodeState (dir : Path) (t : FileTree) : CleanupReport × FileTree :=
  removeTargets dir cleanupTargets t

end PeerOverlay
