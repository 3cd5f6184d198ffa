/-
Whole runs of the program.

`runArguments` reads arguments and carries out the command in a file tree.  The `Verdict`
says how the run ended and determines the exit code.
-/
import PeerOverlay.Cleanup
import PeerOverlay.CommandLine.Invocation
import PeerOverlay.Config.Loading
import PeerOverlay.Generation
import PeerOverlay.LogArchive

namespace PeerOverlay.CommandLine

/-- How a run ended. -/
inductive Verdict
  | done
  /-- The command failed; the causes stand outermost first. -/
  | failed (chain : List String)
  /-- No command was started. -/
  | stopped (reason : Stop)
deriving DecidableEq, Repr

/-- Zero if help or the version was asked for, and two otherwise. -/
def Stop.exitCode : Stop → Nat
  | .help | .version => 0
  | _ => 2

/-- Zero after success and one after a failure. -/
def Verdict.exitCode : Verdict → Nat
  | .done => 0
  | .failed _ => 1
  | .stopped reason => reason.exitCode

/-- The verdict on a result whose value does not matter. -/
def Verdict.of {ε α : Type} (chain : ε → List String) : Except ε α → Verdict
  | .ok _ => .done
  | .error e => .failed (chain e)

/-- The verdict on a cleaning. -/
def Verdict.ofCleanup (r : CleanupReport) : Verdict :=
  if r.isClean then .done
  else .failed [s!"{r.failed.length} cleanup target(s) could not be removed"]

/-- Carries out a command.  The fresh random source serves a network without seed. -/
def Command.run (fresh : DrawSource) (patience : Nat) (t : FileTree) :
    Command → Verdict × FileTree
  | generate config overrides =>
    match resolveConfig t config overrides with
    | .error e => (.failed e.chain, t)
    | .ok c =>
      let (result, t) := generateInDirectory c fresh patience t
      (.of RunError.chain result, t)
  | clean dir =>
    let (report, t) := cleanNodeState dir t
    (.ofCleanup report, t)
  | organizeLogs dir =>
    let (result, t) := PeerOverlay.organizeLogs dir t
    (.of ArchiveError.chain result, t)

/-- Reads the arguments of the program and carries out the command. -/
def runArguments (fresh : DrawSource) (patience : Nat) (arguments : List String)
    (t : FileTree) : Verdict × FileTree :=
  match Invocation.parse arguments with
  | .error reason => (.stopped reason, t)
  | .ok i => i.command.run fresh patience t

end PeerOverlay.CommandLine
