/-
The program.

`main` surveys the files that a command may touch, carries the command out in the tree of
that survey, and makes the changes of the tree on disk.

Design notes: files other than the configuration are not read.  Each is represented by a
mark that names its place, so that a file that was moved is told from a new one.
-/
import PeerOverlay.CommandLine.Help
import PeerOverlay.CommandLine.Run

namespace PeerOverlay.CommandLine

/-- The content that stands for a file that is not read. -/
def mark (path : String) : String :=
  String.ofList ('\x00' :: path.toList)

/-- The place that a mark names. -/
def markedPlace? (content : String) : Option String :=
  match content.toList with
  | '\x00' :: path => some (String.ofList path)
  | _ => none

/-- The paths of the directories on the way to a place, outermost first, and of the place. -/
def wayTo (path : String) : List String :=
  let pieces := path.splitOn "/"
  let ways := (List.range pieces.length).map fun n => "/".intercalate (pieces.take (n + 1))
  ways.filter (· ≠ "")

/-- Adds what stands on disk at a path.  A link counts as what it leads to, if that exists. -/
def surveyPlace (t : FileTree) (path : String) : IO FileTree := do
  let place := (← IO.currentDir).join path
  let route := (Path.ofText path).route
  if ← place.isDir then return (t.createDirAll route).2
  if ← place.pathExists then return (t.writeFile route (mark path)).toOption.getD t
  match ← place.symlinkMetadata.toBaseIO with
  | .ok _ => return (t.createLink route (.ofText (mark path))).toOption.getD t
  | .error _ => return t

/-- Adds what stands on disk below a directory, down to some depth. -/
def surveyBelow (dir : String) : (depth : Nat) → FileTree → IO FileTree
  | 0, t => return t
  | depth + 1, t => do
    let place := (← IO.currentDir).join dir
    if !(← place.isDir) then return t
    (← place.readDir).foldlM (fun t entry => do
      let path := ((Path.ofText dir).join (.ofText entry.fileName)).shown
      surveyBelow path depth (← surveyPlace t path)) t

/-- Adds what stands on disk on the way to a path. -/
def surveyWay (path : String) (t : FileTree) : IO FileTree :=
  (wayTo path).foldlM surveyPlace t

/-- Adds the content of a file, provided that it is text. -/
def surveyContent (path : String) (t : FileTree) : IO FileTree := do
  match ← (IO.FS.readFile path).toBaseIO with
  | .ok content => return (t.writeFile (Path.ofText path).route content).toOption.getD t
  | .error _ => return t

/-- A tree that holds the working directory only. -/
def surveyStart : IO FileTree := do
  let route := (Path.ofText (← IO.currentDir).toString).route
  let workdir : Location := route.steps.filterMap fun
    | .down name => some name
    | _ => none
  return { (FileTree.empty.createDirAll route).2 with workdir }

/-- The directory that a command works in, as far as that is known. -/
def Command.directory? (t : FileTree) : Command → Option String
  | generate config overrides =>
    (resolveConfig t config overrides).toOption.map fun c => c.general.outputDir
  | clean dir | organizeLogs dir => some dir.shown

/-- The configuration file of a command. -/
def Command.configFile? : Command → Option String
  | generate config _ => config.map Path.shown
  | clean _ | organizeLogs _ => none

/-- How far below its directory a command looks: at the entries, and at those of the
directories among them. -/
def surveyDepth : Nat := 2

/-- The files that a command may touch. -/
def survey (c : Command) : IO FileTree := do
  let start ← surveyStart
  let withConfig (t : FileTree) : IO FileTree :=
    match c.configFile? with
    | some path => do surveyContent path (← surveyWay path t)
    | none => pure t
  let t ← withConfig start
  match c.directory? t with
  | some dir => withConfig (← surveyBelow dir surveyDepth (← surveyWay dir t))
  | none => return t

/-- The text of a location on disk. -/
def diskPath (loc : Location) : String :=
  "/" ++ "/".intercalate (loc.map fun n => n.text?.getD "")

/-- Removes what stands at a path, if anything does.  Links are not followed. -/
partial def removeAll (path : String) : IO Unit := do
  let place := (← IO.currentDir).join path
  match ← place.symlinkMetadata.toBaseIO with
  | .error _ => return
  | .ok found =>
    match found.type with
    | .dir =>
      for entry in ← place.readDir do
        removeAll entry.path.toString
      IO.FS.removeDir path
    | _ => IO.FS.removeFile path

/-- Makes on disk what is new in the second of two trees. -/
def makeNew (old new : FileTree) : IO Unit := do
  let changed := new.entries.filter fun e => old.get? e.1 ≠ some e.2
  for e in changed.mergeSort fun a b => a.1.length ≤ b.1.length do
    match e.2 with
    | .directory => IO.FS.createDir (diskPath e.1)
    | .file content =>
      match markedPlace? content with
      | some place => IO.FS.rename place (diskPath e.1)
      | none => IO.FS.writeFile (diskPath e.1) content
    | .link _ => pure ()

/-- Removes from disk what is gone from the second of two trees. -/
def removeGone (old new : FileTree) : IO Unit := do
  for e in old.entries do
    if (new.get? e.1).isNone && (new.get? e.1.dropLast).isSome then
      removeAll (diskPath e.1)

/-- A random source that differs from run to run. -/
def freshDraws : IO DrawSource := do
  let bytes ← IO.getRandomBytes 8
  return keyStream (bytes.toList.foldl (fun n b => 256 * n + b.toUInt64) 0)

/-- Says on the terminal how a run on some arguments ended. -/
def Verdict.report (arguments : List String) : Verdict → IO Unit
  | .done => pure ()
  | .failed chain => IO.eprintln ("Error: " ++ ": ".intercalate chain)
  | .stopped reason =>
    let message := reason.message arguments
    if reason.exitCode = 0 then IO.println message else IO.eprintln message

/-- Runs the program on disk and answers its exit code. -/
def runOnDisk (arguments : List String) : IO UInt32 := do
  let old ←
    match Invocation.parse arguments with
    | .ok i => survey i.command
    | .error _ => pure .empty
  let (verdict, new) := runArguments (← freshDraws) ampleDraws arguments old
  makeNew old new
  removeGone old new
  verdict.report arguments
  return verdict.exitCode.toUInt32

end PeerOverlay.CommandLine

/-- Runs the program. -/
def main (arguments : List String) : IO UInt32 :=
  PeerOverlay.CommandLine.runOnDisk arguments
