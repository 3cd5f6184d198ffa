/-
Command lines.

`Invocation.parse` reads the arguments of the program as one of its commands.  The log
level may be given in front of the command and behind it; the latter counts.
-/
import PeerOverlay.CommandLine.Scan
import PeerOverlay.Config.Overrides
import PeerOverlay.FileTree.Path

namespace PeerOverlay.CommandLine

/-- The name of a command. -/
inductive CommandName
  | generate
  | clean
  | organizeLogs
deriving DecidableEq, Repr

namespace CommandName

/-- All commands. -/
def all : List CommandName :=
  [generate, clean, organizeLogs]

/-- The word that names a command. -/
def word : CommandName → String
  | generate => "generate"
  | clean => "clean"
  | organizeLogs => "organize-logs"

/-- The command that a word names. -/
def ofWord? (word : String) : Option CommandName :=
  all.find? fun c => c.word = word

/-- The options of a command. -/
def options : CommandName → List OptionName
  | generate =>
    [.config, .numNodes, .k, .p, .seed, .apiPortStart, .udpReceiverPortStart,
     .tcpReceiverPortStart, .zmqIpcStart, .zmqPortStart, .host, .transport, .output, .format,
     .overwrite, .logLevel, .help]
  | clean | organizeLogs => [.dir, .logLevel, .help]

end CommandName

/-- The options in front of a command. -/
def leadingOptions : List OptionName :=
  [.logLevel, .help, .version]

/-- The word that asks for help in place of a command. -/
def helpWord : String :=
  "help"

/-- The directory whose logs are sorted unless another is given. -/
def defaultLogsDir : String :=
  "logs"

/-- The directory that is cleaned unless another is given. -/
def defaultNodeDir : String :=
  "."

/-- What is to be done. -/
inductive Command
  /-- Generate a network from a configuration file, if there is one, and overrides. -/
  | generate (config : Option Path) (overrides : Overrides)
  /-- Clean a node directory. -/
  | clean (dir : Path)
  /-- Sort the logs of a directory by date. -/
  | organizeLogs (dir : Path)
deriving DecidableEq, Repr

/-- A command and what holds for all commands. -/
structure Invocation where
  logLevel : Option String
  command : Command
deriving DecidableEq, Repr

/-- The overrides that options ask for. -/
def Givens.overrides (g : Givens) (logLevel : Option String) : Overrides where
  numNodes := (g.lookup .numNodes).bind size?
  k := (g.lookup .k).bind size?
  p := (g.lookup .p).bind decimal?
  seed := (g.lookup .seed).bind seed?
  api := (g.lookup .apiPortStart).bind port?
  udp := (g.lookup .udpReceiverPortStart).bind port?
  tcp := (g.lookup .tcpReceiverPortStart).bind port?
  ipc := (g.lookup .zmqIpcStart).bind index?
  zmq := (g.lookup .zmqPortStart).bind port?
  host := g.lookup .host
  transport := (g.lookup .transport).bind Transport.ofName?
  outputDir := g.lookup .output
  format := (g.lookup .format).bind ArtifactFormat.ofName?
  overwrite := (g.lookup .overwrite).map fun _ => true
  logLevel := logLevel

/-- The command of a given name with options. -/
def CommandName.command (c : CommandName) (g : Givens) (logLevel : Option String) : Command :=
  match c with
  | generate => .generate ((g.lookup .config).map .ofText) (g.overrides logLevel)
  | clean => .clean (.ofText ((g.lookup .dir).getD defaultNodeDir))
  | organizeLogs => .organizeLogs (.ofText ((g.lookup .dir).getD defaultLogsDir))

/-- Reads what follows the word that asks for help: at most the name of a command. -/
def readHelp : List String → Stop
  | [] => .help
  | word :: rest =>
    if CommandName.ofWord? word = none ∧ word ≠ helpWord then .commandUnknown word
    else
      match rest with
      | [] => .help
      | further :: _ => .commandUnknown further

/-- Reads the options of a command.  Those in front of it are settled after its own. -/
def CommandName.read (c : CommandName) (leading : Level) (arguments : List String) :
    Except Stop Invocation := do
  let (own, further) ← scan c.options arguments {}
  if let some w := further then throw (.argumentUnknown w.text)
  let own ← own.settle
  let leading ← leading.settle
  let logLevel := (own.given.lookup .logLevel).or (leading.given.lookup .logLevel)
  return ⟨logLevel, c.command own.given logLevel⟩

/-- Reads the arguments of the program. -/
def Invocation.parse (arguments : List String) : Except Stop Invocation := do
  let (leading, word) ← scan leadingOptions arguments {}
  match word with
  | none =>
    let leading ← leading.settle
    throw (if leading.given = [] then .nothingGiven else .commandMissing)
  | some w =>
    match CommandName.ofWord? w.text with
    | some c =>
      if w.afterHyphens then throw (.argumentUnknown w.text) else c.read leading w.rest
    | none =>
      if w.text ≠ helpWord then throw (.commandUnknown w.text)
      else throw (if w.afterHyphens then .argumentUnknown w.text else readHelp w.rest)

end PeerOverlay.CommandLine
