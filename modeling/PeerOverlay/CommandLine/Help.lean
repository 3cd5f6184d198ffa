/-
What the program says about itself and about its arguments.

A `HelpPage` explains the program or one of its commands, as a summary or in full.  It lists
commands and options, each with what it is for; `HelpPage.asked` finds the page that arguments
ask for.

Design notes: a text stands beside what it explains, or below it where the page is too narrow.
Only a command with choices that need a word each has a page in full.
-/
import PeerOverlay.CommandLine.Invocation

namespace PeerOverlay.CommandLine

/-- The name of the program. -/
def programName : String :=
  "overlaysim"

/-- The name and the version of the program. -/
def versionText : String :=
  programName ++ " 0.1.0"

/-! ### What things are for -/

/-- What a command is for. -/
def CommandName.about : CommandName → String
  | generate => "Draw a small-world overlay and write one configuration per node"
  | clean => "Remove databases, snapshots and database logs from a node directory"
  | organizeLogs => "Move dated log files into per-date subdirectories"

/-- What the word that asks for help is for. -/
def helpWordAbout : String :=
  "Print this message or the help of the given subcommand(s)"

/-- What a format is for. -/
def formatAbout : ArtifactFormat → String
  | .ini => "`KEY = value` lines read by the node binary"
  | .json => "Structured JSON for tooling"

/-- What a page of help explains. -/
inductive HelpTopic
  | program
  | command (name : CommandName)
  /-- The word that asks for help. -/
  | helpWord
deriving DecidableEq, Repr

/-- A page of help. -/
structure HelpPage where
  topic : HelpTopic := .program
  /-- Whether everything is told, where there is more to tell. -/
  full : Bool := false
deriving DecidableEq, Repr

namespace HelpPage

/-- Whether the topic has a page in full beside its summary. -/
def hasMore (page : HelpPage) : Bool :=
  page.topic = .command .generate

/-- Whether the page is one in full. -/
def tellsAll (page : HelpPage) : Bool :=
  page.hasMore && page.full

/-- What an option is for. -/
def about (page : HelpPage) : OptionName → String
  | .help =>
    if !page.hasMore then "Print help"
    else if page.full then "Print help (see a summary with '-h')"
    else "Print help (see more with '--help')"
  | .version => "Print version"
  | .logLevel => "Default log filter when RUST_LOG is unset"
  | .config => "Path to an optional generator configuration YAML file"
  | .numNodes => "Number of nodes"
  | .k => "Ring-lattice neighbors per node before rewiring (even)"
  | .p => "Probability of rewiring each lattice edge"
  | .seed => "Seed for a reproducible overlay"
  | .apiPortStart => "API port to start iterating at"
  | .udpReceiverPortStart => "UDP receiver port to start iterating at"
  | .tcpReceiverPortStart => "TCP receiver port to start iterating at"
  | .zmqIpcStart => "ZMQ ipc index to start iterating at"
  | .zmqPortStart => "ZMQ port to start iterating at"
  | .host => "Host the nodes listen on"
  | .transport => "Transport used in neighbor endpoints"
  | .output => "Output directory for node configurations"
  | .format => "Artifact format"
  | .overwrite => "Replace artifacts left in the output directory by an earlier run"
  | .dir => if page.topic = .command .clean then "Node working directory" else "Logs directory"

/-- Which values are offered, or which one stands unless another is given. -/
def remark? (page : HelpPage) : OptionName → Option String
  | .transport => some (choice (Transport.all.map Transport.name))
  | .format =>
    if page.tellsAll then none else some (choice (ArtifactFormat.all.map ArtifactFormat.extension))
  | .dir =>
    let dir := if page.topic = .command .clean then defaultNodeDir else defaultLogsDir
    some ("[default: " ++ dir ++ "]")
  | _ => none
where
  choice (values : List String) : String :=
    "[possible values: " ++ ", ".intercalate values ++ "]"

/-- The options of a page.  The log level stands behind the first option of a command, since
it counts as one of the program. -/
def options (page : HelpPage) : List OptionName :=
  match page.topic with
  | .program => leadingOptions
  | .command c =>
    let own := c.options.filter (· ≠ .logLevel)
    own.take 1 ++ .logLevel :: own.drop 1
  | .helpWord => []

end HelpPage

/-- The name of an option's value. -/
def OptionName.valueName (o : OptionName) : String :=
  o.long.map fun c => if c = '-' then '_' else c.toUpper

/-- The spellings of an option, with the place of its value. -/
def OptionName.label (o : OptionName) : String :=
  let letter :=
    match o.letter? with
    | some c => String.ofList ['-', c] ++ ", "
    | none => "    "
  letter ++ "--" ++ o.long ++ (if o.kind?.isSome then " <" ++ o.valueName ++ ">" else "")

/-! ### Layout -/

/-- How many characters fit in a line. -/
def pageWidth : Nat := 100

/-- The least width that holds all labels. -/
def labelWidth (labels : List String) : Nat :=
  labels.foldl (fun width label => max width label.length) 2

/-- A text with blanks behind it, up to a width. -/
def filled (width : Nat) (text : String) : String :=
  text.pushn ' ' (width - text.length)

/-- A line with a label and the text beside it. -/
def lineBeside (width : Nat) (label text : String) : String :=
  "  " ++ filled width label ++ "  " ++ text

/-- What stands in front of a text below its label. -/
def margin : String :=
  "          "

namespace HelpPage

/-- Whether an option's text would not fit beside labels that take more than two fifths of
the line. -/
def isCramped (page : HelpPage) (width : Nat) (o : OptionName) : Bool :=
  let taken := width + 8
  taken ≤ pageWidth && 2 * pageWidth < 5 * taken &&
    pageWidth - taken < (page.about o).length + ((page.remark? o).getD "").length

/-- The formats to choose from, each with what it is for. -/
def formatLines : List String :=
  let width := labelWidth (ArtifactFormat.all.map ArtifactFormat.extension) + 1
  ArtifactFormat.all.map fun f => "- " ++ filled width (f.extension ++ ":") ++ " " ++ formatAbout f

/-- The text of an option. -/
def optionText (page : HelpPage) (o : OptionName) : String :=
  let remark :=
    match page.remark? o with
    | some remark =>
      if page.tellsAll then "\n" ++ margin ++ "\n" ++ margin ++ remark else " " ++ remark
    | none => ""
  let choices :=
    if o = .format ∧ page.tellsAll then
      "\n\n" ++ ("\n".intercalate (("Possible values:" :: formatLines).map (margin ++ ·)))
    else ""
  page.about o ++ remark ++ choices

/-- The part of a page that lists its options. -/
def optionsPart (page : HelpPage) : String :=
  let width := labelWidth (page.options.map OptionName.label)
  let below := page.tellsAll || page.options.any (page.isCramped width)
  let entries := page.options.map fun o =>
    if below then "  " ++ o.label ++ "\n" ++ margin ++ page.optionText o
    else lineBeside width o.label (page.optionText o)
  "Options:\n" ++ (if page.tellsAll then "\n\n" else "\n").intercalate entries

/-- The part of a page that lists the commands. -/
def commandsPart : String :=
  let entries := CommandName.all.map (fun c => (c.word, c.about)) ++ [(helpWord, helpWordAbout)]
  let width := labelWidth (entries.map Prod.fst)
  "Commands:\n" ++ "\n".intercalate (entries.map fun e => lineBeside width e.1 e.2)

/-- The parts of a page; an empty line stands between two of them. -/
def parts (page : HelpPage) : List String :=
  match page.topic with
  | .program =>
    ["Configuration generator for simulated peer-to-peer overlay networks",
     "Usage: " ++ programName ++ " [OPTIONS] <COMMAND>", commandsPart, page.optionsPart]
  | .command c =>
    [c.about, "Usage: " ++ programName ++ " " ++ c.word ++ " [OPTIONS]", page.optionsPart]
  | .helpWord =>
    [helpWordAbout, "Usage: " ++ programName ++ " " ++ helpWord ++ " [COMMAND]...",
     "Arguments:\n" ++ lineBeside 0 "[COMMAND]..." "Print help for the subcommand(s)"]

/-- The text of a page. -/
def text (page : HelpPage) : String :=
  "\n\n".intercalate page.parts

/-! ### The page that is asked for -/

/-- The argument at which the reading of options stops without success. -/
def refused? (known : List OptionName) (arguments : List String) : Option String :=
  let ends (n : Nat) : Bool := !(scan known (arguments.take (n + 1)) {}).isOk
  ((List.range arguments.length).find? ends).bind fun n => arguments[n]?

/-- Whether the option that stops the reading is written by its long spelling. -/
def asksInFull (known : List OptionName) (arguments : List String) : Bool :=
  match (refused? known arguments).map Shape.of with
  | some (.long _ _) => true
  | _ => false

/-- The page that the words after the one that asks for help name. -/
def named : List String → HelpPage
  | [] => {}
  | word :: _ =>
    match CommandName.ofWord? word with
    | some c => ⟨.command c, true⟩
    | none => ⟨.helpWord, true⟩

/-- The page that the arguments of the program ask for, provided that they ask for one. -/
def asked (arguments : List String) : HelpPage :=
  match scan leadingOptions arguments {} with
  | .ok (_, some w) =>
    match CommandName.ofWord? w.text with
    | some c => ⟨.command c, asksInFull c.options w.rest⟩
    | none => named w.rest
  | _ => {}

end HelpPage

/-- The sentence that reports why no command was started, or the text that was asked for. -/
def Stop.message (arguments : List String) : Stop → String
  | .help | .nothingGiven => (HelpPage.asked arguments).text
  | .version => versionText
  | .commandMissing => "a command is required"
  | .commandUnknown word => "unknown command '" ++ word ++ "'"
  | .argumentUnknown argument => "unexpected argument '" ++ argument ++ "'"
  | .valueMissing o => "a value is required for '--" ++ o.long ++ "'"
  | .valueNotOffered o value => "'" ++ value ++ "' is no choice for '--" ++ o.long ++ "'"
  | .valueMalformed o value => "invalid value '" ++ value ++ "' for '--" ++ o.long ++ "'"
  | .valueNeedless o => "'--" ++ o.long ++ "' takes no value"
  | .optionRepeated o => "'--" ++ o.long ++ "' was given twice"

end PeerOverlay.CommandLine
