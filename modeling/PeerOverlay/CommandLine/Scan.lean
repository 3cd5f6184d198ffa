/-
Reading options.

`scan` reads options and their values up to the first word that is neither.  Values stay
texts, but each has been accepted by its option.

Design notes: a value that stands in an argument of its own is looked at only when the
next option or the end comes.  An argument that is unknown therefore counts before it.
-/
import PeerOverlay.CommandLine.OptionName

namespace PeerOverlay.CommandLine

/-- Why a command line starts no command. -/
inductive Stop
  /-- Help was asked for. -/
  | help
  /-- The version was asked for. -/
  | version
  | nothingGiven
  | commandMissing
  | commandUnknown (word : String)
  | argumentUnknown (argument : String)
  | valueMissing (option : OptionName)
  /-- The value is not one of those to choose from. -/
  | valueNotOffered (option : OptionName) (value : String)
  | valueMalformed (option : OptionName) (value : String)
  /-- A value was given to an option that takes none. -/
  | valueNeedless (option : OptionName)
  | optionRepeated (option : OptionName)
deriving DecidableEq, Repr

/-- Options with the texts of their values; an option without value has the empty text. -/
abbrev Givens := List (OptionName × String)

/-- What has been read of a command's options. -/
structure Level where
  given : Givens := []
  /-- The latest option and its value, if that may stand in an argument of its own. -/
  pending : Option (OptionName × Option String) := none

/-- Checks the text of a value. -/
def checkValue (o : OptionName) (kind : ValueKind) (text : String) : Except Stop Unit :=
  if kind.accepts text then .ok ()
  else
    match kind with
    | .text | .path => .error (.valueMissing o)
    | .transport | .format => .error (.valueNotOffered o text)
    | .size | .seed | .port | .index | .decimal => .error (.valueMalformed o text)

namespace Level

/-- Notes an option with the text of its value. -/
def record (l : Level) (o : OptionName) (text : String) : Except Stop Level := do
  if (l.given.lookup o).isSome then throw (.optionRepeated o)
  if let some kind := o.kind? then checkValue o kind text
  return { l with given := l.given ++ [(o, text)] }

/-- Notes the latest option. -/
def settle (l : Level) : Except Stop Level :=
  match l.pending with
  | none => .ok l
  | some (o, none) => .error (.valueMissing o)
  | some (o, some text) => { l with pending := none }.record o text

/-- Reads an option that takes no value. -/
def readFlag (l : Level) (o : OptionName) : Except Stop Level := do
  let l ← l.settle
  match o with
  | .help => throw .help
  | .version => throw .version
  | _ => l.record o ""

/-- Reads an option that takes a value, which may be attached to it. -/
def readOption (l : Level) (o : OptionName) (attached : Option String) : Except Stop Level := do
  let l ← l.settle
  match attached with
  | some text => l.record o text
  | none => return { l with pending := some (o, none) }

/-- Whether the latest option still waits for its value. -/
def waits (l : Level) : Bool :=
  match l.pending with
  | some (_, none) => true
  | _ => false

/-- Takes an argument as the value of the latest option. -/
def supply (l : Level) (text : String) : Level :=
  { l with pending := l.pending.map fun o => (o.1, some text) }

/-- Reads an option by its long spelling. -/
def readLong (l : Level) (known : List OptionName) (name : String) (attached : Option String) :
    Except Stop Level :=
  match known.find? (·.long = name) with
  | none => .error (.argumentUnknown ("--" ++ name))
  | some o =>
    match o.kind?, attached with
    | some _, _ => l.readOption o attached
    | none, none => l.readFlag o
    | none, some _ => .error (.valueNeedless o)

/-- Reads options by their letters.  What follows the letter of an option with a value is the
value; an equals sign may stand in between. -/
def readLetters (l : Level) (known : List OptionName) : List Char → Except Stop Level
  | [] => .ok l
  | c :: rest =>
    match known.find? (·.letter? = some c) with
    | none => .error (.argumentUnknown (String.ofList ['-', c]))
    | some o =>
      match o.kind? with
      | none => do readLetters (← l.readFlag o) known rest
      | some _ =>
        match rest with
        | [] => l.readOption o none
        | '=' :: text => l.readOption o (some (String.ofList text))
        | text => l.readOption o (some (String.ofList text))

end Level

/-- What an argument looks like. -/
inductive Shape
  /-- Two hyphens: only words follow. -/
  | wordsOnly
  | long (name : String) (attached : Option String)
  | letters (letters : List Char)
  | word
deriving DecidableEq, Repr

/-- The value behind an equals sign. -/
def attachedValue : List Char → Option String
  | '=' :: text => some (String.ofList text)
  | _ => none

/-- What an argument looks like; a single hyphen is a word. -/
def Shape.of (argument : String) : Shape :=
  match argument.toList with
  | '-' :: '-' :: [] => .wordsOnly
  | '-' :: '-' :: body =>
    .long (String.ofList (body.takeWhile (· ≠ '='))) (attachedValue (body.dropWhile (· ≠ '=')))
  | '-' :: c :: rest => .letters (c :: rest)
  | _ => .word

/-- A word that is neither an option nor a value. -/
structure Word where
  text : String
  /-- Whether two hyphens stand in front of it. -/
  afterHyphens : Bool
  /-- The arguments after it. -/
  rest : List String

/-- Reads options up to the first word that is neither an option nor a value. -/
def scan (known : List OptionName) : List String → Level → Except Stop (Level × Option Word)
  | [], l => .ok (l, none)
  | argument :: rest, l =>
    match Shape.of argument with
    | .wordsOnly => .ok (l, rest.head?.map fun text => ⟨text, true, rest.tail⟩)
    | .long name attached => do scan known rest (← l.readLong known name attached)
    | .letters letters => do scan known rest (← l.readLetters known letters)
    | .word =>
      if l.waits then scan known rest (l.supply argument)
      else .ok (l, some ⟨argument, false, rest⟩)

end PeerOverlay.CommandLine
