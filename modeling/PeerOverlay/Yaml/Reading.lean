/-
Reading typed values from nodes.

Each reader takes a node and answers a value or a `ReadError`.  `readRecord` reads a
mapping with known fields, each at most once and in any order; what is not mentioned
keeps its value.  `readWhole` visits all that is below a node and finds what no reader
could take.

Design notes: readers meet problems in the order of the text, so a problem in front of
the place where the text stops being YAML is the one that is reported.
-/
import PeerOverlay.Yaml.Document
import PeerOverlay.Yaml.Problem

namespace PeerOverlay.Yaml

/-- What aliases stand for. -/
structure Anchors where
  nodes : List (Nat × Node)
  /-- How many aliases may be followed while the document is read. -/
  limit : Nat

/-- A step of reading.  Its state says how many aliases may still be followed. -/
abbrev Reading (α : Type) := StateT Nat (Except ReadError) α

namespace Anchors

/-- The anchors of a document. -/
def ofRoot (root : Node) : Anchors :=
  ⟨root.anchored.reverse, 100 * root.places⟩

/-- The node that an alias stands for. -/
def target (a : Anchors) (anchor : Nat) : Node :=
  ((a.nodes.find? (·.1 = anchor)).map Prod.snd).getD .fault

/-- A node, or what it stands for if it is an alias. -/
def follow (a : Anchors) : Node → Reading Node
  | .alias anchor => do
    match ← get with
    | 0 => throw .notYaml
    | left + 1 =>
      set left
      return a.target anchor
  | node => return node

end Anchors

/-- Sets the place of the error of a step, if it has none. -/
def Reading.locate {α : Type} (place : Place) (r : Reading α) : Reading α := fun left =>
  (r left).mapError (ReadError.locate place)

/-- What a scalar says, its tag considered. -/
def sayScalar (tag : Option Tag) (style : Style) (text : String) : Except Problem Scalar :=
  let orElse (value : Option Scalar) (expected : String) : Except Problem Scalar :=
    match value with
    | some v => .ok v
    | none => .error (.invalidValue (.scalar (.text text)) expected)
  if tag = some .bool then orElse ((boolWord? text).map .bool) "a boolean"
  else if tag = some .int then orElse (wholeNumber? text.toList) "an integer"
  else if tag = some .float then orElse ((float? text.toList).map .float) "a float"
  else if tag = some .null then orElse (if isNullWord text then some .nothing else none) "null"
  else if style = .plain && tag.all Tag.isLocal then .ok (.ofText text)
  else .ok (.text text)

/-- The error for a node that is not what was expected. -/
def mismatch (node : Node) (expected : String) : ReadError :=
  match node with
  | .scalar _ tag style text =>
    match sayScalar tag style text with
    | .ok value => .problem (.invalidType (.scalar value) expected) none
    | .error p => .problem p none
  | .sequence _ _ _ => .problem (.invalidType .sequence expected) none
  | .mapping _ _ _ => .problem (.invalidType .mapping expected) none
  | .alias _ | .fault => .notYaml

/-- Reads a value of some type at a place. -/
abbrev ReadAs (α : Type) := Anchors → Place → Node → Reading α

/-- Reads the text of a scalar, whatever it says. -/
def readText (expected : String) : ReadAs String := fun a place node => do
  match ← a.follow node with
  | .scalar _ _ _ text => return text
  | node => throw ((mismatch node expected).locate place)

/-- Whether a scalar may say something else than text: it is plain, or a literal block with
the tag of what is read. -/
def maySay (wanted : Tag) (tag : Option Tag) (style : Style) : Bool :=
  style = .plain || (style = .literal && tag = some wanted)

/-- What a scalar says by a given rule. -/
def said? {α : Type} (wanted : Tag) (rule : String → Option α) : Node → Option α
  | .scalar _ tag style text => if maySay wanted tag style then rule text else none
  | _ => none

/-- Reads what a scalar says by a given rule. -/
def readSaid {α : Type} (wanted : Tag) (expected : String) (rule : String → Option α) :
    ReadAs α := fun a place node => do
  let node ← a.follow node
  match said? wanted rule node with
  | some value => return value
  | none => throw ((mismatch node expected).locate place)

/-- Reads a truth value. -/
def readBool : ReadAs Bool :=
  readSaid .bool "a boolean" boolWord?

/-- Reads a floating-point number. -/
def readFloat : ReadAs Binary64 :=
  readSaid .float "f64" fun text => float? text.toList

/-- Reads a number from zero up to `limit`. -/
def readNumber (limit : Nat) (expected : String) : ReadAs Nat := fun a place node => do
  let rule (text : String) : Option Nat := unsigned? (UInt64.size - 1) text.toList
  let n ← readSaid .int expected rule a place node
  if n ≤ limit then return n
  else throw (.problem (.invalidValue (.scalar (.unsigned n)) expected) (some place))

/-- Reads a value that may be left empty. -/
def readOptional {α : Type} (read : ReadAs α) : ReadAs (Option α) := fun a place node => do
  let node ← a.follow node
  match node with
  | .scalar _ tag .plain text =>
    if tag = some .null then
      if isNullWord text then return none
      else throw (.problem (.invalidValue (.scalar (.text text)) "null") none)
    else if tag.isNone && (text = "" || isNullWord text) then return none
    else some <$> read a place node
  | _ => some <$> read a place node

/-- The choice of a given name. -/
def choose {α : Type} (choices : List (String × α)) (name : String) : Except ReadError α :=
  match choices.find? (·.1 = name) with
  | some choice => .ok choice.2
  | none => .error (.problem (.unknownVariant name (choices.map Prod.fst)) none)

/-- The choice that a node names: as a scalar, or as the tag of an empty scalar.  A name in a
tag has no place. -/
def chosen {α : Type} (choices : List (String × α)) (place : Place) (node : Node) :
    Except ReadError α :=
  match node with
  | .scalar _ tag style text =>
    match tag.bind Tag.localName? with
    | some name => do
      let choice ← choose choices name
      if style = .plain && (text = "" || isNullWord text) then return choice
      else throw (.problem (.invalidValue (.scalar (.text text)) "null") (some place))
    | none => (choose choices text).mapError (ReadError.locate place)
  | .sequence _ tag _ => collection tag .sequence
  | .mapping _ tag _ => collection tag .mapping
  | .alias _ | .fault => .error .notYaml
where
  /-- A collection is no choice, even if its tag names one. -/
  collection (tag : Option Tag) (found : Found) : Except ReadError α :=
    match tag.bind Tag.localName? with
    | some name => do
      let _ ← choose choices name
      throw (.problem (.invalidType found "unit") (some place))
    | none =>
      throw (.problem (.invalidType found "a YAML tag starting with '!'") (some place))

/-- Reads one of several names.  Where an alias leads to it, every problem is at the place of
the alias. -/
def readChoice {α : Type} (choices : List (String × α)) : ReadAs α := fun a place node => do
  let shown ← a.follow node
  match node with
  | .alias _ => Reading.locate place (chosen choices place shown)
  | _ => chosen choices place shown

/-- A field of a record: its name, and how it is read into the record. -/
structure RecordField (ρ : Type) where
  name : String
  read : Anchors → Place → Node → ρ → Reading ρ

/-- A field that is set to a value of some type. -/
def RecordField.of {ρ α : Type} (name : String) (read : ReadAs α) (set : ρ → α → ρ) :
    RecordField ρ :=
  ⟨name, fun a place node r => set r <$> read a place node⟩

/-- Reads the entries of a record in order.  A name is checked before its value is read. -/
def readEntries {ρ : Type} (fields : List (RecordField ρ)) (a : Anchors) (place : Place) :
    List (Node × Node) → (seen : List String) → ρ → Reading ρ
  | [], _, r => return r
  | (key, value) :: rest, seen, r => do
    let name ← readText "field identifier" a place key
    match fields.find? (·.name = name) with
    | none => throw (.problem (.unknownField name (fields.map RecordField.name)) none)
    | some field =>
      if seen.contains name then throw (.problem (.duplicateField name) none)
      let r ← field.read a (place.value key) value r
      readEntries fields a place rest (name :: seen) r

/-- The entries of a mapping; an empty scalar has none. -/
def entriesOf (expected : String) (a : Anchors) (node : Node) : Reading (List (Node × Node)) := do
  match ← a.follow node with
  | .mapping _ _ entries => return entries
  | .scalar _ tag .plain text =>
    if text = "" then return [] else throw (mismatch (.scalar none tag .plain text) expected)
  | node => throw (mismatch node expected)

/-- Reads a record; fields that are not mentioned keep their values. -/
def readRecord {ρ : Type} (expected : String) (fields : List (RecordField ρ)) (a : Anchors)
    (place : Place) (node : Node) (r : ρ) : Reading ρ :=
  Reading.locate place do readEntries fields a place (← entriesOf expected a node) [] r

/-- How deep collections may stand inside each other. -/
def depthLimit : Nat := 128

/-- A node that is still to be visited. -/
structure Visit where
  place : Place
  /-- How many collections may still be entered. -/
  depth : Nat
  node : Node

/-- The items of a sequence as visits. -/
def visitItems (place : Place) (depth : Nat) : (number : Nat) → List Node → List Visit
  | _, [] => []
  | number, item :: rest =>
    ⟨place.item number, depth, item⟩ :: visitItems place depth (number + 1) rest

/-- The keys and values of a mapping as visits. -/
def visitEntries (place : Place) (depth : Nat) : List (Node × Node) → List Visit
  | [] => []
  | (key, value) :: rest =>
    ⟨place, depth, key⟩ :: ⟨place.value key, depth, value⟩ :: visitEntries place depth rest

/-- What a scalar without a tag of its document says, provided that it fits 64 bits. -/
def readScalar (place : Place) (tag : Option Tag) (style : Style) (text : String) :
    Except ReadError Scalar :=
  if (tag.bind Tag.localName?).isSome then .error .notYaml
  else
    match sayScalar tag style text with
    | .error p => .error (.problem p (some place))
    | .ok (.wide i) =>
      .error (.problem (.invalidType (.scalar (.wide i)) "any value") (some place))
    | .ok value => .ok value

/-- Visits nodes and all that is below them, in order.  Collections too deep inside each
other and collections with a tag of their document are errors. -/
def readWhole (a : Anchors) : (fuel : Nat) → List Visit → Reading Unit
  | _, [] => return ()
  | 0, _ => throw .notYaml
  | fuel + 1, v :: rest => do
    match v.node with
    | .alias _ =>
      let target ← a.follow v.node
      readWhole a fuel (⟨v.place, v.depth, target⟩ :: rest)
    | .scalar _ tag style text =>
      let _ ← readScalar v.place tag style text
      readWhole a fuel rest
    | .sequence _ tag items =>
      if (tag.bind Tag.localName?).isSome || v.depth = 0 then throw .notYaml
      else readWhole a fuel (visitItems v.place (v.depth - 1) 0 items ++ rest)
    | .mapping _ tag entries =>
      if (tag.bind Tag.localName?).isSome || v.depth = 0 then throw .notYaml
      else readWhole a fuel (visitEntries v.place (v.depth - 1) entries ++ rest)
    | .fault => throw .notYaml

/-- Visits all of a node that may enter `depth` collections.  Between two aliases no more
nodes are visited than the document has places, which are fewer than the aliases allowed. -/
def readNodeWhole (a : Anchors) (place : Place) (depth : Nat) (node : Node) : Reading Unit :=
  readWhole a ((a.limit + 2) * (a.limit + 2)) [⟨place, depth, node⟩]

end PeerOverlay.Yaml
