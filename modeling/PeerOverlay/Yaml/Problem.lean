/-
What may be wrong with a well-formed document.

A `Problem` says what was found and what was expected; a `ReadError` adds the place of
the problem, once that is known.  The text that is no YAML at all has no further cause.
-/
import PeerOverlay.Text.Quoted
import PeerOverlay.Yaml.Node
import PeerOverlay.Yaml.Scalar

namespace PeerOverlay.Yaml

open PeerOverlay.Text

/-- What was found in place of something else. -/
inductive Found
  | scalar (value : Scalar)
  | sequence
  | mapping
deriving DecidableEq, Repr

/-- The words for what was found. -/
def Found.shown : Found → String
  | .scalar .nothing => "unit value"
  | .scalar (.bool b) => "boolean `" ++ (if b then "true" else "false") ++ "`"
  | .scalar (.unsigned n) => "integer `" ++ String.ofList (numeral n) ++ "`"
  | .scalar (.negative i) => "integer `" ++ String.ofList (signedNumeral i) ++ "`"
  | .scalar (.wide i) =>
    "integer `" ++ String.ofList (signedNumeral i) ++ "` as " ++
      (if i < 0 then "i128" else "u128")
  | .scalar (.float x) => "floating point `" ++ String.ofList x.textWithPoint ++ "`"
  | .scalar (.text s) => "string " ++ quoted s
  | .sequence => "sequence"
  | .mapping => "map"

/-- What is wrong with a node. -/
inductive Problem
  | unknownField (name : String) (known : List String)
  | duplicateField (name : String)
  | unknownVariant (name : String) (known : List String)
  | invalidType (found : Found) (expected : String)
  | invalidValue (found : Found) (expected : String)
  /-- The value of a setting has none of the forms that settings take. -/
  | noSettingValue
deriving DecidableEq, Repr

/-- A list of names for a message. -/
def nameList : List String → String
  | [] => "there are no fields"
  | [a] => "`" ++ a ++ "`"
  | [a, b] => "`" ++ a ++ "` or `" ++ b ++ "`"
  | names => "one of " ++ ", ".intercalate (names.map fun n => "`" ++ n ++ "`")

/-- The sentence that reports a problem. -/
def Problem.message : Problem → String
  | .unknownField name known =>
    "unknown field `" ++ name ++ "`, expected " ++ nameList known
  | .duplicateField name => "duplicate field `" ++ name ++ "`"
  | .unknownVariant name known =>
    "unknown variant `" ++ name ++ "`, expected " ++ nameList known
  | .invalidType found expected =>
    "invalid type: " ++ found.shown ++ ", expected " ++ expected
  | .invalidValue found expected =>
    "invalid value: " ++ found.shown ++ ", expected " ++ expected
  | .noSettingValue => "data did not match any variant of untagged enum SettingValue"

/-- A place in a document: the keys and item numbers that lead to it.  The root has no
text. -/
structure Place where
  text? : Option String
deriving DecidableEq, Repr

namespace Place

/-- The root of a document. -/
def root : Place :=
  ⟨none⟩

/-- What stands in front of a key. -/
def lead (p : Place) : String :=
  match p.text? with
  | some text => text ++ "."
  | none => ""

/-- The value of a key. -/
def field (p : Place) (key : String) : Place :=
  ⟨some (p.lead ++ key)⟩

/-- The value of a key that is no scalar. -/
def unnamed (p : Place) : Place :=
  ⟨some (p.lead ++ "?")⟩

/-- An item of a sequence. -/
def item (p : Place) (number : Nat) : Place :=
  ⟨some (p.text?.getD "." ++ "[" ++ String.ofList (numeral number) ++ "]")⟩

/-- The value of a given key of a mapping. -/
def value (p : Place) : (key : Node) → Place
  | .scalar _ _ _ text => p.field text
  | _ => p.unnamed

end Place

/-- Why a document could not be read. -/
inductive ReadError
  /-- The text is no YAML, or uses what no reader takes. -/
  | notYaml
  | problem (cause : Problem) (place : Option Place)
deriving DecidableEq, Repr

namespace ReadError

/-- Sets the place of an error that has none yet. -/
def locate (place : Place) : ReadError → ReadError
  | problem cause none => problem cause (some place)
  | e => e

/-- The sentence that reports the error. -/
def message : ReadError → String
  | notYaml => "yaml error"
  | problem cause place =>
    match place.bind Place.text? with
    | some text => text ++ ": " ++ cause.message
    | none => cause.message

end ReadError

end PeerOverlay.Yaml
