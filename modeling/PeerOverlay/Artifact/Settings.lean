/-
Static node settings.

Every node artifact carries the same static settings.  `NodeSettings` holds the values
that replace built-in ones or add new keys; `value?`, `reserved`, `extra` and
`resolved` are the views of it.
-/
import PeerOverlay.Artifact.Layout
import PeerOverlay.Order.AscendingMap

namespace PeerOverlay

open PeerOverlay.Text

/-- The value of a setting. -/
inductive SettingValue
  | bool (value : Bool)
  | integer (value : Int)
  | number (value : Binary64)
  | text (value : String)
deriving DecidableEq, Repr

/-- The text of a value in an artifact. -/
def SettingValue.shown : SettingValue → String
  | .bool true => "true"
  | .bool false => "false"
  | .integer i => String.ofList (signedNumeral i)
  | .number x => String.ofList x.text
  | .text s => s

/-- Settings given beside the built-in ones, by key. -/
structure NodeSettings where
  given : AscendingMap String SettingValue

namespace NodeSettings

/-- No settings beside the built-in ones. -/
def empty : NodeSettings :=
  ⟨.empty⟩

/-- Replaces or adds a setting. -/
def set (s : NodeSettings) (key : String) (value : SettingValue) : NodeSettings :=
  ⟨s.given.insert key value⟩

/-- The settings set in order; a later value of a key replaces an earlier one. -/
def ofList (l : List (String × SettingValue)) : NodeSettings :=
  l.foldl (fun s e => s.set e.1 e.2) empty

/-- The given keys that belong to per-node values, in ascending order. -/
def reserved (s : NodeSettings) : List String :=
  s.given.keys.filter reservedKeys.contains

/-- The text of a setting: the given value, or else the built-in one. -/
def value? (s : NodeSettings) (key : String) : Option String :=
  match s.given.get? key with
  | some value => some value.shown
  | none => (staticSettings.find? (·.1 = key)).map Prod.snd

/-- The given settings that the layout has no place for, in ascending key order. -/
def extra (s : NodeSettings) : List (String × SettingValue) :=
  s.given.entries.filter fun e => !staticKeys.contains e.1 && !reservedKeys.contains e.1

/-- The text of a static setting of the layout. -/
def valueOr (s : NodeSettings) (key builtIn : String) : String :=
  (s.value? key).getD builtIn

/-- All static settings: those of the layout in its order, then the extra ones. -/
def resolved (s : NodeSettings) : List (String × String) :=
  (staticSettings.map fun e => (e.1, s.valueOr e.1 e.2)) ++
    s.extra.map fun e => (e.1, e.2.shown)

end NodeSettings

end PeerOverlay
