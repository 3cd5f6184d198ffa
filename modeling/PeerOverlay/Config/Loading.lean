/-
Configurations from files and overrides.

`loadConfig` reads and validates a file; `resolveConfig` starts from a file or from the
built-in values, applies overrides and validates the outcome.
-/
import PeerOverlay.Config.Overrides
import PeerOverlay.Config.Reading
import PeerOverlay.FileTree.Access

namespace PeerOverlay

/-- Why no configuration could be had. -/
inductive LoadError
  | open (path : Path) (cause : IoError)
  | parse (path : Path) (cause : Yaml.ReadError)
  | invalid (cause : ValidationError)
deriving DecidableEq, Repr

/-- The error and the causes behind it, outermost first. -/
def LoadError.chain : LoadError → List String
  | .open path cause => ["Failed to open config file '" ++ path.shown ++ "'", cause.name]
  | .parse path cause => ["Failed to parse config file '" ++ path.shown ++ "'", cause.message]
  | .invalid cause => cause.chain

/-- Reads a configuration from a file.  A directory can be opened, but holds no YAML. -/
def readConfig (t : FileTree) (path : Path) : Except LoadError Config :=
  match t.readFile path.route with
  | .ok text => (Config.ofYaml text).mapError (.parse path)
  | .error .isADirectory => .error (.parse path .notYaml)
  | .error e => .error (.open path e)

/-- Reads and validates a configuration. -/
def loadConfig (t : FileTree) (path : Path) : Except LoadError Config := do
  let config ← readConfig t path
  config.validate.mapError .invalid
  return config

/-- The configuration of a file, or the built-in one, with overrides. -/
def resolveConfig (t : FileTree) (path? : Option Path) (o : Overrides) :
    Except LoadError Config := do
  let config ←
    match path? with
    | some path => readConfig t path
    | none => pure {}
  let (valid, changed) := config.applyOverrides o
  valid.mapError .invalid
  return changed

end PeerOverlay
