/-
Layers of a configuration: the built-in values, a file, overrides.

A configuration consists of the fields that can be overridden and of its node settings,
`Config.eq_iff_get`.  An override that sets a field hides what lies below in this field and
nothing else, so layers can be put together before they are applied:

* `Config.get_override` — where the value of a field comes from;
* `Config.override_override` — two layers are one;
* `readConfig_eq_ok_iff`, `resolveConfig_eq_ok_iff` — when a file gives a configuration;
* `resolveConfig_layers` — all of it for the calls, those that reject their outcome included.
-/
import Mathlib.Tactic.Common
import PeerOverlay.Config.Loading
import PeerOverlay.Proofs.Outcome

namespace PeerOverlay

/-- The fields of a configuration that can be overridden. -/
inductive ConfigField
  | numNodes
  | host
  | transport
  | k
  | p
  | seed
  | api
  | udp
  | tcp
  | ipc
  | zmq
  | outputDir
  | format
  | overwrite
  | logLevel
deriving DecidableEq

/-- What a field holds. -/
def ConfigField.Value : ConfigField → Type
  | numNodes | k => Nat
  | host | outputDir => String
  | transport => Transport
  | p => Binary64
  | seed => Option UInt64
  | api | udp | tcp | zmq => UInt16
  | ipc => UInt32
  | format => ArtifactFormat
  | overwrite => Bool
  | logLevel => Option String

/-- The value of a field. -/
def Config.get (c : Config) : (f : ConfigField) → f.Value
  | .numNodes => c.network.numNodes
  | .host => c.network.host
  | .transport => c.network.transport
  | .k => c.topology.k
  | .p => c.topology.p
  | .seed => c.topology.seed
  | .api => c.ports.api
  | .udp => c.ports.udp
  | .tcp => c.ports.tcp
  | .ipc => c.ports.ipc
  | .zmq => c.ports.zmq
  | .outputDir => c.general.outputDir
  | .format => c.general.format
  | .overwrite => c.general.overwrite
  | .logLevel => c.general.logLevel

/-- The configuration with given values and node settings. -/
def Config.ofFields (value : (f : ConfigField) → f.Value) (node : NodeSettings) : Config where
  general := ⟨value .outputDir, value .format, value .overwrite, value .logLevel⟩
  network := ⟨value .numNodes, value .host, value .transport⟩
  topology := ⟨value .k, value .p, value .seed⟩
  ports := ⟨value .api, value .udp, value .tcp, value .ipc, value .zmq⟩
  node := node

namespace Overrides

/-- The value that replaces that of a field, if the field is set. -/
def get? (o : Overrides) : (f : ConfigField) → Option f.Value
  | .numNodes => o.numNodes
  | .host => o.host
  | .transport => o.transport
  | .k => o.k
  | .p => o.p
  | .seed => o.seed.map some
  | .api => o.api
  | .udp => o.udp
  | .tcp => o.tcp
  | .ipc => o.ipc
  | .zmq => o.zmq
  | .outputDir => o.outputDir
  | .format => o.format
  | .overwrite => o.overwrite
  | .logLevel => o.logLevel.map some

/-- Two layers of overrides as one: the first hides the second where it is set. -/
def or (o o' : Overrides) : Overrides where
  numNodes := o.numNodes.or o'.numNodes
  k := o.k.or o'.k
  p := o.p.or o'.p
  seed := o.seed.or o'.seed
  api := o.api.or o'.api
  udp := o.udp.or o'.udp
  tcp := o.tcp.or o'.tcp
  ipc := o.ipc.or o'.ipc
  zmq := o.zmq.or o'.zmq
  host := o.host.or o'.host
  transport := o.transport.or o'.transport
  outputDir := o.outputDir.or o'.outputDir
  format := o.format.or o'.format
  overwrite := o.overwrite.or o'.overwrite
  logLevel := o.logLevel.or o'.logLevel

theorem get?_or (o o' : Overrides) (f : ConfigField) :
    (o.or o').get? f = (o.get? f).or (o'.get? f) := by
  cases f with
  | seed => exact Option.map_or
  | logLevel => exact Option.map_or
  | _ => rfl

end Overrides

variable {c c' : Config} {o : Overrides} {t : FileTree} {path : Path}

namespace Config

/-! ### Fields -/

theorem ofFields_get (c : Config) : ofFields c.get c.node = c :=
  rfl

/-- **A configuration consists of the fields that can be overridden and of its node settings.** -/
theorem eq_iff_get : c = c' ↔ (∀ f, c.get f = c'.get f) ∧ c.node = c'.node := by
  constructor
  · rintro rfl
    exact ⟨fun _ => rfl, rfl⟩
  · rintro ⟨hget, hnode⟩
    rw [← c.ofFields_get, ← c'.ofFields_get, funext hget, hnode]

theorem or_eq_getD_map {α : Type} (a b : Option α) : a.or b = (a.map some).getD b := by
  cases a <;> rfl

/-- The value of a field is that of the overrides if they set it, and stays otherwise. -/
theorem get_override (c : Config) (o : Overrides) (f : ConfigField) :
    (c.override o).get f = (o.get? f).getD (c.get f) := by
  cases f with
  | seed => exact or_eq_getD_map o.seed c.topology.seed
  | logLevel => exact or_eq_getD_map o.logLevel c.general.logLevel
  | _ => rfl

theorem eq_override_iff :
    c' = c.override o ↔ (∀ f, c'.get f = (o.get? f).getD (c.get f)) ∧ c'.node = c.node := by
  rw [eq_iff_get]
  simp only [get_override]
  rfl

/-- **Two layers of overrides are one.** -/
theorem override_override (c : Config) (o o' : Overrides) :
    (c.override o).override o' = c.override (o'.or o) := by
  refine eq_override_iff.mpr ⟨fun f => ?_, rfl⟩
  rw [get_override, get_override, Overrides.get?_or, Option.getD_or]

/-- A layer that is applied again changes nothing. -/
theorem override_self (c : Config) (o : Overrides) : (c.override o).override o = c.override o := by
  refine eq_override_iff.mpr ⟨fun f => ?_, rfl⟩
  rw [get_override, get_override]
  cases o.get? f <;> rfl

theorem override_empty (c : Config) : c.override {} = c :=
  rfl

theorem applyOverrides_eq_ok_iff :
    c.applyOverrides o = (.ok (), c') ↔ c' = c.override o ∧ c'.validate = .ok () := by
  rw [applyOverrides, Prod.mk.injEq]
  constructor
  · rintro ⟨hvalid, rfl⟩
    exact ⟨rfl, hvalid⟩
  · rintro ⟨rfl, hvalid⟩
    exact ⟨hvalid, rfl⟩

end Config

/-! ### Files -/

theorem readConfig_eq_ok_iff :
    readConfig t path = .ok c ↔
      ∃ text, t.readFile path.route = .ok text ∧ Config.ofYaml text = .ok c := by
  rw [readConfig]
  split
  next text hread =>
    simp [hread, mapError_eq_ok_iff]
  next hread => simp [hread]
  next e _ hread => simp [hread]

theorem resolveConfig_eq_ok_iff :
    resolveConfig t (some path) o = .ok c' ↔
      ∃ text c, t.readFile path.route = .ok text ∧ Config.ofYaml text = .ok c ∧
        c.applyOverrides o = (.ok (), c') := by
  have happly : ∀ c : Config, (((c.applyOverrides o).1.mapError LoadError.invalid) >>=
      fun _ => pure (c.applyOverrides o).2) = .ok c' ↔ c.applyOverrides o = (.ok (), c') := by
    intro c
    rw [bind_eq_ok_iff, Config.applyOverrides_eq_ok_iff]
    constructor
    · rintro ⟨⟨⟩, hvalid, hchanged⟩
      obtain rfl := Except.ok.inj hchanged
      exact ⟨rfl, mapError_eq_ok_iff.mp hvalid⟩
    · rintro ⟨rfl, hvalid⟩
      exact ⟨(), mapError_eq_ok_iff.mpr hvalid, rfl⟩
  rw [resolveConfig, bind_eq_ok_iff]
  constructor
  · rintro ⟨c, hc, hchanged⟩
    obtain ⟨text, hread, hparse⟩ := readConfig_eq_ok_iff.mp hc
    exact ⟨text, c, hread, hparse, (happly c).mp hchanged⟩
  · rintro ⟨text, c, hread, hparse, hchanged⟩
    exact ⟨c, readConfig_eq_ok_iff.mpr ⟨text, hread, hparse⟩, (happly c).mpr hchanged⟩

/-- Loading a file is resolving it with no overrides, since these leave it as it is. -/
theorem loadConfig_eq_resolveConfig (t : FileTree) (path : Path) :
    loadConfig t path = resolveConfig t (some path) {} := by
  rw [loadConfig, resolveConfig]
  simp only [Config.applyOverrides, Config.override_empty]

/-- **Overrides are layers over a configuration.**  One after another they are as one layer, also
where an outcome on the way is rejected; each replaces the fields that it sets and is accepted
exactly if its outcome is valid.  A file is asked for nothing but to be read: what is valid or not
is its configuration with the overrides. -/
theorem resolveConfig_layers :
    (∀ (c : Config) (o o' : Overrides),
      ((c.applyOverrides o).2.applyOverrides o').2 = (c.applyOverrides (o'.or o)).2 ∧
        ((c.applyOverrides o).2.applyOverrides o).2 = (c.applyOverrides o).2) ∧
    (∀ (c c' : Config) (o : Overrides), c' = (c.applyOverrides o).2 ↔
      (∀ f, c'.get f = (o.get? f).getD (c.get f)) ∧ c'.node = c.node) ∧
    (∀ (c : Config) (o : Overrides),
      (c.applyOverrides o).1 = (c.applyOverrides o).2.validate) ∧
    (∀ (t : FileTree) (path : Path) (o : Overrides) (c' : Config),
      resolveConfig t (some path) o = .ok c' ↔
        ∃ text c, t.readFile path.route = .ok text ∧ Config.ofYaml text = .ok c ∧
          c.applyOverrides o = (.ok (), c')) ∧
    ∀ (t : FileTree) (path : Path), loadConfig t path = resolveConfig t (some path) {} :=
  ⟨fun c o o' => ⟨c.override_override o o', c.override_self o⟩, fun _ _ _ => Config.eq_override_iff,
    fun _ _ => rfl, fun _ _ _ _ => resolveConfig_eq_ok_iff, loadConfig_eq_resolveConfig⟩

end PeerOverlay
