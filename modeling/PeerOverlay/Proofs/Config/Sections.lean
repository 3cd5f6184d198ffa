/-
The sections of a configuration in a document.

Every field of a configuration stands under a key of a section, `ConfigField.sectionName` and
`ConfigField.key`, and `ConfigField.say` is the value that a node says for it.  The readers of the
sections read just this: the fields of a section make up a record, `lawful_general` and so on, and
the section of node settings holds its entries, `reads_settings`.
-/
import Mathlib.Tactic.FinCases
import PeerOverlay.Proofs.Config.Layers
import PeerOverlay.Proofs.Yaml.Records

namespace PeerOverlay

open PeerOverlay.Yaml

/-! ### Node settings -/

/-- The value of a setting that a node says. -/
def settingValue? : Node → Option SettingValue
  | .scalar _ tag style text =>
    if (tag.bind Tag.localName?).isSome then none
    else (sayScalar tag style text).toOption.bind SettingValue.ofScalar?
  | _ => none

/-- What a node says as node settings: its keys are texts, its values are values of settings, and
the settings are these entries. -/
structure SaysSettings (node : Node) (s : NodeSettings) : Prop where
  entries : ∃ entries, node.entries? = some entries ∧
    ∀ e ∈ entries, e.1.text?.isSome ∧ (settingValue? e.2).isSome
  get : ∀ key, s.given.get? key = (node.value? key).bind settingValue?

theorem readScalar_says_iff {p : Place} {anchor : Option Nat} {tag : Option Tag}
    {style : Style} {text : String} {x : SettingValue} :
    (∃ said, readScalar p tag style text = .ok said ∧ SettingValue.ofScalar? said = some x) ↔
      settingValue? (.scalar anchor tag style text) = some x := by
  rw [readScalar, settingValue?]
  split
  next => simp
  next =>
    cases sayScalar tag style text with
    | error => simp [Except.toOption]
    | ok said => cases said <;> simp [Except.toOption, SettingValue.ofScalar?]

theorem reads_settingValue : ReadsScalar readSettingValue settingValue? where
  ok_iff := by
    intro a place node left r hnode
    rw [readSettingValue, a.follow_plain hnode, pure_bind]
    cases node with
    | scalar anchor tag style text =>
      rw [← readScalar_says_iff (p := place), Reading.bind_ok_iff]
      simp only [pure_bind, Reading.lift_ok_iff]
      constructor
      · rintro ⟨said, left', ⟨hread, rfl⟩, h⟩
        cases hsaid : SettingValue.ofScalar? said with
        | some value =>
          rw [hsaid] at h
          obtain ⟨rfl, hleft⟩ := Reading.pure_ok_iff.mp h
          exact ⟨⟨said, hread, hsaid⟩, hleft⟩
        | none =>
          rw [hsaid] at h
          exact absurd h Reading.throw_ne_ok
      · rintro ⟨⟨said, hread, hsaid⟩, hleft⟩
        refine ⟨said, left, ⟨hread, rfl⟩, ?_⟩
        rw [hsaid]
        exact Reading.pure_ok_iff.mpr ⟨rfl, hleft⟩
    | _ =>
      -- Whatever is found in a collection, it is no value.
      simp [Reading.bind_ok_iff, Reading.throw_ne_ok, settingValue?]
  collection := by
    intro node hnode
    cases node with
    | scalar => cases hnode
    | _ => rfl

/-- An entry in front sets a value that the rest does not replace. -/
theorem get?_settings_cons_iff {key value : Node} {rest : List (Node × Node)} {name : String}
    {x : SettingValue} {s s' : NodeSettings} (hkey : key.text? = some name)
    (hvalue : settingValue? value = some x)
    (hnodup : (Node.keyTexts ((key, value) :: rest)).Nodup) :
    (∀ name', s'.given.get? name' =
        ((Node.valueIn? name' rest).bind settingValue?).or ((s.set name x).given.get? name')) ↔
      ∀ name', s'.given.get? name' =
        ((Node.valueIn? name' ((key, value) :: rest)).bind settingValue?).or
          (s.given.get? name') := by
  refine forall_congr' fun name' => ?_
  rw [NodeSettings.set, AscendingMap.get?_insert]
  by_cases hname : name = name'
  · subst hname
    rw [Node.keyTexts_cons hkey] at hnodup
    have hrest : Node.valueIn? name rest = none :=
      Node.valueIn?_eq_none_iff.mpr (List.nodup_cons.mp hnodup).1
    rw [if_pos rfl, hrest, Node.valueIn?_cons_self hkey]
    simp [hvalue]
  · have hkey' : key.text? ≠ some name' := by
      rw [hkey]
      exact fun heq => hname (Option.some.inj heq)
    rw [if_neg hname, Node.valueIn?_cons_of_ne hkey']

theorem readSettingEntries_ok_iff {a : Anchors} {place : Place} {entries : List (Node × Node)}
    {s : NodeSettings} {left : Nat} {r : NodeSettings × Nat} (hplain : Node.PlainEntries entries)
    (hnodup : (Node.keyTexts entries).Nodup) :
    readSettingEntries a place entries s left = .ok r ↔
      (∀ e ∈ entries, e.1.text?.isSome ∧ (settingValue? e.2).isSome) ∧
        (∀ key, r.1.given.get? key =
          ((Node.valueIn? key entries).bind settingValue?).or (s.given.get? key)) ∧
        r.2 = left := by
  induction entries generalizing s left with
  | nil =>
    rw [readSettingEntries, Reading.pure_ok_iff]
    constructor
    · rintro ⟨rfl, hleft⟩
      exact ⟨fun e he => (List.not_mem_nil he).elim, fun key => rfl, hleft⟩
    · rintro ⟨-, hget, hleft⟩
      -- Settings are known by their look-ups.
      have hgiven : s.given = r.1.given := AscendingMap.ext_get? fun key => (hget key).symm
      exact ⟨congrArg NodeSettings.mk hgiven, hleft⟩
  | cons entry rest ih =>
    obtain ⟨key, value⟩ := entry
    obtain ⟨hkeyPlain, hvaluePlain, hrestPlain⟩ := hplain
    have hrest : (Node.keyTexts rest).Nodup :=
      hnodup.sublist ((List.sublist_cons_self _ _).filterMap _)
    rw [readSettingEntries, Reading.bind_ok_iff, List.forall_mem_cons]
    constructor
    · rintro ⟨name, leftName, hreadName, h⟩
      obtain ⟨x, leftValue, hreadValue, hreadRest⟩ := Reading.bind_ok_iff.mp h
      obtain ⟨hname, rfl⟩ := ((ReadsScalar.text _).ok_iff a place left hkeyPlain).mp hreadName
      obtain ⟨hvalue, rfl⟩ := (reads_settingValue.ok_iff a _ leftName hvaluePlain).mp hreadValue
      obtain ⟨hreadable, hget, hleft⟩ := (ih hrestPlain hrest).mp hreadRest
      exact ⟨⟨⟨Option.isSome_of_eq_some hname, Option.isSome_of_eq_some hvalue⟩, hreadable⟩,
        (get?_settings_cons_iff hname hvalue hnodup).mp hget, hleft⟩
    · rintro ⟨⟨⟨hname, hvalue⟩, hreadable⟩, hget, hleft⟩
      obtain ⟨name, hname⟩ := Option.isSome_iff_exists.mp hname
      obtain ⟨x, hvalue⟩ := Option.isSome_iff_exists.mp hvalue
      refine ⟨name, left, ?_, Reading.bind_ok_iff.mpr ⟨x, left, ?_, ?_⟩⟩
      · exact ((ReadsScalar.text _).ok_iff a place left hkeyPlain).mpr ⟨hname, rfl⟩
      · exact (reads_settingValue.ok_iff a _ left hvaluePlain).mpr ⟨hvalue, rfl⟩
      · exact (ih hrestPlain hrest).mpr
          ⟨hreadable, (get?_settings_cons_iff hname hvalue hnodup).mpr hget, hleft⟩

/-- **The node settings are read exactly if each entry of their section has a text and a value;
they hold these entries and no others.** -/
theorem reads_settings : Reads readSettings SaysSettings where
  ok_iff := by
    intro a place node left r hnode
    have hget : ∀ {entries : List (Node × Node)}, node.entries? = some entries → ∀ key,
        ((Node.valueIn? key entries).bind settingValue?).or (NodeSettings.empty.given.get? key) =
          (node.value? key).bind settingValue? := by
      intro entries hentries key
      rw [Node.value?, hentries]
      exact Option.or_none
    rw [readSettings, Reading.locate_ok_iff, Reading.bind_ok_iff]
    constructor
    · rintro ⟨entries, left', htaken, hread⟩
      obtain ⟨hentries, rfl⟩ := (entriesOf_plain hnode).mp htaken
      obtain ⟨hnodup, hplain⟩ := hnode.entries? hentries
      obtain ⟨hreadable, hheld, hleft⟩ := (readSettingEntries_ok_iff hplain hnodup).mp hread
      exact ⟨⟨⟨entries, hentries, hreadable⟩,
        fun key => (hheld key).trans (hget hentries key)⟩, hleft⟩
    · rintro ⟨⟨⟨entries, hentries, hreadable⟩, hheld⟩, hleft⟩
      obtain ⟨hnodup, hplain⟩ := hnode.entries? hentries
      refine ⟨entries, left, (entriesOf_plain hnode).mpr ⟨hentries, rfl⟩, ?_⟩
      exact (readSettingEntries_ok_iff hplain hnodup).mpr
        ⟨hreadable, fun key => (hheld key).trans (hget hentries key).symm, hleft⟩
  rearranged := by
    intro node node' s hnode hrel
    have hentries := hrel.forall_entries_iff
      (P := fun e => e.1.text?.isSome ∧ (settingValue? e.2).isSome) fun hkey hvalue => by
        rw [hkey.text?, hvalue.congr reads_settingValue.collection]
    have hget := hrel.bind_value? reads_settingValue.collection hnode
    constructor
    · rintro ⟨hreadable, hheld⟩
      exact ⟨hentries.mp hreadable, fun key => (hheld key).trans (hget key).symm⟩
    · rintro ⟨hreadable, hheld⟩
      exact ⟨hentries.mpr hreadable, fun key => (hheld key).trans (hget key)⟩

/-! ### Fields -/

namespace ConfigField

/-- The section in which a field stands. -/
def sectionName : ConfigField → String
  | outputDir | format | overwrite | logLevel => "general"
  | numNodes | host | transport => "network"
  | k | p | seed => "topology"
  | api | udp | tcp | ipc | zmq => "ports"

/-- The key of a field in its section. -/
def key : ConfigField → String
  | outputDir => "output_dir"
  | format => "format"
  | overwrite => "overwrite"
  | logLevel => "log_level"
  | numNodes => "num_nodes"
  | host => "host"
  | transport => "transport"
  | k => "k"
  | p => "p"
  | seed => "seed"
  | api => "api"
  | udp => "udp"
  | tcp => "tcp"
  | ipc => "ipc"
  | zmq => "zmq"

/-- How the value of a field is read. -/
def read : (f : ConfigField) → ReadAs f.Value
  | outputDir => readText "path string"
  | format => readChoice formatChoices
  | overwrite => readBool
  | logLevel => readOptional (readText "a string")
  | numNodes | k => readSize
  | host => readText "a string"
  | transport => readChoice transportChoices
  | p => readFloat
  | seed => readOptional readUInt64
  | api | udp | tcp | zmq => readUInt16
  | ipc => readUInt32

/-- The value of a field that a node says. -/
def say : (f : ConfigField) → Node → Option f.Value
  | outputDir | host => Node.text?
  | format => choice? formatChoices
  | overwrite => said? .bool boolWord?
  | logLevel => optional? Node.text?
  | numNodes | k => numberUpTo? (UInt64.size - 1)
  | transport => choice? transportChoices
  | p => said? .float fun text => float? text.toList
  | seed => optional? fun node => (numberUpTo? (UInt64.size - 1) node).map UInt64.ofNat
  | api | udp | tcp | zmq => fun node => (numberUpTo? (UInt16.size - 1) node).map UInt16.ofNat
  | ipc => fun node => (numberUpTo? (UInt32.size - 1) node).map UInt32.ofNat

theorem reads_say (f : ConfigField) : ReadsScalar f.read f.say := by
  cases f with
  | outputDir | host => exact .text _
  | format | transport => exact .choice _
  | overwrite | p => exact .said _ _ _
  | logLevel => exact (ReadsScalar.text _).optional
  | numNodes | k => exact .number _ _
  | seed => exact ((ReadsScalar.number _ _).map _).optional
  | api | udp | tcp | zmq | ipc => exact (ReadsScalar.number _ _).map _

/-- A field in the record of its section. -/
def known {ρ : Type} (f : ConfigField) (get : ρ → f.Value) (set : ρ → f.Value → ρ) :
    KnownField ρ :=
  ⟨f.Value, f.key, f.read, fun node x => f.say node = some x, get, set⟩

theorem reads_known {ρ : Type} (f : ConfigField) (get : ρ → f.Value) (set : ρ → f.Value → ρ) :
    Reads (f.known get set).read (f.known get set).Says :=
  f.reads_say.reads

end ConfigField

/-- The fields of the general section. -/
def generalKnown : List (KnownField GeneralSection) :=
  [ ConfigField.outputDir.known (·.outputDir) fun s v => { s with outputDir := v },
    ConfigField.format.known (·.format) fun s v => { s with format := v },
    ConfigField.overwrite.known (·.overwrite) fun s v => { s with overwrite := v },
    ConfigField.logLevel.known (·.logLevel) fun s v => { s with logLevel := v } ]

/-- The fields of the network section. -/
def networkKnown : List (KnownField NetworkSection) :=
  [ ConfigField.numNodes.known (·.numNodes) fun s v => { s with numNodes := v },
    ConfigField.host.known (·.host) fun s v => { s with host := v },
    ConfigField.transport.known (·.transport) fun s v => { s with transport := v } ]

/-- The fields of the topology section. -/
def topologyKnown : List (KnownField TopologySection) :=
  [ ConfigField.k.known (·.k) fun s v => { s with k := v },
    ConfigField.p.known (·.p) fun s v => { s with p := v },
    ConfigField.seed.known (·.seed) fun s v => { s with seed := v } ]

/-- The fields of the section of base ports. -/
def portsKnown : List (KnownField BasePorts) :=
  [ ConfigField.api.known (·.api) fun s v => { s with api := v },
    ConfigField.udp.known (·.udp) fun s v => { s with udp := v },
    ConfigField.tcp.known (·.tcp) fun s v => { s with tcp := v },
    ConfigField.ipc.known (·.ipc) fun s v => { s with ipc := v },
    ConfigField.zmq.known (·.zmq) fun s v => { s with zmq := v } ]

/-- The sections with closed keys, and the section of node settings. -/
def configKnown : List (KnownField Config) :=
  [ ⟨GeneralSection, "general", readSection "struct GeneralConfig" generalFields {},
      SaysRecord generalKnown {}, (·.general), fun c v => { c with general := v }⟩,
    ⟨NetworkSection, "network", readSection "struct NetworkConfig" networkFields {},
      SaysRecord networkKnown {}, (·.network), fun c v => { c with network := v }⟩,
    ⟨TopologySection, "topology", readSection "struct TopologyConfig" topologyFields {},
      SaysRecord topologyKnown {}, (·.topology), fun c v => { c with topology := v }⟩,
    ⟨BasePorts, "ports", readSection "struct BasePorts" portFields {},
      SaysRecord portsKnown {}, (·.ports), fun c v => { c with ports := v }⟩,
    ⟨NodeSettings, "node", readSettings, SaysSettings, (·.node), fun c v => { c with node := v }⟩ ]

theorem lawful_general : LawfulRecord generalKnown where
  nodup := by decide
  reads := by
    intro f hf
    fin_cases hf <;> exact ConfigField.reads_known _ _ _
  get_set := by
    intro f hf r x
    fin_cases hf <;> rfl
  get_set_of_ne := by
    intro f hf f' hf' hne r x
    fin_cases hf <;> fin_cases hf' <;> first | rfl | exact (hne rfl).elim
  ext := by
    intro r r' h
    simp only [generalKnown, List.forall_mem_cons] at h
    cases r
    cases r'
    exact (GeneralSection.mk.injEq ..).mpr ⟨h.1, h.2.1, h.2.2.1, h.2.2.2.1⟩

theorem lawful_network : LawfulRecord networkKnown where
  nodup := by decide
  reads := by
    intro f hf
    fin_cases hf <;> exact ConfigField.reads_known _ _ _
  get_set := by
    intro f hf r x
    fin_cases hf <;> rfl
  get_set_of_ne := by
    intro f hf f' hf' hne r x
    fin_cases hf <;> fin_cases hf' <;> first | rfl | exact (hne rfl).elim
  ext := by
    intro r r' h
    simp only [networkKnown, List.forall_mem_cons] at h
    cases r
    cases r'
    exact (NetworkSection.mk.injEq ..).mpr ⟨h.1, h.2.1, h.2.2.1⟩

theorem lawful_topology : LawfulRecord topologyKnown where
  nodup := by decide
  reads := by
    intro f hf
    fin_cases hf <;> exact ConfigField.reads_known _ _ _
  get_set := by
    intro f hf r x
    fin_cases hf <;> rfl
  get_set_of_ne := by
    intro f hf f' hf' hne r x
    fin_cases hf <;> fin_cases hf' <;> first | rfl | exact (hne rfl).elim
  ext := by
    intro r r' h
    simp only [topologyKnown, List.forall_mem_cons] at h
    cases r
    cases r'
    exact (TopologySection.mk.injEq ..).mpr ⟨h.1, h.2.1, h.2.2.1⟩

theorem lawful_ports : LawfulRecord portsKnown where
  nodup := by decide
  reads := by
    intro f hf
    fin_cases hf <;> exact ConfigField.reads_known _ _ _
  get_set := by
    intro f hf r x
    fin_cases hf <;> rfl
  get_set_of_ne := by
    intro f hf f' hf' hne r x
    fin_cases hf <;> fin_cases hf' <;> first | rfl | exact (hne rfl).elim
  ext := by
    intro r r' h
    simp only [portsKnown, List.forall_mem_cons] at h
    cases r
    cases r'
    exact (BasePorts.mk.injEq ..).mpr ⟨h.1, h.2.1, h.2.2.1, h.2.2.2.1, h.2.2.2.2.1⟩

theorem lawful_config : LawfulRecord configKnown where
  nodup := by decide
  reads := by
    intro f hf
    simp only [configKnown, List.mem_cons, List.not_mem_nil, or_false] at hf
    rcases hf with rfl | rfl | rfl | rfl | rfl
    · exact lawful_general.reads_record _ _
    · exact lawful_network.reads_record _ _
    · exact lawful_topology.reads_record _ _
    · exact lawful_ports.reads_record _ _
    · exact reads_settings
  get_set := by
    intro f hf r x
    fin_cases hf <;> rfl
  get_set_of_ne := by
    intro f hf f' hf' hne r x
    fin_cases hf <;> fin_cases hf' <;> first | rfl | exact (hne rfl).elim
  ext := by
    intro r r' h
    simp only [configKnown, List.forall_mem_cons] at h
    cases r
    cases r'
    exact (Config.mk.injEq ..).mpr ⟨h.1, h.2.1, h.2.2.1, h.2.2.2.1, h.2.2.2.2.1⟩

end PeerOverlay
