/-
What the options of the command to generate a network ask for.

A `Setting` is an option with the value that it stands for; it asks for the configuration file
or for one override.  An `Item` is an option as it is written on a command line.

* `get?_overrides` — the overrides of options, field by field;
* `request_of_option`, `request_of_not_option` — an item asks for the field that its option sets;
* `get?_overrides_givens`, `config_givens` — the texts of different options, read one by one,
  give what their items ask for.
-/
import PeerOverlay.CommandLine.Invocation
import PeerOverlay.Proofs.Config.Layers

namespace PeerOverlay

namespace CommandLine

/-! ### Settings and items -/

/-- An option of the command with its value. -/
inductive Setting
  | config (path : String)
  | numNodes (n : Nat)
  | k (n : Nat)
  | p (x : Binary64)
  | seed (seed : UInt64)
  | apiPortStart (port : UInt16)
  | udpReceiverPortStart (port : UInt16)
  | tcpReceiverPortStart (port : UInt16)
  | zmqIpcStart (index : UInt32)
  | zmqPortStart (port : UInt16)
  | host (host : String)
  | transport (transport : Transport)
  | output (dir : String)
  | format (format : ArtifactFormat)
  | logLevel (level : String)

/-- A configuration file and overrides. -/
structure Request where
  config : Option Path := none
  overrides : Overrides := {}

namespace Setting

/-- The option of a setting. -/
def name : Setting → OptionName
  | config _ => .config
  | numNodes _ => .numNodes
  | k _ => .k
  | p _ => .p
  | seed _ => .seed
  | apiPortStart _ => .apiPortStart
  | udpReceiverPortStart _ => .udpReceiverPortStart
  | tcpReceiverPortStart _ => .tcpReceiverPortStart
  | zmqIpcStart _ => .zmqIpcStart
  | zmqPortStart _ => .zmqPortStart
  | host _ => .host
  | transport _ => .transport
  | output _ => .output
  | format _ => .format
  | logLevel _ => .logLevel

/-- The value of a setting can be written as a text. -/
def IsWritten (text : String) : Setting → Prop
  | config path => text = path
  | numNodes n => size? text = some n
  | k n => size? text = some n
  | p x => decimal? text = some x
  | seed s => seed? text = some s
  | apiPortStart n => port? text = some n
  | udpReceiverPortStart n => port? text = some n
  | tcpReceiverPortStart n => port? text = some n
  | zmqIpcStart n => index? text = some n
  | zmqPortStart n => port? text = some n
  | host h => text = h
  | transport t => Transport.ofName? text = some t
  | output dir => text = dir
  | format f => ArtifactFormat.ofName? text = some f
  | logLevel level => text = level

/-- What a setting asks for: the file, or its own field and no other. -/
def request : Setting → Request
  | config path => { config := some (.ofText path) }
  | numNodes n => { overrides := { numNodes := some n } }
  | k n => { overrides := { k := some n } }
  | p x => { overrides := { p := some x } }
  | seed s => { overrides := { seed := some s } }
  | apiPortStart n => { overrides := { api := some n } }
  | udpReceiverPortStart n => { overrides := { udp := some n } }
  | tcpReceiverPortStart n => { overrides := { tcp := some n } }
  | zmqIpcStart n => { overrides := { ipc := some n } }
  | zmqPortStart n => { overrides := { zmq := some n } }
  | host h => { overrides := { host := some h } }
  | transport t => { overrides := { transport := some t } }
  | output dir => { overrides := { outputDir := some dir } }
  | format f => { overrides := { format := some f } }
  | logLevel level => { overrides := { logLevel := some level } }

end Setting

/-- How an option with a value is written. -/
inductive Spelling
  /-- By its name, with the value in an argument of its own. -/
  | long
  /-- By its name, with the value behind an equals sign. -/
  | longJoined
  /-- By its letter, with the value in an argument of its own. -/
  | letter (c : Char)
  /-- By its letter, with the value behind an equals sign. -/
  | letterJoined (c : Char)
  /-- By its letter, with the value right behind it. -/
  | letterAttached (c : Char)

/-- An option as it is written on a command line. -/
inductive Item
  | overwrite
  | setting (s : Setting) (spelling : Spelling) (text : String)

/-- Whether an option may be written in a certain way with a text as its value. -/
def Spelling.Fits (o : OptionName) (text : String) : Spelling → Prop
  | long | longJoined => True
  | letter c | letterJoined c => o.letter? = some c
  | letterAttached c => o.letter? = some c ∧ text.toList.head? ≠ some '='

/-- A text that is not empty and does not begin with a hyphen. -/
def IsPlain (text : String) : Prop :=
  ∃ c cs, text.toList = c :: cs ∧ c ≠ '-'

namespace Item

/-- The option of an item. -/
def name : Item → OptionName
  | overwrite => .overwrite
  | setting s _ _ => s.name

/-- The text of the value of an item. -/
def text : Item → String
  | overwrite => ""
  | setting _ _ text => text

/-- What an item asks for. -/
def request : Item → Request
  | overwrite => { overrides := { overwrite := some true } }
  | setting s _ _ => s.request

/-- The arguments of an item. -/
def arguments : Item → List String
  | overwrite => ["--overwrite"]
  | setting s .long text => ["--" ++ s.name.long, text]
  | setting s .longJoined text => ["--" ++ s.name.long ++ "=" ++ text]
  | setting _ (.letter c) text => [String.ofList ['-', c], text]
  | setting _ (.letterJoined c) text => [String.ofList ('-' :: c :: '=' :: text.toList)]
  | setting _ (.letterAttached c) text => [String.ofList ('-' :: c :: text.toList)]

/-- An item is an option with a text that its type accepts and a spelling that it has. -/
def Valid : Item → Prop
  | overwrite => True
  | setting s spelling text => s.IsWritten text ∧ IsPlain text ∧ spelling.Fits s.name text

end Item

/-- The options of items with the texts of their values. -/
def Givens.ofItems (items : List Item) : Givens :=
  items.map fun i => (i.name, i.text)

/-! ### What items ask for -/

variable {items : List Item} {i : Item} {s : Setting} {text : String}

theorem mem_of_lookup {o : OptionName} (h : (Givens.ofItems items).lookup o = some text) :
    ∃ i ∈ items, i.name = o ∧ i.text = text := by
  obtain ⟨before, after, hsplit, -⟩ := List.lookup_eq_some_iff.mp h
  have hmem : (o, text) ∈ Givens.ofItems items := by
    rw [hsplit]
    simp
  obtain ⟨i, hi, he⟩ := List.mem_map.mp hmem
  exact ⟨i, hi, Prod.mk.inj he⟩

/-- Of items of different options each is found by its option. -/
theorem lookup_of_mem (hnd : (items.map Item.name).Nodup) (hi : i ∈ items) :
    (Givens.ofItems items).lookup i.name = some i.text := by
  obtain ⟨before, after, rfl⟩ := List.append_of_mem hi
  refine List.lookup_eq_some_iff.mpr
    ⟨Givens.ofItems before, Givens.ofItems after, by simp [Givens.ofItems], ?_⟩
  intro e he
  obtain ⟨j, hj, rfl⟩ := List.mem_map.mp he
  rw [List.map_append, List.nodup_append] at hnd
  have hne := hnd.2.2 j.name (List.mem_map_of_mem hj) i.name (by simp)
  simpa using hne.symm

/-- The option that sets a field. -/
def fieldOption : ConfigField → OptionName
  | .numNodes => .numNodes
  | .host => .host
  | .transport => .transport
  | .k => .k
  | .p => .p
  | .seed => .seed
  | .api => .apiPortStart
  | .udp => .udpReceiverPortStart
  | .tcp => .tcpReceiverPortStart
  | .ipc => .zmqIpcStart
  | .zmq => .zmqPortStart
  | .outputDir => .output
  | .format => .format
  | .overwrite => .overwrite
  | .logLevel => .logLevel

/-- How the text of its option is read for a field. -/
def readField : (f : ConfigField) → String → Option f.Value
  | .numNodes | .k => size?
  | .host | .outputDir => some
  | .transport => Transport.ofName?
  | .p => decimal?
  | .seed => fun text => (seed? text).map some
  | .api | .udp | .tcp | .zmq => port?
  | .ipc => index?
  | .format => ArtifactFormat.ofName?
  | .overwrite => fun _ => some true
  | .logLevel => fun text => some (some text)

/-- The overrides of options, field by field. -/
theorem get?_overrides (g : Givens) (f : ConfigField) :
    (g.overrides (g.lookup .logLevel)).get? f = (g.lookup (fieldOption f)).bind (readField f) := by
  cases f with
  | seed => exact Option.map_bind
  | host => exact (Option.bind_fun_some _).symm
  | outputDir => exact (Option.bind_fun_some _).symm
  | overwrite => exact Option.map_eq_bind
  | logLevel => exact Option.map_eq_bind
  | _ => rfl

/-- An item asks for the field that its option sets, and for what its text is read as. -/
theorem request_of_option {f : ConfigField} (hv : i.Valid) (h : i.name = fieldOption f) :
    ∃ x, readField f i.text = some x ∧ i.request.overrides.get? f = some x := by
  cases i with
  | overwrite =>
    cases f <;> cases h
    exact ⟨true, rfl, rfl⟩
  | setting s spelling text =>
    have hwritten : s.IsWritten text := hv.1
    cases s with
    | seed s =>
      cases f <;> cases h
      exact ⟨some s, congrArg (Option.map some) hwritten, rfl⟩
    | host host =>
      cases f <;> cases h
      exact ⟨host, congrArg some hwritten, rfl⟩
    | output dir =>
      cases f <;> cases h
      exact ⟨dir, congrArg some hwritten, rfl⟩
    | logLevel level =>
      cases f <;> cases h
      exact ⟨some level, congrArg (some ∘ some) hwritten, rfl⟩
    | _ => cases f <;> cases h <;> exact ⟨_, hwritten, rfl⟩

theorem request_of_not_option {f : ConfigField} (h : i.name ≠ fieldOption f) :
    i.request.overrides.get? f = none := by
  cases i with
  | overwrite => cases f <;> first | rfl | exact absurd rfl h
  | setting s spelling text => cases s <;> cases f <;> first | rfl | exact absurd rfl h

/-- The configuration file that an item asks for. -/
theorem config_of_valid (hv : i.Valid) :
    i.request.config = if i.name = .config then some (.ofText i.text) else none := by
  cases i with
  | overwrite => rfl
  | setting s spelling text =>
    have hwritten : s.IsWritten text := hv.1
    cases s with
    | config path =>
      have htext : text = path := hwritten
      rw [htext]
      rfl
    | _ => rfl

/-- **The overrides that the texts of the options give are those that the items ask for.** -/
theorem get?_overrides_givens (hv : ∀ i ∈ items, i.Valid) (hnd : (items.map Item.name).Nodup)
    (f : ConfigField) (x : f.Value) :
    ((Givens.ofItems items).overrides ((Givens.ofItems items).lookup .logLevel)).get? f = some x ↔
      ∃ i ∈ items, i.request.overrides.get? f = some x := by
  rw [get?_overrides, Option.bind_eq_some_iff]
  constructor
  · rintro ⟨text, hlookup, hread⟩
    obtain ⟨i, hi, ho, rfl⟩ := mem_of_lookup hlookup
    obtain ⟨y, hy, hrequest⟩ := request_of_option (hv i hi) ho
    rw [hread] at hy
    exact ⟨i, hi, Option.some.inj hy ▸ hrequest⟩
  · rintro ⟨i, hi, hrequest⟩
    have ho : i.name = fieldOption f := by
      by_contra ho
      rw [request_of_not_option ho] at hrequest
      cases hrequest
    obtain ⟨y, hread, hy⟩ := request_of_option (hv i hi) ho
    rw [hrequest] at hy
    exact ⟨i.text, ho ▸ lookup_of_mem hnd hi, Option.some.inj hy ▸ hread⟩

/-- The configuration file that the text of its option gives is the one that the items ask
for. -/
theorem config_givens (hv : ∀ i ∈ items, i.Valid) (hnd : (items.map Item.name).Nodup)
    (path : Path) :
    ((Givens.ofItems items).lookup .config).map .ofText = some path ↔
      ∃ i ∈ items, i.request.config = some path := by
  rw [Option.map_eq_some_iff]
  constructor
  · rintro ⟨text, hlookup, rfl⟩
    obtain ⟨i, hi, ho, rfl⟩ := mem_of_lookup hlookup
    exact ⟨i, hi, by rw [config_of_valid (hv i hi), if_pos ho]⟩
  · rintro ⟨i, hi, hrequest⟩
    rw [config_of_valid (hv i hi)] at hrequest
    split at hrequest
    next ho => exact ⟨i.text, ho ▸ lookup_of_mem hnd hi, Option.some.inj hrequest⟩
    next => cases hrequest

end CommandLine

end PeerOverlay
