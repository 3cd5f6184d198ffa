/-
Configurations from documents.

`Describes` says field by field which configuration a document describes: a field has the value
under its key, or its built-in value if the document does not mention it, and the node settings are
the entries of their section.

* `ofDocument_eq_ok_iff` — a plain document gives exactly the configuration that it describes;
* `describes_of_rearranged` — in which order its entries stand does not matter;
* `not_hasUnknownKey` — no document with another key gives a configuration, whatever aliases and
  repeated keys it has;
* `loadConfig_documents` — all of it for files.
-/
import PeerOverlay.Proofs.Config.Sections
import PeerOverlay.Proofs.FileTree.Entries

namespace PeerOverlay

open PeerOverlay.Yaml

/-! ### What a document describes -/

namespace ConfigField

/-- All fields, section by section. -/
def all : List ConfigField :=
  [outputDir, format, overwrite, logLevel, numNodes, host, transport, k, p, seed,
    api, udp, tcp, ipc, zmq]

theorem mem_all (f : ConfigField) : f ∈ all := by
  cases f <;> decide

/-- The fields of a section. -/
def ofSection (name : String) : List ConfigField :=
  all.filter (·.sectionName = name)

theorem mem_ofSection {f : ConfigField} {name : String} :
    f ∈ ofSection name ↔ f.sectionName = name := by
  simp [ofSection, mem_all]

/-- What a field is if a node says it, or if no node does. -/
def SaysOrBuiltIn (f : ConfigField) (node? : Option Node) (c : Config) : Prop :=
  SaysOr (fun node x => f.say node = some x) (({} : Config).get f) node? (c.get f)

end ConfigField

/-- The sections in which only the keys of fields may stand. -/
def closedSections : List String :=
  ["general", "network", "topology", "ports"]

/-- The keys of a document. -/
def IsSection (name : String) : Prop :=
  name ∈ closedSections ∨ name = "node"

/-- The keys of a section. -/
def IsKeyOf (sectionName key : String) : Prop :=
  ∃ f : ConfigField, f.sectionName = sectionName ∧ f.key = key

/-- What a section of a document describes, if it is there. -/
structure DescribesSection (name : String) (node? : Option Node) (c : Config) : Prop where
  keys : ∀ node, node? = some node → node.HasKeys (IsKeyOf name)
  /-- A field has the value under its key, or its built-in value if there is none. -/
  fields : ∀ f : ConfigField, f.sectionName = name →
    f.SaysOrBuiltIn (node?.bind (·.value? f.key)) c

/-- The configuration that a document describes. -/
structure Describes (root : Node) (c : Config) : Prop where
  keys : root.HasKeys IsSection
  sections : ∀ name ∈ closedSections, DescribesSection name (root.value? name) c
  /-- The settings are the entries of their section; without it there are none. -/
  settings : SaysOr SaysSettings .empty (root.value? "node") c.node

/-! ### Plain documents -/

theorem forall_mem_iff_of_map_eq {α β : Type*} {P : α → Prop} {Q : β → Prop} {l : List α}
    {l' : List β} (h : l.map P = l'.map Q) : (∀ a ∈ l, P a) ↔ ∀ b ∈ l', Q b := by
  have hP : (∀ a ∈ l, P a) ↔ ∀ p ∈ l.map P, p := by rw [List.forall_mem_map]
  rw [hP, h, List.forall_mem_map]

theorem isKeyOf_iff {ρ : Type} {known : List (KnownField ρ)} {name key : String}
    (h : known.map KnownField.name = (ConfigField.ofSection name).map ConfigField.key) :
    (∃ f ∈ known, f.name = key) ↔ IsKeyOf name key := by
  rw [← List.mem_map, h, List.mem_map]
  simp only [ConfigField.mem_ofSection]
  rfl

/-- The fields of a section say the same in its record and in the configuration. -/
theorem saysOr_section_iff {ρ : Type} {known : List (KnownField ρ)} (h : LawfulRecord known)
    (name : String) (builtIn r : ρ) (node? : Option Node) (c : Config)
    (hkeys : known.map KnownField.name = (ConfigField.ofSection name).map ConfigField.key)
    (hfields : known.map (fun f =>
        SaysOr f.Says (f.get builtIn) (node?.bind (·.value? f.name)) (f.get r)) =
      (ConfigField.ofSection name).map fun f => f.SaysOrBuiltIn (node?.bind (·.value? f.key)) c) :
    SaysOr (SaysRecord known builtIn) builtIn node? r ↔ DescribesSection name node? c := by
  rw [h.saysOr_iff, forall_mem_iff_of_map_eq hfields]
  simp only [isKeyOf_iff hkeys, ConfigField.mem_ofSection]
  exact ⟨fun ⟨hknown, hsaid⟩ => ⟨hknown, hsaid⟩, fun ⟨hknown, hsaid⟩ => ⟨hknown, hsaid⟩⟩

theorem saysRecord_iff_describes {root : Node} {c : Config} :
    SaysRecord configKnown {} root c ↔ Describes root c := by
  have hkeys : ∀ name, (∃ f ∈ configKnown, f.name = name) ↔ IsSection name := by
    intro name
    rw [← List.mem_map, show configKnown.map KnownField.name = closedSections ++ ["node"] from rfl,
      List.mem_append, List.mem_singleton]
    rfl
  -- The fields of a section stand in the same order in its record and among all fields.
  have hgeneral := saysOr_section_iff lawful_general "general" {} c.general
    (root.value? "general") c rfl rfl
  have hnetwork := saysOr_section_iff lawful_network "network" {} c.network
    (root.value? "network") c rfl rfl
  have htopology := saysOr_section_iff lawful_topology "topology" {} c.topology
    (root.value? "topology") c rfl rfl
  have hports := saysOr_section_iff lawful_ports "ports" {} c.ports
    (root.value? "ports") c rfl rfl
  have hsections : (∀ f ∈ configKnown,
      SaysOr f.Says (f.get {}) (root.value? f.name) (f.get c)) ↔
        (∀ name ∈ closedSections, DescribesSection name (root.value? name) c) ∧
          SaysOr SaysSettings .empty (root.value? "node") c.node := by
    simp only [configKnown, closedSections, List.forall_mem_cons, List.not_mem_nil,
      false_imp_iff, implies_true, and_true, and_assoc]
    exact and_congr hgeneral (and_congr hnetwork (and_congr htopology (and_congr hports Iff.rfl)))
  constructor
  · rintro ⟨hknown, hsaid⟩
    simp only [hkeys] at hknown
    obtain ⟨hclosed, hsettings⟩ := hsections.mp hsaid
    exact ⟨hknown, hclosed, hsettings⟩
  · rintro ⟨hknown, hclosed, hsettings⟩
    refine ⟨?_, hsections.mpr ⟨hclosed, hsettings⟩⟩
    simp only [hkeys]
    exact hknown

/-- From a plain node the configuration is read that the node describes. -/
theorem reads_config :
    Reads (fun a place root => readRecord "struct Config" configFields a place root {}) Describes :=
  (lawful_config.reads_record "struct Config" {}).congr saysRecord_iff_describes

/-- The order of entries does not matter for what a document describes. -/
theorem describes_of_rearranged {root root' : Node} {c : Config} (hroot : root.Plain)
    (h : root.Rearranged root') : Describes root c ↔ Describes root' c :=
  reads_config.rearranged hroot h

theorem ofNode_eq_ok {root : Node} {c : Config} (h : Config.ofNode root = .ok c) :
    ∃ left, readRecord "struct Config" configFields (Anchors.ofRoot root) .root root {}
      (Anchors.ofRoot root).limit = .ok (c, left) := by
  obtain ⟨⟨c', left⟩, hread, rfl⟩ := map_eq_ok_iff.mp h
  exact ⟨left, hread⟩

theorem ofNode_eq_ok_iff {root : Node} {c : Config} (hroot : root.Plain) :
    Config.ofNode root = .ok c ↔ Describes root c := by
  constructor
  · intro h
    obtain ⟨left, hread⟩ := ofNode_eq_ok h
    exact ((reads_config.ok_iff _ _ _ hroot).mp hread).1
  · intro h
    exact map_eq_ok_iff.mpr ⟨(c, _), (reads_config.ok_iff _ _ _ hroot).mpr ⟨h, rfl⟩, rfl⟩

theorem ofDocument_eq (d : Document) :
    Config.ofDocument d = Config.ofNode d.content >>= fun c =>
      if d.closed then pure c else throw .notYaml := by
  obtain ⟨_ | root, closed⟩ := d
  · rfl
  · rfl

/-- **A plain document gives exactly the configuration that it describes.** -/
theorem ofDocument_eq_ok_iff {d : Document} {c : Config} (hd : d.content.Plain) :
    Config.ofDocument d = .ok c ↔ d.closed = true ∧ Describes d.content c := by
  rw [ofDocument_eq, bind_eq_ok_iff]
  simp only [ofNode_eq_ok_iff hd]
  cases d.closed with
  | true => simp [pure, Except.pure]
  | false => simp [throw, throwThe, MonadExceptOf.throw]

/-! ### Documents with other keys -/

/-- A document has an unknown key at its top or in a section with closed keys.  Aliases are
followed. -/
inductive HasUnknownKey (a : Anchors) (root : Node) : Prop
  | top (h : a.HasOtherKey IsSection root)
  | inSection {name : String} (hname : name ∈ closedSections) {node : Node}
    (hnode : a.Mentions root name node) (h : a.HasOtherKey (IsKeyOf name) node)

theorem isKeyOf_of_mem {ρ : Type} {fields : List (RecordField ρ)} {name : String}
    (h : fields.map RecordField.name = (ConfigField.ofSection name).map ConfigField.key) :
    ∀ field ∈ fields, IsKeyOf name field.name := by
  intro field hfield
  obtain ⟨f, hf, hkey⟩ := List.mem_map.mp (h ▸ List.mem_map_of_mem hfield)
  exact ⟨f, ConfigField.mem_ofSection.mp hf, hkey⟩

/-- What is read as a section has no key but those of its fields. -/
theorem not_hasOtherKey_of_section {ρ : Type} {expected name : String}
    {fields : List (RecordField ρ)} {builtIn : ρ} {set : Config → ρ → Config} {a : Anchors}
    {place : Place} {node : Node} {c : Config} {left : Nat} {s : Config × Nat}
    (hfields : fields.map RecordField.name = (ConfigField.ofSection name).map ConfigField.key)
    (h : (RecordField.of name (readSection expected fields builtIn) set).read a place node c left =
      .ok s) :
    ¬a.HasOtherKey (IsKeyOf name) node := by
  obtain ⟨r, left', hread, -⟩ := Reading.map_ok_iff.mp h
  exact not_hasOtherKey_of_readRecord hread (isKeyOf_of_mem hfields)

theorem not_hasUnknownKey {root : Node} {c : Config} (h : Config.ofNode root = .ok c) :
    ¬HasUnknownKey (.ofRoot root) root := by
  obtain ⟨left, hread⟩ := ofNode_eq_ok h
  rintro (htop | ⟨hname, hnode, hother⟩)
  · refine not_hasOtherKey_of_readRecord hread (fun field hfield => ?_) htop
    have hmem : field.name ∈ closedSections ++ ["node"] :=
      List.mem_map_of_mem (f := RecordField.name) hfield
    rwa [List.mem_append, List.mem_singleton] at hmem
  · obtain ⟨field, hfield, rfl, place, r, left', s, hvalue⟩ := exists_field_of_mentions hread hnode
    revert hother
    -- The value was read by the reader of one of the five sections.
    simp only [configFields, List.mem_cons, List.not_mem_nil, or_false] at hfield
    rcases hfield with rfl | rfl | rfl | rfl | rfl
    · exact not_hasOtherKey_of_section rfl hvalue
    · exact not_hasOtherKey_of_section rfl hvalue
    · exact not_hasOtherKey_of_section rfl hvalue
    · exact not_hasOtherKey_of_section rfl hvalue
    · exact absurd hname (by decide)

/-! ### Files -/

/-- A path leads to a file whose text is a document. -/
def FileTree.HoldsDocument (t : FileTree) (path : Path) (d : Document) : Prop :=
  ∃ text, t.readFile path.route = .ok text ∧ Document.ofText text = d

section Files

variable {t t' : FileTree} {path path' : Path} {d d' : Document} {c : Config}

theorem loadConfig_eq_ok_iff (h : t.HoldsDocument path d) :
    loadConfig t path = .ok c ↔ Config.ofDocument d = .ok c ∧ c.validate = .ok () := by
  obtain ⟨text, hread, rfl⟩ := h
  have hconfig : ∀ c, readConfig t path = .ok c ↔ Config.ofDocument (.ofText text) = .ok c := by
    intro c
    rw [readConfig, hread]
    exact mapError_eq_ok_iff
  rw [loadConfig, bind_eq_ok_iff]
  constructor
  · rintro ⟨c', hc', h⟩
    obtain ⟨⟨⟩, hvalid, h⟩ := bind_eq_ok_iff.mp h
    obtain rfl := Except.ok.inj h
    exact ⟨(hconfig c').mp hc', mapError_eq_ok_iff.mp hvalid⟩
  · rintro ⟨hc, hvalid⟩
    exact ⟨c, (hconfig c).mpr hc, bind_eq_ok_iff.mpr ⟨(), mapError_eq_ok_iff.mpr hvalid, rfl⟩⟩

theorem loadConfig_eq_ok_iff_describes (h : t.HoldsDocument path d) (hd : d.content.Plain) :
    loadConfig t path = .ok c ↔
      d.closed = true ∧ Describes d.content c ∧ c.validate = .ok () := by
  rw [loadConfig_eq_ok_iff h, ofDocument_eq_ok_iff hd, and_assoc]

theorem loadConfig_rearranged (h : t.HoldsDocument path d) (h' : t'.HoldsDocument path' d')
    (hd : d.content.Plain) (hd' : d'.content.Plain) (hrel : d.Rearranged d') :
    loadConfig t path = .ok c ↔ loadConfig t' path' = .ok c := by
  rw [loadConfig_eq_ok_iff_describes h hd, loadConfig_eq_ok_iff_describes h' hd', hrel.closed,
    describes_of_rearranged hd hrel.content]

theorem loadConfig_ne_ok (h : t.HoldsDocument path d)
    (hunknown : HasUnknownKey (.ofRoot d.content) d.content) : loadConfig t path ≠ .ok c := by
  intro hload
  obtain ⟨hread, -⟩ := (loadConfig_eq_ok_iff h).mp hload
  obtain ⟨c', hnode, -⟩ := bind_eq_ok_iff.mp (ofDocument_eq d ▸ hread)
  exact not_hasUnknownKey hnode hunknown

end Files

/-- **Configurations from documents.**  Two plain documents that differ only in the order of entries
load with the same configuration, or neither of them does.  A plain document loads with the
configuration that it describes, if this one is valid.  A document with an unknown key does not
load, be it plain or not. -/
theorem loadConfig_documents :
    (∀ {t t' : FileTree} {path path' : Path} {d d' : Document}, t.HoldsDocument path d →
      t'.HoldsDocument path' d' → d.content.Plain → d'.content.Plain → d.Rearranged d' →
        ∀ c, loadConfig t path = .ok c ↔ loadConfig t' path' = .ok c) ∧
    (∀ {t : FileTree} {path : Path} {d : Document}, t.HoldsDocument path d → d.content.Plain →
      ∀ c, loadConfig t path = .ok c ↔
        d.closed = true ∧ Describes d.content c ∧ c.validate = .ok ()) ∧
    ∀ {t : FileTree} {path : Path} {d : Document}, t.HoldsDocument path d →
      HasUnknownKey (.ofRoot d.content) d.content → ∀ c, loadConfig t path ≠ .ok c :=
  ⟨fun h h' hd hd' hrel _ => loadConfig_rearranged h h' hd hd' hrel,
    fun h hd _ => loadConfig_eq_ok_iff_describes h hd,
    fun h hunknown _ => loadConfig_ne_ok h hunknown⟩

/-- A mapping of plain scalars or mappings. -/
def plainMapping (entries : List (String × Node)) : Node :=
  .mapping none none (entries.map fun e => (.scalar none none .plain e.1, e.2))

/-- A document with a section of fields and one of settings. -/
def fieldsFirst : Document :=
  ⟨some (plainMapping
    [("network", plainMapping [("host", .scalar none none .plain "b"),
      ("num_nodes", .scalar none none .plain "9")]),
    ("node", plainMapping [("x", .scalar none none .plain "1")])]), true⟩

/-- The document with its entries in another order, at both levels. -/
def settingsFirst : Document :=
  ⟨some (plainMapping
    [("node", plainMapping [("x", .scalar none none .plain "1")]),
    ("network", plainMapping [("num_nodes", .scalar none none .plain "9"),
      ("host", .scalar none none .plain "b")])]), true⟩

theorem ofText_fieldsFirst :
    Document.ofText "network:\n  host: b\n  num_nodes: 9\nnode: \x7bx: 1\x7d\n" = fieldsFirst := by
  have htokens : tokens "network:\n  host: b\n  num_nodes: 9\nnode: \x7bx: 1\x7d\n" =
      [.blockMappingStart, .key, .scalar "network".toList .plain, .value, .blockMappingStart,
        .key, .scalar "host".toList .plain, .value, .scalar "b".toList .plain,
        .key, .scalar "num_nodes".toList .plain, .value, .scalar "9".toList .plain, .blockEnd,
        .key, .scalar "node".toList .plain, .value, .flowMappingStart,
        .key, .scalar "x".toList .plain, .value, .scalar "1".toList .plain, .flowMappingEnd,
        .blockEnd, .streamEnd] := by
    decide +kernel
  rw [Document.ofText, htokens]
  rfl

theorem ofText_settingsFirst :
    Document.ofText "node:\n  x: 1\nnetwork: \x7bnum_nodes: 9, host: b\x7d\n" = settingsFirst := by
  have htokens : tokens "node:\n  x: 1\nnetwork: \x7bnum_nodes: 9, host: b\x7d\n" =
      [.blockMappingStart, .key, .scalar "node".toList .plain, .value, .blockMappingStart,
        .key, .scalar "x".toList .plain, .value, .scalar "1".toList .plain, .blockEnd,
        .key, .scalar "network".toList .plain, .value, .flowMappingStart,
        .key, .scalar "num_nodes".toList .plain, .value, .scalar "9".toList .plain, .flowEntry,
        .key, .scalar "host".toList .plain, .value, .scalar "b".toList .plain, .flowMappingEnd,
        .blockEnd, .streamEnd] := by
    decide +kernel
  rw [Document.ofText, htokens]
  rfl

theorem ofText_strange :
    Document.ofText "x: 1\n" =
      ⟨some (plainMapping [("x", .scalar none none .plain "1")]), true⟩ := by
  have htokens : tokens "x: 1\n" =
      [.blockMappingStart, .key, .scalar "x".toList .plain, .value, .scalar "1".toList .plain,
        .blockEnd, .streamEnd] := by
    decide +kernel
  rw [Document.ofText, htokens]
  rfl

/-- Two files of the same entries, and one with an unknown key. -/
def threeDocuments : FileTree :=
  FileTree.empty.put [.ofText "o"] .directory
    |>.put [.ofText "o", .ofText "a"]
      (.file "network:\n  host: b\n  num_nodes: 9\nnode: \x7bx: 1\x7d\n")
    |>.put [.ofText "o", .ofText "b"]
      (.file "node:\n  x: 1\nnetwork: \x7bnum_nodes: 9, host: b\x7d\n")
    |>.put [.ofText "o", .ofText "c"] (.file "x: 1\n")

theorem holdsDocument_threeDocuments {name : String} {text : String} {d : Document}
    (hname : (Name.ofText name).Plain ∧ (Path.ofText "o").Admits (.ofText name))
    (hfile : threeDocuments.get? [.ofText "o", .ofText name] = some (.file text))
    (hd : Document.ofText text = d) :
    threeDocuments.HoldsDocument ((Path.ofText "o").join (.ofText name)) d := by
  have hroute : (Path.ofText "o").route = ⟨false, [.down (.ofText "o")], false, 1⟩ := by
    decide +kernel
  have hfinds : threeDocuments.Finds (.ofText "o") [.ofText "o"] :=
    .of_route (FileTree.linkFree_of_entries (by decide +kernel)) hroute (by decide +kernel)
      (by decide +kernel) (by decide +kernel) (by decide +kernel) (by decide +kernel)
  exact ⟨text, hfinds.readFile_join hname.1 hname.2 hfile, hd⟩

/-- Nine nodes with one setting. -/
def nineNodes : Config where
  network := { numNodes := 9, host := "b" }
  node := NodeSettings.empty.set "x" (.integer 1)

/-- Two files of the same entries load with one configuration, and a misspelt one does not load. -/
theorem loadConfig_documents_three :
    loadConfig threeDocuments ((Path.ofText "o").join (.ofText "a")) = .ok nineNodes ∧
      loadConfig threeDocuments ((Path.ofText "o").join (.ofText "b")) = .ok nineNodes ∧
      ∀ c, loadConfig threeDocuments ((Path.ofText "o").join (.ofText "c")) ≠ .ok c := by
  obtain ⟨hsame, hdescribed, hrejected⟩ := loadConfig_documents
  have ha : threeDocuments.HoldsDocument ((Path.ofText "o").join (.ofText "a")) fieldsFirst :=
    holdsDocument_threeDocuments (by decide +kernel) (by decide +kernel) ofText_fieldsFirst
  have hb : threeDocuments.HoldsDocument ((Path.ofText "o").join (.ofText "b")) settingsFirst :=
    holdsDocument_threeDocuments (by decide +kernel) (by decide +kernel) ofText_settingsFirst
  have hc : threeDocuments.HoldsDocument ((Path.ofText "o").join (.ofText "c")) _ :=
    holdsDocument_threeDocuments (by decide +kernel) (by decide +kernel) ofText_strange
  have hplain : fieldsFirst.content.Plain := by
    refine ⟨by decide, trivial, ⟨by decide, trivial, trivial, trivial, trivial, trivial⟩, trivial,
      ⟨by decide, trivial, trivial, trivial⟩, trivial⟩
  have hplain' : settingsFirst.content.Plain := by
    refine ⟨by decide, trivial, ⟨by decide, trivial, trivial, trivial⟩, trivial,
      ⟨by decide, trivial, trivial, trivial, trivial, trivial⟩, trivial⟩
  have hrel : fieldsFirst.Rearranged settingsFirst := by
    refine ⟨⟨_, rfl, [_], _, _, [], rfl, rfl, ⟨_, rfl, ?_⟩, ?_⟩, rfl⟩
    · exact .of_perm (.swap _ _ _)
    · exact .refl _
  have hload := (hdescribed ha hplain nineNodes).mpr
    ⟨rfl, (ofNode_eq_ok_iff hplain).mp rfl, by decide +kernel⟩
  refine ⟨hload, (hsame ha hb hplain hplain' hrel nineNodes).mp hload, hrejected hc (.top ?_)⟩
  refine ⟨_, rfl, _, List.mem_cons_self, fun name hname => ?_⟩
  obtain rfl := Option.some.inj hname
  simp [IsSection, closedSections]

end PeerOverlay
