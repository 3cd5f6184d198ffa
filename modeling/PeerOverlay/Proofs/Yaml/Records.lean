/-
What the reader of records reads.

A record is read from a mapping entry by entry.  `KnownField` has what a field is in documents and
in records, and `LawfulRecord` that the fields make up the record.  Then:

* `LawfulRecord.reads_record` — from a plain node a record is read exactly if its keys are known;
  each field then has what is said behind its name, or else its built-in value, in whichever order
  the entries stand;
* `readRecord_ok` — from any node, with aliases or without, a record is read only if all its keys
  are known and all values behind them can be read.
-/
import PeerOverlay.Proofs.Yaml.Readers

namespace PeerOverlay.Yaml

variable {α ρ : Type}

/-! ### Nodes that aliases lead to -/

/-- A node, or the node that it stands for as an alias. -/
def Anchors.shown (a : Anchors) : Node → Node
  | .alias anchor => a.target anchor
  | node => node

theorem Anchors.follow_ok {a : Anchors} {node : Node} {left : Nat} {s : Node × Nat}
    (h : a.follow node left = .ok s) : s.1 = a.shown node := by
  cases node with
  | scalar => exact (Reading.pure_ok_iff.mp h).1.symm
  | sequence => exact (Reading.pure_ok_iff.mp h).1.symm
  | mapping => exact (Reading.pure_ok_iff.mp h).1.symm
  | fault => exact (Reading.pure_ok_iff.mp h).1.symm
  | _ =>
    obtain ⟨n, left', -, h⟩ := Reading.bind_ok_iff.mp h
    cases n with
    | zero => exact absurd h Reading.throw_ne_ok
    | succ n =>
      obtain ⟨_, left', -, h⟩ := Reading.bind_ok_iff.mp h
      exact (Reading.pure_ok_iff.mp h).1.symm

theorem readText_ok {expected : String} {a : Anchors} {place : Place} {node : Node} {left : Nat}
    {s : String × Nat} (h : readText expected a place node left = .ok s) :
    (a.shown node).text? = some s.1 := by
  obtain ⟨shown, left', hfollow, h⟩ := Reading.bind_ok_iff.mp h
  rw [← show shown = a.shown node from Anchors.follow_ok hfollow]
  cases shown with
  | scalar => exact congrArg some (Reading.pure_ok_iff.mp h).1
  | _ => exact absurd h Reading.throw_ne_ok

theorem entriesOf_ok_iff {expected : String} {a : Anchors} {node : Node} {left : Nat}
    {s : List (Node × Node) × Nat} :
    entriesOf expected a node left = .ok s ↔
      ∃ shown, a.follow node left = .ok (shown, s.2) ∧ shown.entries? = some s.1 := by
  rw [entriesOf, Reading.bind_ok_iff]
  constructor
  · rintro ⟨shown, left', hfollow, h⟩
    have hshown : shown.entries? = some s.1 ∧ s.2 = left' := by
      cases shown with
      | mapping => simpa [Node.entries?, Reading.pure_ok_iff] using h
      | scalar anchor tag style text =>
        cases style with
        | plain =>
          by_cases htext : text = ""
          · subst htext
            simpa [Node.entries?, Reading.pure_ok_iff] using h
          · simp [htext, Reading.throw_ne_ok] at h
        | _ => exact absurd h Reading.throw_ne_ok
      | _ => exact absurd h Reading.throw_ne_ok
    obtain ⟨hentries, rfl⟩ := hshown
    exact ⟨shown, hfollow, hentries⟩
  · rintro ⟨shown, hfollow, hentries⟩
    refine ⟨shown, s.2, hfollow, ?_⟩
    unfold Node.entries? at hentries
    split at hentries
    next => exact Reading.pure_ok_iff.mpr ⟨Option.some.inj hentries, rfl⟩
    next => exact Reading.pure_ok_iff.mpr ⟨Option.some.inj hentries, rfl⟩
    next => cases hentries

theorem entriesOf_plain {expected : String} {a : Anchors} {node : Node} {left : Nat}
    {s : List (Node × Node) × Nat} (hnode : node.Plain) :
    entriesOf expected a node left = .ok s ↔ node.entries? = some s.1 ∧ s.2 = left := by
  rw [entriesOf_ok_iff, a.follow_plain hnode]
  constructor
  · rintro ⟨shown, hfollow, hentries⟩
    obtain ⟨rfl, hleft⟩ := Reading.pure_ok_iff.mp hfollow
    exact ⟨hentries, hleft⟩
  · rintro ⟨hentries, hleft⟩
    exact ⟨node, Reading.pure_ok_iff.mpr ⟨rfl, hleft⟩, hentries⟩

/-! ### Entries -/

/-- An entry is read in three steps: its name, its value, the rest. -/
theorem readEntries_cons_ok_iff {fields : List (RecordField ρ)} {a : Anchors} {place : Place}
    {key value : Node} {rest : List (Node × Node)} {seen : List String} {r : ρ} {left : Nat}
    {s : ρ × Nat} :
    readEntries fields a place ((key, value) :: rest) seen r left = .ok s ↔
      ∃ name leftName field r' left',
        readText "field identifier" a place key left = .ok (name, leftName) ∧
        fields.find? (·.name = name) = some field ∧ name ∉ seen ∧
        field.read a (place.value key) value r leftName = .ok (r', left') ∧
        readEntries fields a place rest (name :: seen) r' left' = .ok s := by
  rw [readEntries, Reading.bind_ok_iff]
  refine exists_congr fun name => exists_congr fun leftName => ?_
  cases hfind : fields.find? (·.name = name) with
  | none => simp [Reading.throw_ne_ok]
  | some field =>
    by_cases hseen : name ∈ seen
    · simp [hseen, Reading.throw_ne_ok, Reading.bind_ok_iff]
    · simp [hseen, Reading.bind_ok_iff]

/-- A record is read only if its keys are known and the values behind them can be read. -/
theorem readEntries_ok {fields : List (RecordField ρ)} {a : Anchors} {place : Place}
    {entries : List (Node × Node)} {seen : List String} {r : ρ} {left : Nat} {s : ρ × Nat}
    (h : readEntries fields a place entries seen r left = .ok s) {e : Node × Node}
    (he : e ∈ entries) :
    ∃ field ∈ fields, (a.shown e.1).text? = some field.name ∧
      ∃ place r left s, field.read a place e.2 r left = .ok s := by
  induction entries generalizing seen r left with
  | nil => cases he
  | cons entry rest ih =>
    obtain ⟨key, value⟩ := entry
    obtain ⟨name, leftName, field, r', left', hname, hfind, -, hread, hrest⟩ :=
      readEntries_cons_ok_iff.mp h
    rcases List.mem_cons.mp he with rfl | he
    · obtain rfl : field.name = name := by simpa using List.find?_some hfind
      exact ⟨field, List.mem_of_find?_eq_some hfind, readText_ok hname, _, _, _, _, hread⟩
    · exact ih hrest he

theorem readRecord_ok {expected : String} {fields : List (RecordField ρ)} {a : Anchors}
    {place : Place} {node : Node} {r : ρ} {left : Nat} {s : ρ × Nat}
    (h : readRecord expected fields a place node r left = .ok s) :
    ∃ entries, (a.shown node).entries? = some entries ∧ ∀ e ∈ entries,
      ∃ field ∈ fields, (a.shown e.1).text? = some field.name ∧
        ∃ place r left s, field.read a place e.2 r left = .ok s := by
  obtain ⟨entries, left', hentries, hread⟩ := Reading.bind_ok_iff.mp (Reading.locate_ok_iff.mp h)
  obtain ⟨shown, hfollow, hshown⟩ := entriesOf_ok_iff.mp hentries
  obtain rfl : shown = a.shown node := Anchors.follow_ok hfollow
  exact ⟨entries, hshown, fun e he => readEntries_ok hread he⟩

/-- Some key of a mapping is none of the known ones, or no text at all. -/
def Anchors.HasOtherKey (a : Anchors) (Known : String → Prop) (node : Node) : Prop :=
  ∃ entries, (a.shown node).entries? = some entries ∧
    ∃ e ∈ entries, ∀ name, (a.shown e.1).text? = some name → ¬Known name

/-- Some entry of a mapping has a given name and value. -/
def Anchors.Mentions (a : Anchors) (node : Node) (name : String) (value : Node) : Prop :=
  ∃ entries, (a.shown node).entries? = some entries ∧
    ∃ key, (key, value) ∈ entries ∧ (a.shown key).text? = some name

section Record

variable {expected : String} {fields : List (RecordField ρ)} {a : Anchors} {place : Place}
  {node : Node} {r : ρ} {left : Nat} {s : ρ × Nat}

theorem not_hasOtherKey_of_readRecord {Known : String → Prop}
    (h : readRecord expected fields a place node r left = .ok s)
    (hknown : ∀ field ∈ fields, Known field.name) : ¬a.HasOtherKey Known node := by
  rintro ⟨entries, hentries, e, he, hother⟩
  obtain ⟨entries', hentries', hread⟩ := readRecord_ok h
  obtain rfl := Option.some.inj (hentries.symm.trans hentries')
  obtain ⟨field, hfield, hname, -⟩ := hread e he
  exact hother field.name hname (hknown field hfield)

theorem exists_field_of_mentions {name : String} {value : Node}
    (h : readRecord expected fields a place node r left = .ok s)
    (hvalue : a.Mentions node name value) :
    ∃ field ∈ fields, field.name = name ∧
      ∃ place r left s, field.read a place value r left = .ok s := by
  obtain ⟨entries, hentries, key, he, hkey⟩ := hvalue
  obtain ⟨entries', hentries', hread⟩ := readRecord_ok h
  obtain rfl := Option.some.inj (hentries.symm.trans hentries')
  obtain ⟨field, hfield, hname, hfound⟩ := hread (key, value) he
  exact ⟨field, hfield, Option.some.inj (hname.symm.trans hkey), hfound⟩

end Record

/-! ### Fields -/

/-- A field as documents and records have it. -/
structure KnownField (ρ : Type) where
  Value : Type
  name : String
  read : ReadAs Value
  /-- What a node says as the value of the field. -/
  Says : Node → Value → Prop
  get : ρ → Value
  set : ρ → Value → ρ

/-- The field as the reader of records takes it. -/
def KnownField.reader (f : KnownField ρ) : RecordField ρ :=
  .of f.name f.read f.set

/-- Fields that make up a record: they have different names, setting one of them changes no other
one, and there is nothing else in the record. -/
structure LawfulRecord (fields : List (KnownField ρ)) : Prop where
  nodup : (fields.map KnownField.name).Nodup
  reads : ∀ f ∈ fields, Reads f.read f.Says
  get_set : ∀ f ∈ fields, ∀ r x, f.get (f.set r x) = x
  get_set_of_ne : ∀ f ∈ fields, ∀ f' ∈ fields, f'.name ≠ f.name →
    ∀ r x, f'.get (f.set r x) = f'.get r
  ext : ∀ {r r'}, (∀ f ∈ fields, f.get r = f.get r') → r = r'

/-- What a value is that a document may mention: what the node says, or else what is built in. -/
def SaysOr (Says : Node → α → Prop) (builtIn : α) : Option Node → α → Prop
  | some node, x => Says node x
  | none, x => x = builtIn

/-- A node is a mapping, and the texts of its keys are among the given ones. -/
def Node.HasKeys (node : Node) (Known : String → Prop) : Prop :=
  ∃ entries, node.entries? = some entries ∧
    ∀ e ∈ entries, ∃ name, e.1.text? = some name ∧ Known name

/-- What a node says as a record: its keys are names of fields, and each field has what is said
behind its name, or else its built-in value. -/
structure SaysRecord (fields : List (KnownField ρ)) (builtIn : ρ) (node : Node) (r : ρ) : Prop where
  keys : node.HasKeys fun name => ∃ f ∈ fields, f.name = name
  get : ∀ f ∈ fields, SaysOr f.Says (f.get builtIn) (node.value? f.name) (f.get r)

/-- What entries make of a record: a field has what is said behind its name, or what it had. -/
def FieldsSay (fields : List (KnownField ρ)) (entries : List (Node × Node)) (r r' : ρ) : Prop :=
  ∀ f ∈ fields, SaysOr f.Says (f.get r) (Node.valueIn? f.name entries) (f.get r')

theorem SaysOr.congr {Says : Node → α → Prop} {builtIn x : α} {node? node?' : Option Node}
    (h : Option.Rel Node.Rearranged node? node?')
    (hSays : ∀ node node', node? = some node → node.Rearranged node' →
      (Says node x ↔ Says node' x)) :
    SaysOr Says builtIn node? x ↔ SaysOr Says builtIn node?' x := by
  cases h with
  | none => exact Iff.rfl
  | some hnode => exact hSays _ _ rfl hnode

theorem Node.HasKeys.rearranged {node node' : Node} {Known : String → Prop}
    (h : node.Rearranged node') : node.HasKeys Known ↔ node'.HasKeys Known :=
  h.forall_entries_iff fun hkey _ => by rw [hkey.text?]

namespace LawfulRecord

variable {fields : List (KnownField ρ)}

theorem eq_of_name_eq (h : LawfulRecord fields) {f f' : KnownField ρ} (hf : f ∈ fields)
    (hf' : f' ∈ fields) (hname : f'.name = f.name) : f' = f :=
  List.inj_on_of_nodup_map h.nodup hf' hf hname

theorem find?_reader (h : LawfulRecord fields) {name : String} {field : RecordField ρ} :
    (fields.map KnownField.reader).find? (·.name = name) = some field ↔
      ∃ f ∈ fields, f.name = name ∧ f.reader = field := by
  have hmap : (fields.map KnownField.reader).find? (·.name = name) =
      (fields.find? (·.name = name)).map KnownField.reader :=
    List.find?_map
  rw [hmap, Option.map_eq_some_iff]
  constructor
  · rintro ⟨f, hfind, hfield⟩
    exact ⟨f, List.mem_of_find?_eq_some hfind, by simpa using List.find?_some hfind, hfield⟩
  · rintro ⟨f, hf, hname, hfield⟩
    refine ⟨f, ?_, hfield⟩
    cases hfind : fields.find? (·.name = name) with
    | none => exact absurd hname (by simpa using List.find?_eq_none.mp hfind f hf)
    | some f' =>
      have hname' : f'.name = name := by simpa using List.find?_some hfind
      rw [h.eq_of_name_eq hf (List.mem_of_find?_eq_some hfind) (hname'.trans hname.symm)]

/-- A record that may be mentioned is one field after the other: what is not mentioned, the record
itself or a field in it, is built in. -/
theorem saysOr_iff (h : LawfulRecord fields) {builtIn r : ρ} {node? : Option Node} :
    SaysOr (SaysRecord fields builtIn) builtIn node? r ↔
      (∀ node, node? = some node → node.HasKeys fun name => ∃ f ∈ fields, f.name = name) ∧
        ∀ f ∈ fields, SaysOr f.Says (f.get builtIn) (node?.bind (·.value? f.name)) (f.get r) := by
  cases node? with
  | none =>
    constructor
    · rintro rfl
      exact ⟨fun _ hnode => (nomatch hnode), fun f _ => rfl⟩
    · rintro ⟨-, hget⟩
      exact h.ext hget
  | some node =>
    constructor
    · rintro ⟨hkeys, hget⟩
      refine ⟨fun node' hnode => ?_, hget⟩
      obtain rfl := Option.some.inj hnode
      exact hkeys
    · rintro ⟨hkeys, hget⟩
      exact ⟨hkeys node rfl, hget⟩

/-- An entry in front sets its field, and the rest does not name this field again. -/
theorem fieldsSay_cons_iff (h : LawfulRecord fields) {f : KnownField ρ} (hf : f ∈ fields)
    {key value : Node} {rest : List (Node × Node)} {r r' : ρ} (hkey : key.text? = some f.name)
    (hnodup : (Node.keyTexts ((key, value) :: rest)).Nodup) :
    FieldsSay fields ((key, value) :: rest) r r' ↔
      ∃ x, f.Says value x ∧ FieldsSay fields rest (f.set r x) r' := by
  have hrest : Node.valueIn? f.name rest = none := by
    rw [Node.keyTexts_cons hkey] at hnodup
    exact Node.valueIn?_eq_none_iff.mpr (List.nodup_cons.mp hnodup).1
  -- The entry in front has no other name, and setting its field changes no other field.
  have hother : ∀ f' ∈ fields, f'.name ≠ f.name → ∀ x,
      (SaysOr f'.Says (f'.get r) (Node.valueIn? f'.name ((key, value) :: rest)) (f'.get r') ↔
        SaysOr f'.Says (f'.get (f.set r x)) (Node.valueIn? f'.name rest) (f'.get r')) := by
    intro f' hf' hne x
    have hne' : key.text? ≠ some f'.name := by
      rw [hkey]
      exact fun heq => hne (Option.some.inj heq).symm
    rw [Node.valueIn?_cons_of_ne hne', h.get_set_of_ne f hf f' hf' hne]
  constructor
  · intro hall
    have hself := hall f hf
    rw [Node.valueIn?_cons_self hkey] at hself
    refine ⟨f.get r', hself, fun f' hf' => ?_⟩
    by_cases hname : f'.name = f.name
    · obtain rfl := h.eq_of_name_eq hf hf' hname
      rw [hrest]
      exact (h.get_set f' hf r _).symm
    · exact (hother f' hf' hname _).mp (hall f' hf')
  · rintro ⟨x, hx, hall⟩ f' hf'
    by_cases hname : f'.name = f.name
    · obtain rfl := h.eq_of_name_eq hf hf' hname
      -- The rest does not mention the field, which so keeps what the entry in front has set.
      have hset := hall f' hf
      rw [hrest] at hset
      have hget : f'.get r' = x := hset.trans (h.get_set f' hf r x)
      rw [Node.valueIn?_cons_self hkey]
      show f'.Says value (f'.get r')
      rw [hget]
      exact hx
    · exact (hother f' hf' hname x).mpr (hall f' hf')

/-- A plain entry is read exactly if it says the value of a field that is not seen yet. -/
theorem readEntries_cons_plain_iff (h : LawfulRecord fields) {a : Anchors} {place : Place}
    {key value : Node} {rest : List (Node × Node)} {seen : List String} {r : ρ} {left : Nat}
    {s : ρ × Nat} (hkey : key.Plain) (hvalue : value.Plain) :
    readEntries (fields.map KnownField.reader) a place ((key, value) :: rest) seen r left = .ok s ↔
      ∃ f ∈ fields, key.text? = some f.name ∧ f.name ∉ seen ∧ ∃ x, f.Says value x ∧
        readEntries (fields.map KnownField.reader) a place rest (f.name :: seen) (f.set r x) left =
          .ok s := by
  rw [readEntries_cons_ok_iff]
  constructor
  · rintro ⟨name, leftName, field, r', left', hreadKey, hfind, hseen, hread, hrest⟩
    obtain ⟨hname, rfl⟩ := ((ReadsScalar.text _).ok_iff a place left hkey).mp hreadKey
    obtain ⟨f, hf, rfl, rfl⟩ := h.find?_reader.mp hfind
    obtain ⟨x, left'', hreadValue, hset⟩ := Reading.map_ok_iff.mp hread
    obtain ⟨hsaid, rfl⟩ := ((h.reads f hf).ok_iff a _ leftName hvalue).mp hreadValue
    obtain ⟨rfl, rfl⟩ := Prod.mk.inj hset
    exact ⟨f, hf, hname, hseen, x, hsaid, hrest⟩
  · rintro ⟨f, hf, hname, hseen, x, hsaid, hrest⟩
    refine ⟨f.name, left, f.reader, f.set r x, left, ?_, ?_, hseen, ?_, hrest⟩
    · exact ((ReadsScalar.text _).ok_iff a place left hkey).mpr ⟨hname, rfl⟩
    · exact h.find?_reader.mpr ⟨f, hf, rfl, rfl⟩
    · exact Reading.map_ok_iff.mpr
        ⟨x, left, ((h.reads f hf).ok_iff a _ left hvalue).mpr ⟨hsaid, rfl⟩, rfl⟩

/-- Entries are read exactly if their keys are known and not seen before; each field then has what
they say of it, and otherwise what it had. -/
theorem readEntries_ok_iff (h : LawfulRecord fields) {a : Anchors} {place : Place}
    {entries : List (Node × Node)} {seen : List String} {r : ρ} {left : Nat} {s : ρ × Nat}
    (hplain : Node.PlainEntries entries) (hnodup : (Node.keyTexts entries).Nodup)
    (hseen : ∀ name ∈ Node.keyTexts entries, name ∉ seen) :
    readEntries (fields.map KnownField.reader) a place entries seen r left = .ok s ↔
      (∀ e ∈ entries, ∃ name, e.1.text? = some name ∧ ∃ f ∈ fields, f.name = name) ∧
        FieldsSay fields entries r s.1 ∧ s.2 = left := by
  -- Each entry changes the record that the rest starts from, so this one is left general.
  induction entries generalizing seen r with
  | nil =>
    rw [readEntries, Reading.pure_ok_iff]
    constructor
    · rintro ⟨rfl, hleft⟩
      exact ⟨fun e he => (List.not_mem_nil he).elim, fun f _ => rfl, hleft⟩
    · -- No field is mentioned, and there is nothing in the record but its fields.
      rintro ⟨-, hsaid, hleft⟩
      exact ⟨h.ext fun f hf => (hsaid f hf).symm, hleft⟩
  | cons entry rest ih =>
    obtain ⟨key, value⟩ := entry
    obtain ⟨hkey, hvalue, hrestPlain⟩ := hplain
    -- The rest has other names than the one in front, which is seen when the rest is read.
    have hrest : ∀ {name : String}, key.text? = some name →
        (Node.keyTexts rest).Nodup ∧ ∀ name' ∈ Node.keyTexts rest, name' ∉ name :: seen := by
      intro name hname
      rw [Node.keyTexts_cons hname] at hnodup hseen
      refine ⟨(List.nodup_cons.mp hnodup).2, fun name' hmem hmem' => ?_⟩
      rcases List.mem_cons.mp hmem' with rfl | hmem'
      · exact (List.nodup_cons.mp hnodup).1 hmem
      · exact hseen name' (List.mem_cons_of_mem _ hmem) hmem'
    rw [h.readEntries_cons_plain_iff hkey hvalue, List.forall_mem_cons]
    constructor
    · rintro ⟨f, hf, hname, -, x, hsaid, hread⟩
      obtain ⟨hrestNodup, hrestSeen⟩ := hrest hname
      obtain ⟨hknown, hrestSaid, hleft⟩ := (ih hrestPlain hrestNodup hrestSeen).mp hread
      exact ⟨⟨⟨f.name, hname, f, hf, rfl⟩, hknown⟩,
        (h.fieldsSay_cons_iff hf hname hnodup).mpr ⟨x, hsaid, hrestSaid⟩, hleft⟩
    · rintro ⟨⟨⟨_, hname, f, hf, rfl⟩, hknown⟩, hall, hleft⟩
      obtain ⟨hrestNodup, hrestSeen⟩ := hrest hname
      obtain ⟨x, hsaid, hrestSaid⟩ := (h.fieldsSay_cons_iff hf hname hnodup).mp hall
      refine ⟨f, hf, hname, ?_, x, hsaid, ?_⟩
      · exact hseen f.name (Node.mem_keyTexts.mpr ⟨_, List.mem_cons_self, hname⟩)
      · exact (ih hrestPlain hrestNodup hrestSeen).mpr ⟨hknown, hrestSaid, hleft⟩

/-- **A record is read exactly if its keys are known; its fields then have what is said behind
their names, and else their built-in values.  The order of the entries does not matter.** -/
theorem reads_record (h : LawfulRecord fields) (expected : String) (builtIn : ρ) :
    Reads (fun a place node =>
      readRecord expected (fields.map KnownField.reader) a place node builtIn)
      (SaysRecord fields builtIn) where
  ok_iff := by
    intro a place node left s hnode
    rw [readRecord, Reading.locate_ok_iff, Reading.bind_ok_iff]
    constructor
    · rintro ⟨entries, left', htaken, hread⟩
      obtain ⟨hentries, rfl⟩ := (entriesOf_plain hnode).mp htaken
      obtain ⟨hnodup, hplain⟩ := hnode.entries? hentries
      obtain ⟨hknown, hget, hleft⟩ :=
        (h.readEntries_ok_iff hplain hnodup fun _ _ => List.not_mem_nil).mp hread
      refine ⟨⟨⟨entries, hentries, hknown⟩, fun f hf => ?_⟩, hleft⟩
      rw [Node.value?, hentries]
      exact hget f hf
    · rintro ⟨⟨⟨entries, hentries, hknown⟩, hget⟩, hleft⟩
      obtain ⟨hnodup, hplain⟩ := hnode.entries? hentries
      refine ⟨entries, left, (entriesOf_plain hnode).mpr ⟨hentries, rfl⟩, ?_⟩
      refine (h.readEntries_ok_iff hplain hnodup fun _ _ => List.not_mem_nil).mpr
        ⟨hknown, fun f hf => ?_, hleft⟩
      have hf := hget f hf
      rw [Node.value?, hentries] at hf
      exact hf
  rearranged := by
    intro node node' r hnode hrel
    have hget : ∀ f ∈ fields, (SaysOr f.Says (f.get builtIn) (node.value? f.name) (f.get r) ↔
        SaysOr f.Says (f.get builtIn) (node'.value? f.name) (f.get r)) := by
      intro f hf
      refine SaysOr.congr (hrel.value? hnode f.name) fun value value' hvalue hrel' => ?_
      exact (h.reads f hf).rearranged (hnode.value? hvalue) hrel'
    constructor
    · rintro ⟨hkeys, hsaid⟩
      exact ⟨(Node.HasKeys.rearranged hrel).mp hkeys, fun f hf => (hget f hf).mp (hsaid f hf)⟩
    · rintro ⟨hkeys, hsaid⟩
      exact ⟨(Node.HasKeys.rearranged hrel).mpr hkeys, fun f hf => (hget f hf).mpr (hsaid f hf)⟩

end LawfulRecord

end PeerOverlay.Yaml
