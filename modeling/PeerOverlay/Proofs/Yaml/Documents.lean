/-
Documents that say the same in another order.

A `Plain` node has no alias in it, and no mapping in it has two keys of the same text, quoted or
not.  `Node.Rearranged` relates nodes that differ only in the order of entries inside mappings.
Then a name leads to the same value, up to the order inside it:

* `valueIn?_rearranged` — the values behind a name are rearranged of each other;
* `RearrangedEntries.map_perm` — the entries are the same up to their order;
* `RearrangedEntries.of_perm` — entries in any other order are a rearrangement.
-/
import Mathlib.Tactic.Common
import Mathlib.Data.List.Nodup
import PeerOverlay.Yaml.Document

namespace PeerOverlay.Yaml

namespace Node

/-- The text of a scalar. -/
def text? : Node → Option String
  | .scalar _ _ _ text => some text
  | _ => none

/-- Whether a node has nodes in it. -/
def isCollection : Node → Bool
  | .sequence _ _ _ | .mapping _ _ _ => true
  | _ => false

/-- The entries of a mapping; a plain scalar without text stands for a mapping without entries. -/
def entries? : Node → Option (List (Node × Node))
  | .mapping _ _ entries => some entries
  | .scalar _ _ .plain "" => some []
  | _ => none

/-- The value of the first entry whose key has a given text. -/
def valueIn? (name : String) (entries : List (Node × Node)) : Option Node :=
  (entries.find? (·.1.text? = some name)).map Prod.snd

/-- The value behind a key of a mapping. -/
def value? (name : String) (node : Node) : Option Node :=
  node.entries?.bind (valueIn? name)

/-- The texts of the keys. -/
def keyTexts (entries : List (Node × Node)) : List String :=
  entries.filterMap (·.1.text?)

mutual

/-- No alias stands in a node, and no key text is repeated in a mapping. -/
def Plain : Node → Prop
  | .scalar _ _ _ _ | .fault => True
  | .sequence _ _ items => PlainItems items
  | .mapping _ _ entries => (keyTexts entries).Nodup ∧ PlainEntries entries
  | .alias _ => False

/-- The items of a sequence are plain. -/
def PlainItems : List Node → Prop
  | [] => True
  | item :: rest => item.Plain ∧ PlainItems rest

/-- The keys and values of a mapping are plain. -/
def PlainEntries : List (Node × Node) → Prop
  | [] => True
  | (key, value) :: rest => key.Plain ∧ value.Plain ∧ PlainEntries rest

end

mutual

/-- Two nodes differ only in the order of entries inside mappings. -/
def Rearranged : Node → Node → Prop
  | .scalar anchor tag style text, node => node = .scalar anchor tag style text
  | .sequence anchor tag items, node =>
    ∃ items', node = .sequence anchor tag items' ∧ RearrangedItems items items'
  | .mapping anchor tag entries, node =>
    ∃ entries', node = .mapping anchor tag entries' ∧ RearrangedEntries entries entries'
  | .alias anchor, node => node = .alias anchor
  | .fault, node => node = .fault

/-- The items of two sequences are rearranged one by one. -/
def RearrangedItems : List Node → List Node → Prop
  | [], items => items = []
  | item :: rest, items =>
    ∃ item' rest', items = item' :: rest' ∧ item.Rearranged item' ∧ RearrangedItems rest rest'

/-- Each entry of a mapping stands somewhere in the other one. -/
def RearrangedEntries : List (Node × Node) → List (Node × Node) → Prop
  | [], entries => entries = []
  | (key, value) :: rest, entries =>
    ∃ front key' value' back, entries = front ++ (key', value') :: back ∧
      key.Rearranged key' ∧ value.Rearranged value' ∧ RearrangedEntries rest (front ++ back)

end

/-! ### Plain nodes -/

theorem Plain.of_mem {entries : List (Node × Node)} {e : Node × Node}
    (h : PlainEntries entries) (he : e ∈ entries) : e.1.Plain ∧ e.2.Plain := by
  induction entries with
  | nil => cases he
  | cons entry rest ih =>
    obtain ⟨hkey, hvalue, hrest⟩ := h
    rcases List.mem_cons.mp he with rfl | he
    · exact ⟨hkey, hvalue⟩
    · exact ih hrest he

theorem Plain.entries? {node : Node} {entries : List (Node × Node)} (h : node.Plain)
    (hentries : node.entries? = some entries) :
    (keyTexts entries).Nodup ∧ PlainEntries entries := by
  unfold Node.entries? at hentries
  split at hentries
  next =>
    obtain rfl := Option.some.inj hentries
    exact h
  next =>
    obtain rfl := Option.some.inj hentries
    exact ⟨List.nodup_nil, trivial⟩
  next => cases hentries

theorem mem_of_valueIn? {name : String} {entries : List (Node × Node)} {value : Node}
    (h : valueIn? name entries = some value) :
    ∃ key, (key, value) ∈ entries ∧ key.text? = some name := by
  obtain ⟨e, he, rfl⟩ := Option.map_eq_some_iff.mp h
  exact ⟨e.1, List.mem_of_find?_eq_some he, by simpa using List.find?_some he⟩

theorem Plain.valueIn? {name : String} {entries : List (Node × Node)} {value : Node}
    (h : PlainEntries entries) (hvalue : valueIn? name entries = some value) : value.Plain := by
  obtain ⟨key, hmem, -⟩ := mem_of_valueIn? hvalue
  exact (Plain.of_mem h hmem).2

theorem mem_keyTexts {name : String} {entries : List (Node × Node)} :
    name ∈ keyTexts entries ↔ ∃ e ∈ entries, e.1.text? = some name := by
  simp [keyTexts]

/-! ### Look-ups -/

section Lookup

variable {name : String} {entries front back rest : List (Node × Node)} {key value : Node}

theorem keyTexts_cons (h : key.text? = some name) :
    keyTexts ((key, value) :: rest) = name :: keyTexts rest :=
  List.filterMap_cons_some h

theorem valueIn?_cons_self (h : key.text? = some name) :
    valueIn? name ((key, value) :: rest) = some value := by
  rw [valueIn?, List.find?_cons_of_pos (by simpa using h)]
  rfl

theorem valueIn?_cons_of_ne (h : key.text? ≠ some name) :
    valueIn? name ((key, value) :: rest) = valueIn? name rest := by
  rw [valueIn?, List.find?_cons_of_neg (by simpa using h), valueIn?]

theorem valueIn?_append :
    valueIn? name (front ++ back) = (valueIn? name front).or (valueIn? name back) := by
  rw [valueIn?, List.find?_append, Option.map_or, valueIn?, valueIn?]

theorem valueIn?_eq_none_iff : valueIn? name entries = none ↔ name ∉ keyTexts entries := by
  rw [valueIn?, Option.map_eq_none_iff, List.find?_eq_none, mem_keyTexts]
  simp

end Lookup

/-! ### Rearranged nodes -/

theorem Rearranged.eq_of_not_collection {node node' : Node} (h : node.Rearranged node')
    (hc : node.isCollection = false) : node' = node := by
  cases node with
  | sequence => cases hc
  | mapping => cases hc
  | _ => exact h

theorem Rearranged.isCollection_eq {node node' : Node} (h : node.Rearranged node') :
    node'.isCollection = node.isCollection := by
  cases node with
  | sequence =>
    obtain ⟨_, rfl, -⟩ := h
    rfl
  | mapping =>
    obtain ⟨_, rfl, -⟩ := h
    rfl
  | _ => exact congrArg isCollection h

/-- What is none for collections is the same for rearranged nodes. -/
theorem Rearranged.congr {α : Type} {f : Node → Option α}
    (hf : ∀ node, node.isCollection = true → f node = none) {node node' : Node}
    (h : node.Rearranged node') : f node' = f node := by
  cases hc : node.isCollection with
  | true => rw [hf node hc, hf node' (h.isCollection_eq.trans hc)]
  | false => rw [h.eq_of_not_collection hc]

theorem text?_of_isCollection {node : Node} (h : node.isCollection = true) :
    node.text? = none := by
  cases node with
  | scalar => cases h
  | _ => rfl

theorem Rearranged.text? {node node' : Node} (h : node.Rearranged node') :
    node'.text? = node.text? :=
  h.congr fun _ => text?_of_isCollection

theorem Rearranged.entries? {node node' : Node} (h : node.Rearranged node') :
    (node.entries? = none ∧ node'.entries? = none) ∨
      ∃ entries entries', node.entries? = some entries ∧ node'.entries? = some entries' ∧
        RearrangedEntries entries entries' := by
  cases node with
  | mapping anchor tag entries =>
    obtain ⟨entries', rfl, hentries⟩ := h
    exact .inr ⟨entries, entries', rfl, rfl, hentries⟩
  | sequence =>
    obtain ⟨_, rfl, -⟩ := h
    exact .inl ⟨rfl, rfl⟩
  | scalar anchor tag style text =>
    obtain rfl : node' = .scalar anchor tag style text := h
    unfold Node.entries?
    split
    next heq => cases heq
    next => exact .inr ⟨[], [], rfl, rfl, rfl⟩
    next => exact .inl ⟨rfl, rfl⟩
  | _ =>
    obtain rfl : node' = _ := h
    exact .inl ⟨rfl, rfl⟩

/-- What does not see the order inside a key or a value is the same for all entries, up to their
order. -/
theorem RearrangedEntries.map_perm {β : Type} {g : Node × Node → β}
    (hg : ∀ {key key' value value' : Node}, key.Rearranged key' → value.Rearranged value' →
      g (key', value') = g (key, value))
    {entries entries' : List (Node × Node)} (h : RearrangedEntries entries entries') :
    (entries'.map g).Perm (entries.map g) := by
  induction entries generalizing entries' with
  | nil =>
    obtain rfl : entries' = [] := h
    exact .refl _
  | cons entry rest ih =>
    obtain ⟨key, value⟩ := entry
    obtain ⟨front, key', value', back, rfl, hkey, hvalue, hrest⟩ := h
    have hmiddle : ((front ++ (key', value') :: back).map g).Perm
        (((key', value') :: (front ++ back)).map g) :=
      List.perm_middle.map g
    rw [List.map_cons, hg hkey hvalue] at hmiddle
    exact hmiddle.trans ((ih hrest).cons _)

/-- A condition that does not see the order inside a key or a value holds of all entries of both
mappings or of neither. -/
theorem Rearranged.forall_entries_iff {P : Node × Node → Prop}
    (hP : ∀ {key key' value value' : Node}, key.Rearranged key' → value.Rearranged value' →
      (P (key', value') ↔ P (key, value)))
    {node node' : Node} (h : node.Rearranged node') :
    (∃ entries, node.entries? = some entries ∧ ∀ e ∈ entries, P e) ↔
      ∃ entries, node'.entries? = some entries ∧ ∀ e ∈ entries, P e := by
  rcases h.entries? with ⟨hnode, hnode'⟩ | ⟨entries, entries', hnode, hnode', hentries⟩
  · rw [hnode, hnode']
  · have hperm := hentries.map_perm (g := P) fun hkey hvalue => propext (hP hkey hvalue)
    have hall : ∀ l : List (Node × Node), (∀ e ∈ l, P e) ↔ ∀ p ∈ l.map P, p := by
      intro l
      rw [List.forall_mem_map]
    simp only [hnode, hnode', Option.some.injEq, exists_eq_left', hall, hperm.mem_iff]

theorem RearrangedEntries.keyTexts_perm {entries entries' : List (Node × Node)}
    (h : RearrangedEntries entries entries') : (keyTexts entries').Perm (keyTexts entries) := by
  have hperm := h.map_perm (g := fun e => e.1.text?) fun hkey _ => hkey.text?
  simpa [keyTexts, List.filterMap_map, Function.comp_def] using hperm.filterMap id

/-- The values behind a name are rearranged of each other: no other entry has the name. -/
theorem valueIn?_rearranged {entries entries' : List (Node × Node)}
    (h : RearrangedEntries entries entries') (hnodup : (keyTexts entries).Nodup) (name : String) :
    Option.Rel Rearranged (valueIn? name entries) (valueIn? name entries') := by
  induction entries generalizing entries' with
  | nil =>
    obtain rfl : entries' = [] := h
    exact .none
  | cons entry rest ih =>
    obtain ⟨key, value⟩ := entry
    -- The entry stands somewhere in the other mapping; which keys there are is the same.
    have hall := h.keyTexts_perm
    obtain ⟨front, key', value', back, rfl, hkey, hvalue, hrest⟩ := h
    have hrestNodup : (keyTexts rest).Nodup :=
      hnodup.sublist ((List.sublist_cons_self _ _).filterMap _)
    by_cases hname : key.text? = some name
    · -- The entry has the name, so none in front of its new place has it.
      have hname' : key'.text? = some name := hkey.text?.trans hname
      have hfront : valueIn? name front = none := by
        rw [valueIn?_eq_none_iff]
        intro hmem
        have hnodup' : (keyTexts front ++ name :: keyTexts back).Nodup := by
          simpa [keyTexts, hname'] using hall.nodup_iff.mpr hnodup
        exact (List.nodup_append.mp hnodup').2.2 name hmem name List.mem_cons_self rfl
      rw [valueIn?_cons_self hname, valueIn?_append, hfront, Option.none_or,
        valueIn?_cons_self hname']
      exact .some hvalue
    · have hname' : key'.text? ≠ some name := by
        rw [hkey.text?]
        exact hname
      rw [valueIn?_cons_of_ne hname, valueIn?_append, valueIn?_cons_of_ne hname',
        ← valueIn?_append]
      exact ih hrest hrestNodup

theorem Rearranged.value? {node node' : Node} (h : node.Rearranged node')
    (hplain : node.Plain) (name : String) :
    Option.Rel Rearranged (node.value? name) (node'.value? name) := by
  rw [Node.value?, Node.value?]
  rcases h.entries? with ⟨hnode, hnode'⟩ | ⟨entries, entries', hnode, hnode', hrel⟩
  · rw [hnode, hnode']
    exact .none
  · rw [hnode, hnode']
    exact valueIn?_rearranged hrel (hplain.entries? hnode).1 name

theorem Plain.value? {node value : Node} {name : String} (h : node.Plain)
    (hvalue : node.value? name = some value) : value.Plain := by
  obtain ⟨entries, hentries, hvalue⟩ := Option.bind_eq_some_iff.mp hvalue
  exact Plain.valueIn? (h.entries? hentries).2 hvalue

/-- What is none for collections is the same behind a name. -/
theorem Rearranged.bind_value? {α : Type} {f : Node → Option α}
    (hf : ∀ node : Node, node.isCollection = true → f node = none) {node node' : Node}
    (h : node.Rearranged node') (hplain : node.Plain) (name : String) :
    (node'.value? name).bind f = (node.value? name).bind f := by
  have hvalue := h.value? hplain name
  generalize node.value? name = value? at hvalue ⊢
  generalize node'.value? name = value?' at hvalue ⊢
  cases hvalue with
  | none => rfl
  | some hrel => exact hrel.congr hf

mutual

theorem Rearranged.refl : (node : Node) → node.Rearranged node
  | .scalar _ _ _ _ | .alias _ | .fault => rfl
  | .sequence _ _ items => ⟨items, rfl, RearrangedItems.refl items⟩
  | .mapping _ _ entries => ⟨entries, rfl, RearrangedEntries.refl entries⟩

theorem RearrangedItems.refl : (items : List Node) → RearrangedItems items items
  | [] => rfl
  | item :: rest => ⟨item, rest, rfl, Rearranged.refl item, RearrangedItems.refl rest⟩

theorem RearrangedEntries.refl : (entries : List (Node × Node)) → RearrangedEntries entries entries
  | [] => rfl
  | (key, value) :: rest =>
    ⟨[], key, value, rest, rfl, Rearranged.refl key, Rearranged.refl value,
      RearrangedEntries.refl rest⟩

end

/-- Entries in any other order are a rearrangement. -/
theorem RearrangedEntries.of_perm {entries entries' : List (Node × Node)}
    (h : entries.Perm entries') : RearrangedEntries entries entries' := by
  induction entries generalizing entries' with
  | nil => exact h.nil_eq.symm
  | cons entry rest ih =>
    obtain ⟨front, back, rfl⟩ := List.append_of_mem (h.subset List.mem_cons_self)
    refine ⟨front, entry.1, entry.2, back, rfl, .refl _, .refl _, ih ?_⟩
    exact List.Perm.cons_inv (h.trans List.perm_middle)

end Node

namespace Document

/-- The content of a document, which is nothing if it has none. -/
def content (d : Document) : Node :=
  d.root.getD .empty

/-- Two documents differ only in the order of entries inside mappings. -/
structure Rearranged (d d' : Document) : Prop where
  content : d.content.Rearranged d'.content
  closed : d'.closed = d.closed

end Document

end PeerOverlay.Yaml
