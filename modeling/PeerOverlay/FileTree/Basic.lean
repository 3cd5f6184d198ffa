/-
File trees.

A `FileTree` says for each location whether a directory, a file or a symbolic link is
there.  `get?` is the view of it; `put` sets one entry and `prune` removes one with all
that is below it.

Design notes: the tree is kept as a list of locations, because every statement about
what an operation leaves alone is a statement about locations.  Its two proof fields say
that each location occurs once and that its parent is a directory.
-/
import PeerOverlay.FileTree.Path

namespace PeerOverlay

/-- What stands at a location. -/
inductive Entry
  | directory
  | file (content : String)
  | link (target : Path)
deriving DecidableEq, Repr

/-- The names from the root down to an entry; the root has none. -/
abbrev Location := List Name

/-- The entry at a location of a list of entries; the root is a directory. -/
def entryAt (entries : List (Location × Entry)) (loc : Location) : Option Entry :=
  if loc = [] then some .directory
  else (entries.find? (·.1 = loc)).map Prod.snd

/-- A tree of directories, files and symbolic links. -/
structure FileTree where
  entries : List (Location × Entry)
  /-- The location at which relative paths start. -/
  workdir : Location
  distinct : (entries.map Prod.fst).Nodup
  rooted : ∀ e ∈ entries, e.1 ≠ [] ∧ entryAt entries e.1.dropLast = some .directory

namespace FileTree

/-- The tree that holds its root only. -/
def empty : FileTree :=
  ⟨[], [], List.nodup_nil, fun _ h => nomatch h⟩

/-- The entry at a location. -/
def get? (t : FileTree) (loc : Location) : Option Entry :=
  entryAt t.entries loc

@[simp] theorem get?_nil (t : FileTree) : t.get? [] = some .directory := by
  simp [get?, entryAt]

/-- Whether an entry may be set at a location: its parent is a directory, and a directory is
not replaced by anything else. -/
def Accepts (t : FileTree) (loc : Location) (e : Entry) : Prop :=
  loc ≠ [] ∧ t.get? loc.dropLast = some .directory ∧
    (t.get? loc = some .directory → e = .directory)

instance (t : FileTree) (loc : Location) (e : Entry) : Decidable (t.Accepts loc e) :=
  inferInstanceAs (Decidable (_ ∧ _ ∧ _))

/-- The entries with one set. -/
def setEntry (entries : List (Location × Entry)) (loc : Location) (e : Entry) :
    List (Location × Entry) :=
  (loc, e) :: entries.filter (·.1 ≠ loc)

theorem find?_filter_ne {entries : List (Location × Entry)} {loc loc' : Location}
    (h : loc' ≠ loc) :
    (entries.filter (·.1 ≠ loc)).find? (·.1 = loc') = entries.find? (·.1 = loc') := by
  induction entries with
  | nil => rfl
  | cons a rest ih =>
    by_cases h1 : a.1 = loc
    · have h2 : a.1 ≠ loc' := fun h2 => h (h2.symm.trans h1)
      rw [List.filter_cons_of_neg (by simpa using h1), List.find?_cons_of_neg (by simpa using h2)]
      exact ih
    · rw [List.filter_cons_of_pos (by simpa using h1)]
      by_cases h2 : a.1 = loc'
      · rw [List.find?_cons_of_pos (by simpa using h2), List.find?_cons_of_pos (by simpa using h2)]
      · rw [List.find?_cons_of_neg (by simpa using h2), List.find?_cons_of_neg (by simpa using h2)]
        exact ih

theorem entryAt_setEntry {entries : List (Location × Entry)} {loc loc' : Location} {e : Entry}
    (h : loc ≠ []) :
    entryAt (setEntry entries loc e) loc' =
      if loc' = loc then some e else entryAt entries loc' := by
  by_cases h' : loc' = loc
  · subst h'
    simp [entryAt, setEntry, h]
  · rw [if_neg h', entryAt, entryAt, setEntry,
      List.find?_cons_of_neg (by simpa using fun hl => h' hl.symm), find?_filter_ne h']

theorem dropLast_ne_self {loc : Location} (h : loc ≠ []) : loc.dropLast ≠ loc := fun hl => by
  have hlen := congrArg List.length hl
  have := List.length_pos_iff.2 h
  rw [List.length_dropLast] at hlen
  omega

/-- Sets the entry at a location that accepts it; elsewhere the tree stays as it is. -/
def put (t : FileTree) (loc : Location) (e : Entry) : FileTree :=
  if h : t.Accepts loc e then
    { entries := setEntry t.entries loc e
      workdir := t.workdir
      distinct := by
        rw [setEntry, List.map_cons, List.nodup_cons]
        refine ⟨fun hm => ?_, (t.distinct.sublist (List.filter_sublist.map _))⟩
        obtain ⟨a, ha, rfl⟩ := List.mem_map.1 hm
        simpa using (List.mem_filter.1 ha).2
      rooted := by
        intro a ha
        rw [entryAt_setEntry h.1]
        rcases List.mem_cons.1 ha with rfl | ha
        · exact ⟨h.1, by rw [if_neg (dropLast_ne_self h.1)]; exact h.2.1⟩
        · obtain ⟨hne, hdir⟩ := t.rooted a (List.mem_filter.1 ha).1
          refine ⟨hne, ?_⟩
          split
          next heq => rw [h.2.2 (heq ▸ hdir)]
          next => exact hdir }
  else t

theorem get?_put {t : FileTree} {loc loc' : Location} {e : Entry} (h : t.Accepts loc e) :
    (t.put loc e).get? loc' = if loc' = loc then some e else t.get? loc' := by
  rw [put, dif_pos h]
  exact entryAt_setEntry h.1

/-- The entries that are neither at a location nor below it. -/
def outside (entries : List (Location × Entry)) (loc : Location) : List (Location × Entry) :=
  entries.filter fun e => !loc.isPrefixOf e.1

theorem entryAt_outside {entries : List (Location × Entry)} {loc loc' : Location}
    (h : loc' ≠ []) :
    entryAt (outside entries loc) loc' =
      if loc.isPrefixOf loc' then none else entryAt entries loc' := by
  rw [entryAt, entryAt, if_neg h, if_neg h, outside]
  induction entries with
  | nil => simp
  | cons a rest ih =>
    by_cases h1 : loc.isPrefixOf a.1 = true
    · rw [List.filter_cons_of_neg (by simp [h1]), ih]
      split
      · rfl
      next h2 =>
        rw [List.find?_cons_of_neg]
        simpa using fun heq : a.1 = loc' => h2 (heq ▸ h1)
    · rw [List.filter_cons_of_pos (by simp [h1])]
      by_cases h2 : a.1 = loc'
      · rw [List.find?_cons_of_pos (by simpa using h2), List.find?_cons_of_pos (by simpa using h2),
          if_neg (h2 ▸ h1)]
      · rw [List.find?_cons_of_neg (by simpa using h2), List.find?_cons_of_neg (by simpa using h2)]
        exact ih

/-- Removes the entry at a location with everything below it. -/
def prune (t : FileTree) (loc : Location) : FileTree where
  entries := outside t.entries loc
  workdir := t.workdir
  distinct := t.distinct.sublist (List.filter_sublist.map _)
  rooted := by
    intro a ha
    obtain ⟨hm, hout⟩ := List.mem_filter.1 ha
    obtain ⟨hne, hdir⟩ := t.rooted a hm
    refine ⟨hne, ?_⟩
    by_cases hroot : a.1.dropLast = []
    · simp [entryAt, hroot]
    · rw [entryAt_outside hroot, if_neg, hdir]
      intro hpre
      have hpre' : loc <+: a.1 :=
        (List.isPrefixOf_iff_prefix.1 hpre).trans (List.dropLast_prefix _)
      rw [List.isPrefixOf_iff_prefix.2 hpre'] at hout
      exact nomatch hout

theorem get?_prune {t : FileTree} {loc loc' : Location} (h : loc' ≠ []) :
    (t.prune loc).get? loc' = if loc.isPrefixOf loc' then none else t.get? loc' :=
  entryAt_outside h

/-- The name of an entry directly inside a directory. -/
def childName? (dir loc : Location) : Option Name :=
  match loc.getLast? with
  | some name => if loc.dropLast = dir then some name else none
  | none => none

/-- The names of the entries directly inside a directory, in ascending order. -/
def children (t : FileTree) (dir : Location) : List Name :=
  (t.entries.filterMap fun e => childName? dir e.1).mergeSort Name.le

end FileTree

end PeerOverlay
