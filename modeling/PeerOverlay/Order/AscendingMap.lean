/-
Finite maps in ascending key order.

An `AscendingMap κ ν` is an association list whose keys strictly ascend, so it
holds at most one entry a key and lists its entries in one order.  Insertion
replaces the entry of its key: `get?_insert`.  A map of entries with different keys holds
just these: `entries_ofList_perm`.  Two maps with the same look-ups are one: `ext_get?`.
-/
namespace PeerOverlay

/-- A type whose values can be sorted: of two different ones, one stands before the other. -/
class KeyOrder (κ : Type) [LT κ] : Prop where
  irrefl : ∀ a : κ, ¬a < a
  trans : ∀ {a b c : κ}, a < b → b < c → a < c
  eq_of_not_lt : ∀ {a b : κ}, ¬a < b → ¬b < a → a = b

instance : KeyOrder Nat where
  irrefl := Nat.lt_irrefl
  trans := Nat.lt_trans
  eq_of_not_lt := by omega

instance : KeyOrder String where
  irrefl := String.lt_irrefl
  trans := String.lt_trans
  eq_of_not_lt h h' := String.le_antisymm (String.not_lt.1 h') (String.not_lt.1 h)

/-- A finite map whose entries stand in strictly ascending key order. -/
structure AscendingMap (κ ν : Type) [LT κ] where
  entries : List (κ × ν)
  ascending : entries.Pairwise fun a b => a.1 < b.1

namespace AscendingMap

variable {κ ν : Type} [LT κ]

/-- The map without entries. -/
def empty : AscendingMap κ ν :=
  ⟨[], List.Pairwise.nil⟩

/-- The keys, in ascending order. -/
def keys (m : AscendingMap κ ν) : List κ :=
  m.entries.map Prod.fst

theorem nodup_keys [KeyOrder κ] (m : AscendingMap κ ν) : m.keys.Nodup := by
  refine List.pairwise_map.mpr (m.ascending.imp fun {a b} (hlt : a.1 < b.1) => ?_)
  intro heq
  rw [heq] at hlt
  exact KeyOrder.irrefl b.1 hlt

/-- How many keys the map holds. -/
def size (m : AscendingMap κ ν) : Nat :=
  m.entries.length

section Lookup

variable [DecidableEq κ]

/-- The value at a key. -/
def get? (m : AscendingMap κ ν) (k : κ) : Option ν :=
  (m.entries.find? (·.1 = k)).map Prod.snd

theorem mem_entries_of_get? {m : AscendingMap κ ν} {k : κ} {v : ν} (h : m.get? k = some v) :
    (k, v) ∈ m.entries := by
  obtain ⟨e, he, rfl⟩ := Option.map_eq_some_iff.1 h
  have hk : e.1 = k := by simpa using List.find?_some he
  exact hk ▸ List.mem_of_find?_eq_some he

theorem get?_of_mem_entries [KeyOrder κ] {m : AscendingMap κ ν} {e : κ × ν}
    (h : e ∈ m.entries) : m.get? e.1 = some e.2 := by
  obtain ⟨entries, ascending⟩ := m
  have h : e ∈ entries := h
  rw [get?]
  induction entries with
  | nil => cases h
  | cons a rest ih =>
    obtain ⟨ha, hrest⟩ := List.pairwise_cons.1 ascending
    rcases List.mem_cons.1 h with rfl | h
    · rw [List.find?_cons_of_pos (by simp)]
      rfl
    · -- Keys ascend, so the first entry has another key.
      have hne : a.1 ≠ e.1 := fun heq => KeyOrder.irrefl e.1 (heq ▸ ha e h)
      rw [List.find?_cons_of_neg (by simpa using hne)]
      exact ih hrest h h

theorem mem_entries_iff [KeyOrder κ] {m : AscendingMap κ ν} {e : κ × ν} :
    e ∈ m.entries ↔ m.get? e.1 = some e.2 :=
  ⟨get?_of_mem_entries, mem_entries_of_get?⟩

theorem mem_keys_iff [KeyOrder κ] {m : AscendingMap κ ν} {k : κ} :
    k ∈ m.keys ↔ (m.get? k).isSome = true := by
  rw [keys, List.mem_map, Option.isSome_iff_exists]
  constructor
  · rintro ⟨e, he, rfl⟩
    exact ⟨e.2, get?_of_mem_entries he⟩
  · rintro ⟨v, hv⟩
    exact ⟨(k, v), mem_entries_of_get? hv, rfl⟩

/-- Maps with the same look-ups are equal: their keys ascend in one way only. -/
theorem ext_get? [KeyOrder κ] {m m' : AscendingMap κ ν} (h : ∀ k, m.get? k = m'.get? k) :
    m = m' := by
  have hnodup : ∀ m : AscendingMap κ ν, m.entries.Nodup := fun m =>
    m.ascending.imp fun {a b} (hlt : a.1 < b.1) heq => KeyOrder.irrefl b.1 (heq ▸ hlt)
  have hperm : m.entries.Perm m'.entries := by
    refine (List.perm_ext_iff_of_nodup (hnodup m) (hnodup m')).mpr fun e => ?_
    rw [mem_entries_iff, mem_entries_iff, h]
  have hentries : m.entries = m'.entries := by
    refine hperm.eq_of_pairwise (fun a b _ _ hab hba => ?_) m.ascending m'.ascending
    exact absurd (KeyOrder.trans hab hba) (KeyOrder.irrefl a.1)
  cases m
  cases m'
  cases hentries
  rfl

end Lookup

section Insert

variable [DecidableEq κ] [DecidableLT κ]

/-- Puts an entry before the first greater key, in place of an equal one. -/
def insertEntry (k : κ) (v : ν) : List (κ × ν) → List (κ × ν)
  | [] => [(k, v)]
  | e :: rest =>
    if k < e.1 then (k, v) :: e :: rest
    else if k = e.1 then (k, v) :: rest
    else e :: insertEntry k v rest

theorem mem_insertEntry {k : κ} {v : ν} {l : List (κ × ν)} {e : κ × ν}
    (h : e ∈ insertEntry k v l) : e = (k, v) ∨ e ∈ l := by
  induction l with
  | nil => simpa [insertEntry] using h
  | cons a rest ih =>
    simp only [insertEntry] at h
    split at h
    · simpa using h
    · split at h
      · rcases List.mem_cons.1 h with h | h
        · exact .inl h
        · exact .inr (List.mem_cons_of_mem _ h)
      · rcases List.mem_cons.1 h with h | h
        · exact .inr (h ▸ List.mem_cons_self)
        · exact (ih h).imp_right (List.mem_cons_of_mem _)

theorem find?_insertEntry (k k' : κ) (v : ν) (l : List (κ × ν)) :
    (insertEntry k v l).find? (·.1 = k') =
      if k = k' then some (k, v) else l.find? (·.1 = k') := by
  induction l with
  | nil => by_cases h : k = k' <;> simp [insertEntry, h]
  | cons a rest ih =>
    simp only [insertEntry]
    split
    · by_cases h : k = k' <;> simp [h]
    · split
      next h => by_cases h' : k = k' <;> simp [h', ← h]
      next h =>
        by_cases h' : a.1 = k'
        · simp [h', h' ▸ h]
        · simp [h', ih]

variable [KeyOrder κ]

theorem pairwise_insertEntry (k : κ) (v : ν) {l : List (κ × ν)}
    (h : l.Pairwise fun a b => a.1 < b.1) :
    (insertEntry k v l).Pairwise fun a b => a.1 < b.1 := by
  induction l with
  | nil => simp [insertEntry]
  | cons e rest ih =>
    obtain ⟨he, hr⟩ := List.pairwise_cons.1 h
    simp only [insertEntry]
    split
    next hlt =>
      refine List.pairwise_cons.2 ⟨fun a ha => ?_, h⟩
      rcases List.mem_cons.1 ha with rfl | ha
      · exact hlt
      · exact KeyOrder.trans hlt (he a ha)
    next hlt =>
      split
      next heq => exact List.pairwise_cons.2 ⟨fun a ha => heq ▸ he a ha, hr⟩
      next hne =>
        refine List.pairwise_cons.2 ⟨fun a ha => ?_, ih hr⟩
        rcases mem_insertEntry ha with rfl | ha
        · exact Classical.byContradiction fun hgt => hne (KeyOrder.eq_of_not_lt hlt hgt)
        · exact he a ha

/-- Sets the value at a key. -/
def insert (m : AscendingMap κ ν) (k : κ) (v : ν) : AscendingMap κ ν :=
  ⟨insertEntry k v m.entries, pairwise_insertEntry k v m.ascending⟩

@[simp] theorem get?_insert (m : AscendingMap κ ν) (k k' : κ) (v : ν) :
    (m.insert k v).get? k' = if k = k' then some v else m.get? k' := by
  rw [get?, insert, find?_insertEntry]
  split <;> rfl

/-- Values at different keys can be set in either order. -/
theorem insert_comm (m : AscendingMap κ ν) {k k' : κ} (v v' : ν) (h : k ≠ k') :
    (m.insert k v).insert k' v' = (m.insert k' v').insert k v := by
  refine ext_get? fun k'' => ?_
  simp only [get?_insert]
  by_cases hk : k = k''
  · rw [if_pos hk, if_pos hk, if_neg (hk ▸ h.symm)]
  · rw [if_neg hk, if_neg hk]

/-- The map of a list of entries; a later entry replaces an earlier one of its key. -/
def ofList (l : List (κ × ν)) : AscendingMap κ ν :=
  l.foldl (fun m e => m.insert e.1 e.2) empty

/-- Of the values set at a key one after the other, the last one counts. -/
theorem get?_foldl_insert {α : Type} (key : α → κ) (value : α → ν) (l : List α)
    (m : AscendingMap κ ν) (k : κ) :
    (l.foldl (fun m a => m.insert (key a) (value a)) m).get? k =
      ((l.reverse.find? (key · = k)).map value).or (m.get? k) := by
  induction l generalizing m with
  | nil => rfl
  | cons a rest ih =>
    rw [List.foldl_cons, ih, get?_insert, List.reverse_cons, List.find?_append, Option.map_or,
      Option.or_assoc]
    congr 1
    by_cases ha : key a = k <;> simp [ha]

theorem get?_ofList (l : List (κ × ν)) (k : κ) :
    (ofList l).get? k = (l.reverse.find? (·.1 = k)).map Prod.snd := by
  rw [ofList, get?_foldl_insert]
  exact Option.or_none

omit [KeyOrder κ] in
theorem insertEntry_perm {k : κ} {v : ν} {l : List (κ × ν)} (hk : k ∉ l.map Prod.fst) :
    (insertEntry k v l).Perm ((k, v) :: l) := by
  induction l with
  | nil => exact .refl _
  | cons e rest ih =>
    simp only [List.map_cons, List.mem_cons, not_or] at hk
    simp only [insertEntry, if_neg hk.1]
    split
    · exact .refl _
    · exact ((ih hk.2).cons e).trans (.swap (k, v) e rest)

theorem foldl_insert_perm {m : AscendingMap κ ν} {l : List (κ × ν)}
    (h : (m.keys ++ l.map Prod.fst).Nodup) :
    (l.foldl (fun m e => m.insert e.1 e.2) m).entries.Perm (m.entries ++ l) := by
  induction l generalizing m with
  | nil => simp
  | cons e rest ih =>
    -- The new key comes to stand somewhere among the old ones.
    have hkey : e.1 ∉ m.keys := by
      intro hmem
      exact (List.nodup_append.mp h).2.2 e.1 hmem e.1 List.mem_cons_self rfl
    have hinsert : (m.insert e.1 e.2).entries.Perm (e :: m.entries) := insertEntry_perm hkey
    have hmiddle : ((m.insert e.1 e.2).entries ++ rest).Perm (m.entries ++ e :: rest) :=
      (hinsert.append_right rest).trans List.perm_middle.symm
    refine (ih ?_).trans hmiddle
    have hkeys := (hmiddle.map Prod.fst).nodup_iff.mpr (by simpa [keys] using h)
    simpa [keys] using hkeys

/-- A map of entries whose keys differ has these entries and no others. -/
theorem entries_ofList_perm {l : List (κ × ν)} (h : (l.map Prod.fst).Nodup) :
    (ofList l).entries.Perm l := by
  simpa [ofList, empty] using foldl_insert_perm (m := empty) (by simpa [keys, empty] using h)

end Insert

end AscendingMap

end PeerOverlay
