/-
The views of the node settings.

Settings are made by setting keys to values, one after the other.  Each view scans what was set
and the layout in its own way; together they split the keys that were set by who writes them:

* `NodeSettings.value?_eq_some_iff` — the text of a setting is that of a given value, or else
  the built-in one;
* `NodeSettings.mem_resolved_iff`, `NodeSettings.nodup_resolved` — the resolved settings are
  those of the layout and the extra ones, each key once;
* `NodeSettings.set_comm` — keys can be set in any order, as long as each keeps its last value;
* `NodeSettings.shows_ofList` — the views together, for any calls.
-/
import Mathlib.Data.List.Nodup
import Mathlib.Tactic.Common
import PeerOverlay.Artifact.Settings

namespace PeerOverlay

variable {s : NodeSettings} {key v : String}

/-! ### Keys of the layout -/

theorem nodup_staticKeys : staticKeys.Nodup := by
  decide +kernel

theorem not_mem_reservedKeys_of_mem_staticSettings :
    ∀ e ∈ staticSettings, e.1 ∉ reservedKeys := by
  decide +kernel

theorem not_mem_reservedKeys_of_mem_staticKeys (h : key ∈ staticKeys) : key ∉ reservedKeys := by
  obtain ⟨e, he, rfl⟩ := List.mem_map.mp h
  exact not_mem_reservedKeys_of_mem_staticSettings e he

theorem mem_staticSettings_iff {key value : String} :
    (key, value) ∈ staticSettings ↔ LayoutLine.static key value ∈ nodeLayout := by
  rw [staticSettings, List.mem_filterMap]
  constructor
  · rintro ⟨line, hline, heq⟩
    cases line with
    | static k v =>
      obtain ⟨rfl, rfl⟩ := Prod.mk.inj (Option.some.inj heq)
      exact hline
    | comment | perNode => cases heq
  · intro h
    exact ⟨_, h, rfl⟩

/-- A key has one built-in value at most. -/
theorem find?_staticSettings_eq_some_iff :
    (staticSettings.find? (·.1 = key)).map Prod.snd = some v ↔ (key, v) ∈ staticSettings := by
  constructor
  · intro h
    obtain ⟨e, he, rfl⟩ := Option.map_eq_some_iff.mp h
    have hkey : e.1 = key := by simpa using List.find?_some he
    exact hkey ▸ List.mem_of_find?_eq_some he
  · intro h
    obtain ⟨e, he⟩ : ∃ e, staticSettings.find? (·.1 = key) = some e :=
      Option.isSome_iff_exists.mp (List.find?_isSome.mpr ⟨_, h, by simp⟩)
    have hkey : e.1 = key := by simpa using List.find?_some he
    rw [he, List.inj_on_of_nodup_map nodup_staticKeys (List.mem_of_find?_eq_some he) h hkey]
    rfl

namespace NodeSettings

/-! ### Texts of settings -/

/-- The text of a setting is that of a given value, or else the built-in one. -/
theorem value?_eq_some_iff :
    s.value? key = some v ↔
      (∃ x, s.given.get? key = some x ∧ v = x.shown) ∨
        s.given.get? key = none ∧ (key, v) ∈ staticSettings := by
  rw [value?]
  cases s.given.get? key with
  | some x => simp [eq_comm]
  | none => simp [← find?_staticSettings_eq_some_iff]

/-- A setting of the layout always has a text. -/
theorem value?_of_mem_staticSettings {builtIn : String} (h : (key, builtIn) ∈ staticSettings) :
    s.value? key = some (s.valueOr key builtIn) := by
  obtain ⟨v, hv⟩ : ∃ v, s.value? key = some v := by
    cases hgiven : s.given.get? key with
    | some x => exact ⟨_, value?_eq_some_iff.mpr (.inl ⟨x, hgiven, rfl⟩)⟩
    | none => exact ⟨_, value?_eq_some_iff.mpr (.inr ⟨hgiven, h⟩)⟩
  rw [valueOr, hv, Option.getD_some]

/-- A static setting is shown with a given value or with a built-in one. -/
theorem valueOr_eq (s : NodeSettings) {key builtIn : String}
    (h : (key, builtIn) ∈ staticSettings) :
    (∃ v, (key, v) ∈ s.given.entries ∧ s.valueOr key builtIn = v.shown) ∨
      (key, s.valueOr key builtIn) ∈ staticSettings := by
  rcases value?_eq_some_iff.mp (value?_of_mem_staticSettings h) with
    ⟨x, hgiven, hshown⟩ | ⟨-, hstatic⟩
  · exact .inl ⟨x, AscendingMap.mem_entries_of_get? hgiven, hshown⟩
  · exact .inr hstatic

theorem valueOr_of_mem_given {e : String × SettingValue} (h : e ∈ s.given.entries)
    (builtIn : String) : s.valueOr e.1 builtIn = e.2.shown := by
  rw [valueOr, value?, AscendingMap.get?_of_mem_entries h]
  rfl

/-! ### Extra and resolved settings -/

theorem mem_extra_iff {e : String × SettingValue} :
    e ∈ s.extra ↔ s.given.get? e.1 = some e.2 ∧ e.1 ∉ staticKeys ∧ e.1 ∉ reservedKeys := by
  rw [extra, List.mem_filter, AscendingMap.mem_entries_iff]
  simp

theorem map_fst_resolved (s : NodeSettings) :
    s.resolved.map Prod.fst = staticKeys ++ s.extra.map Prod.fst := by
  rw [resolved, List.map_append, List.map_map, List.map_map]
  rfl

/-- No two resolved settings have one key. -/
theorem nodup_resolved (s : NodeSettings) : (s.resolved.map Prod.fst).Nodup := by
  rw [map_fst_resolved, List.nodup_append]
  refine ⟨nodup_staticKeys, ?_, ?_⟩
  · exact s.given.nodup_keys.sublist (List.filter_sublist.map Prod.fst)
  · rintro key hkey key' hkey' rfl
    obtain ⟨e, he, rfl⟩ := List.mem_map.mp hkey'
    exact (mem_extra_iff.mp he).2.1 hkey

theorem mem_resolved_iff :
    (key, v) ∈ s.resolved ↔
      key ∈ staticKeys ∧ s.value? key = some v ∨ ∃ x, (key, x) ∈ s.extra ∧ v = x.shown := by
  rw [resolved, List.mem_append, List.mem_map, List.mem_map]
  refine or_congr ⟨?_, ?_⟩ ⟨?_, ?_⟩
  · rintro ⟨e, he, heq⟩
    obtain ⟨rfl, rfl⟩ := Prod.mk.inj heq
    exact ⟨List.mem_map_of_mem he, value?_of_mem_staticSettings he⟩
  · rintro ⟨hkey, hv⟩
    obtain ⟨e, he, rfl⟩ := List.mem_map.mp hkey
    refine ⟨e, he, ?_⟩
    rw [value?_of_mem_staticSettings he, Option.some_inj] at hv
    rw [hv]
  · rintro ⟨e, he, heq⟩
    obtain ⟨rfl, rfl⟩ := Prod.mk.inj heq
    exact ⟨e.2, he, rfl⟩
  · rintro ⟨x, hx, rfl⟩
    exact ⟨_, hx, rfl⟩

/-- A key that is not reserved has the text that it is resolved to. -/
theorem value?_eq_some_iff_mem_resolved (hkey : key ∉ reservedKeys) :
    s.value? key = some v ↔ (key, v) ∈ s.resolved := by
  rw [mem_resolved_iff]
  by_cases hstatic : key ∈ staticKeys
  · have hextra : ¬∃ x, (key, x) ∈ s.extra ∧ v = x.shown := fun ⟨x, hx, _⟩ =>
      (mem_extra_iff.mp hx).2.1 hstatic
    simp [hstatic, hextra]
  · have hnot : (key, v) ∉ staticSettings := fun h => hstatic (List.mem_map_of_mem h)
    rw [value?_eq_some_iff]
    simp [mem_extra_iff, hstatic, hkey, hnot]

theorem not_mem_resolved_of_mem_reservedKeys (hkey : key ∈ reservedKeys) :
    key ∉ s.resolved.map Prod.fst := by
  rw [map_fst_resolved, List.mem_append, not_or]
  refine ⟨fun hstatic => not_mem_reservedKeys_of_mem_staticKeys hstatic hkey, fun hextra => ?_⟩
  obtain ⟨e, he, rfl⟩ := List.mem_map.mp hextra
  exact (mem_extra_iff.mp he).2.2 hkey

/-! ### The kinds of given keys -/

/-- The given keys that the layout has a place for. -/
def replaced (s : NodeSettings) : List String :=
  s.given.keys.filter staticKeys.contains

theorem map_fst_extra (s : NodeSettings) :
    s.extra.map Prod.fst =
      s.given.keys.filter fun key => !staticKeys.contains key && !reservedKeys.contains key := by
  rw [extra, AscendingMap.keys, List.filter_map]
  rfl

/-- **A given key replaces a built-in value, is reserved, or is extra.** -/
theorem kinds_perm (s : NodeSettings) :
    (s.replaced ++ s.reserved ++ s.extra.map Prod.fst).Perm s.given.keys := by
  have hrest : s.extra.map Prod.fst =
      (s.given.keys.filter fun key => !staticKeys.contains key).filter
        fun key => !reservedKeys.contains key := by
    rw [map_fst_extra, List.filter_filter]
    exact List.filter_congr fun key _ => Bool.and_comm _ _
  -- A reserved key is no key of the layout, so taking those away first changes nothing.
  have hreserved : s.reserved =
      (s.given.keys.filter fun key => !staticKeys.contains key).filter reservedKeys.contains := by
    rw [reserved, List.filter_filter]
    refine List.filter_congr fun key _ => ?_
    by_cases hkey : key ∈ reservedKeys
    · have hstatic : key ∉ staticKeys := fun h => not_mem_reservedKeys_of_mem_staticKeys h hkey
      simp [hkey, hstatic]
    · simp [hkey]
  rw [replaced, hreserved, hrest, List.append_assoc]
  exact ((List.filter_append_perm _ _).append_left _).trans (List.filter_append_perm _ _)

/-! ### Setting keys one after the other -/

variable {calls : List (String × SettingValue)}

/-- The value that a key was last set to. -/
def lastSet? (calls : List (String × SettingValue)) (key : String) : Option SettingValue :=
  (calls.reverse.find? (·.1 = key)).map Prod.snd

theorem given_ofList (calls : List (String × SettingValue)) :
    (ofList calls).given = .ofList calls :=
  (List.foldl_hom given fun _ _ => rfl).symm

theorem get?_given_ofList (calls : List (String × SettingValue)) (key : String) :
    (ofList calls).given.get? key = lastSet? calls key := by
  rw [given_ofList, AscendingMap.get?_ofList, lastSet?]

theorem isSome_lastSet?_iff : (lastSet? calls key).isSome = true ↔ key ∈ calls.map Prod.fst := by
  simp [lastSet?]

/-- Setting different keys in either order gives the same settings. -/
theorem set_comm (s : NodeSettings) {e e' : String × SettingValue} (h : e.1 ≠ e'.1) :
    (s.set e.1 e.2).set e'.1 e'.2 = (s.set e'.1 e'.2).set e.1 e.2 :=
  congrArg NodeSettings.mk (s.given.insert_comm e.2 e'.2 h)

theorem ofList_exchange {front back : List (String × SettingValue)} {e e' : String × SettingValue}
    (h : e.1 ≠ e'.1) : ofList (front ++ e :: e' :: back) = ofList (front ++ e' :: e :: back) := by
  rw [ofList, ofList, List.foldl_append, List.foldl_append]
  simp only [List.foldl_cons, set_comm _ h]

/-- What the views show of settings made by the given calls. -/
structure Shows (s : NodeSettings) (calls : List (String × SettingValue)) : Prop where
  /-- The given keys are those that were set, each once. -/
  mem_given : ∀ key, key ∈ s.given.keys ↔ key ∈ calls.map Prod.fst
  nodup_given : s.given.keys.Nodup
  /-- They are of three kinds, and each is of one kind only. -/
  kinds : (s.replaced ++ s.reserved ++ s.extra.map Prod.fst).Perm s.given.keys
  mem_replaced : ∀ key, key ∈ s.replaced ↔ key ∈ calls.map Prod.fst ∧ key ∈ staticKeys
  mem_reserved : ∀ key, key ∈ s.reserved ↔ key ∈ calls.map Prod.fst ∧ key ∈ reservedKeys
  reserved_ascending : s.reserved.Pairwise (· < ·)
  /-- An extra key has the last value that it was set to. -/
  mem_extra : ∀ key x,
    (key, x) ∈ s.extra ↔ lastSet? calls key = some x ∧ key ∉ staticKeys ∧ key ∉ reservedKeys
  extra_ascending : (s.extra.map Prod.fst).Pairwise (· < ·)
  /-- The resolved settings are those of the layout in its order, then the extra ones. -/
  resolved_keys : s.resolved.map Prod.fst = staticKeys ++ s.extra.map Prod.fst
  nodup_resolved_keys : (s.resolved.map Prod.fst).Nodup
  not_resolved : ∀ key ∈ reservedKeys,
    key ∉ s.resolved.map Prod.fst ∧ key ∉ s.extra.map Prod.fst
  /-- The text of a setting is that of the last value, or else the built-in one. -/
  value : ∀ key v, s.value? key = some v ↔
    (∃ x, lastSet? calls key = some x ∧ v = x.shown) ∨
      lastSet? calls key = none ∧ LayoutLine.static key v ∈ nodeLayout
  value_resolved : ∀ key ∉ reservedKeys, ∀ v, s.value? key = some v ↔ (key, v) ∈ s.resolved

/-- **What the views show of any calls.**  Exchanging two calls next to each other that set
different keys gives the same settings, so it changes none of the views. -/
theorem shows_ofList (calls : List (String × SettingValue)) :
    (ofList calls).Shows calls ∧
      ∀ front back e e', calls = front ++ e :: e' :: back → e.1 ≠ e'.1 →
        ofList (front ++ e' :: e :: back) = ofList calls := by
  have hgiven : ∀ key, key ∈ (ofList calls).given.keys ↔ key ∈ calls.map Prod.fst := fun key => by
    rw [AscendingMap.mem_keys_iff, get?_given_ofList, isSome_lastSet?_iff]
  have hascending : (ofList calls).given.keys.Pairwise (· < ·) :=
    List.pairwise_map.mpr (ofList calls).given.ascending
  refine ⟨?_, ?_⟩
  · exact {
      mem_given := hgiven
      nodup_given := (ofList calls).given.nodup_keys
      kinds := kinds_perm _
      mem_replaced := fun key => by simp [replaced, hgiven]
      mem_reserved := fun key => by simp [reserved, hgiven]
      reserved_ascending := hascending.filter _
      mem_extra := fun key x => by rw [mem_extra_iff, get?_given_ofList]
      extra_ascending := by
        rw [map_fst_extra]
        exact hascending.filter _
      resolved_keys := map_fst_resolved _
      nodup_resolved_keys := nodup_resolved _
      not_resolved := fun key hkey => by
        have hnot := not_mem_resolved_of_mem_reservedKeys (s := ofList calls) hkey
        refine ⟨hnot, fun hextra => hnot ?_⟩
        rw [map_fst_resolved]
        exact List.mem_append_right _ hextra
      value := fun key v => by
        rw [value?_eq_some_iff, get?_given_ofList, mem_staticSettings_iff]
      value_resolved := fun key hkey v => value?_eq_some_iff_mem_resolved hkey }
  · rintro front back e e' rfl hne
    exact ofList_exchange hne.symm

/-- Two settings next to each other are exchanged, one of them set again later. -/
theorem shows_ofList_exchanged :
    (ofList [("MWM", .integer 3), ("LABEL", .bool true), ("API_PORT", .text "1"),
        ("MWM", .integer 5)]).Shows
      [("MWM", .integer 3), ("LABEL", .bool true), ("API_PORT", .text "1"), ("MWM", .integer 5)] ∧
    ofList [("LABEL", .bool true), ("MWM", .integer 3), ("API_PORT", .text "1"),
        ("MWM", .integer 5)] =
      ofList [("MWM", .integer 3), ("LABEL", .bool true), ("API_PORT", .text "1"),
        ("MWM", .integer 5)] :=
  ⟨(shows_ofList _).1, (shows_ofList _).2 [] _ _ _ rfl (by decide)⟩

end NodeSettings

end PeerOverlay
