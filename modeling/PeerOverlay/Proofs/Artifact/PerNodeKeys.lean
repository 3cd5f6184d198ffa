/-
Per-node keys in an INI artifact.

A run refuses settings whose key is a per-node key.  That keeps each per-node key to one
assignment only if the settings are quiet: a key or a value that holds line breaks, or a key
that holds ` = ` itself, is read back as other assignments than the one it was set as.
`NodeSettings.Quiet` says that none of those takes a per-node key, and
`perNode_keys_once_iff` that this is exactly when a reader finds each per-node key once, with
the value of the record.
-/
import PeerOverlay.Proofs.Artifact.Assignments
import PeerOverlay.Proofs.Artifact.Settings
import PeerOverlay.Proofs.Endpoint
import PeerOverlay.Proofs.Generation.Build

namespace PeerOverlay

open PeerOverlay.Text

/-! ### Values of records stand on one line -/

namespace Text

theorem oneLine_append {s t : String} (hs : OneLine s) (ht : OneLine t) : OneLine (s ++ t) := by
  intro c hc
  rw [String.toList_append] at hc
  exact (List.mem_append.mp hc).elim (hs c) (ht c)

theorem oneLine_numeral (n : Nat) : OneLine (String.ofList (numeral n)) := by
  intro c hc
  rw [String.toList_ofList] at hc
  have hdigit := isDigit_of_mem_numeral hc
  constructor <;> rintro rfl <;> exact absurd hdigit (by decide)

theorem oneLine_intercalate {mark : String} {parts : List String} (hmark : OneLine mark)
    (hparts : ∀ s ∈ parts, OneLine s) : OneLine (mark.intercalate parts) := by
  induction parts with
  | nil => exact fun _ hc => nomatch hc
  | cons s rest ih =>
    obtain ⟨hs, hrest⟩ := List.forall_mem_cons.mp hparts
    cases rest with
    | nil => rwa [String.intercalate_singleton]
    | cons t rest =>
      rw [String.intercalate_cons_cons]
      exact oneLine_append (oneLine_append hs hmark) (ih hrest)

end Text

theorem oneLine_feedAddress (index : UInt32) : OneLine (feedAddress index) :=
  oneLine_append (by decide) (oneLine_numeral _)

theorem Endpoint.oneLine_text {e : Endpoint} (h : Host.isValid e.host = true) :
    OneLine e.text := by
  intro c hc
  have hchar := forall_mem_text h c hc
  constructor <;> rintro rfl <;> exact absurd hchar (by decide)

variable {r : NodeRecord} {s : NodeSettings}

/-- All values of a record stand on one line if the hosts of its endpoints are accepted. -/
theorem NodeField.oneLine_value (h : ∀ e ∈ r.neighbors, Host.isValid e.host = true)
    (field : NodeField) : OneLine (field.value r) := by
  cases field with
  | apiPort | udpReceiverPort | tcpReceiverPort | zmqPort => exact oneLine_numeral _
  | zmqIpc => exact oneLine_feedAddress _
  | neighbors =>
    refine oneLine_intercalate (by decide) fun text htext => ?_
    obtain ⟨e, he, rfl⟩ := List.mem_map.mp htext
    exact Endpoint.oneLine_text (h e he)

/-! ### Quiet settings -/

/-- No assignment that a reader finds in a line of the settings takes a per-node key. -/
def NodeSettings.Quiet (s : NodeSettings) : Prop :=
  ∀ e ∈ s.given.entries, ∀ a ∈ lineAssignments (assignment e.1 e.2.shown), a.1 ∉ reservedKeys

instance (s : NodeSettings) : Decidable s.Quiet :=
  inferInstanceAs (Decidable (∀ e ∈ s.given.entries,
    ∀ a ∈ lineAssignments (assignment e.1 e.2.shown), a.1 ∉ reservedKeys))

namespace NodeField

theorem key_inj {f g : NodeField} : f.key = g.key ↔ f = g := by
  cases f <;> cases g <;> decide

theorem mem_reservedKeys (field : NodeField) : field.key ∈ reservedKeys := by
  cases field <;> decide

theorem exists_of_mem_reservedKeys {key : String} (h : key ∈ reservedKeys) :
    ∃ field : NodeField, field.key = key := by
  obtain ⟨field, -, hfield⟩ := List.mem_map.mp h
  exact ⟨field, hfield⟩

end NodeField

theorem oneLine_ofList {cs : List Char} (h : ∀ c ∈ cs, c ≠ '\n' ∧ c ≠ '\r') :
    OneLine (String.ofList cs) := by
  rwa [OneLine, String.toList_ofList]

theorem oneLine_staticSettings :
    ∀ e ∈ staticSettings, OneLine e.1 ∧ '=' ∉ e.1.toList ∧ OneLine e.2 := by
  have hsetting : ∀ key value : List Char,
      (key.all fun c => c ≠ '\n' ∧ c ≠ '\r' ∧ c ≠ '=') = true →
      (value.all fun c => c ≠ '\n' ∧ c ≠ '\r') = true →
        OneLine (String.ofList key) ∧ '=' ∉ (String.ofList key).toList ∧
          OneLine (String.ofList value) := by
    intro key value hkey hvalue
    simp only [List.all_eq_true, decide_eq_true_eq] at hkey hvalue
    refine ⟨oneLine_ofList fun c hc => ⟨(hkey c hc).1, (hkey c hc).2.1⟩, ?_,
      oneLine_ofList hvalue⟩
    rw [String.toList_ofList]
    exact fun hmem => (hkey _ hmem).2.2 rfl
  -- A literal is a list of characters already, which spares decoding its bytes.
  rw [← List.forall_iff_forall_mem, staticSettings, nodeLayout]
  simp only [List.filterMap, List.Forall]
  repeat' first | exact hsetting _ _ (by decide) (by decide) | apply And.intro

/-- A built-in setting is read back as it is written. -/
theorem lineAssignments_of_mem_staticSettings {e : String × String} (h : e ∈ staticSettings) :
    lineAssignments (assignment e.1 e.2) = [e] := by
  obtain ⟨hkey, hsign, hvalue⟩ := oneLine_staticSettings e h
  exact lineAssignments_assignment hkey hsign hvalue

/-- The field that a line of the layout is for. -/
def LayoutLine.field? : LayoutLine → Option NodeField
  | .perNode field => some field
  | _ => none

/-- What a reader finds of a field in a line that was written. -/
def found (field : NodeField) (line : String) : List (String × String) :=
  (lineAssignments line).filter (·.1 = field.key)

variable {field : NodeField}

theorem found_eq_nil {line : String} (h : ∀ a ∈ lineAssignments line, a.1 ∉ reservedKeys) :
    found field line = [] := by
  refine List.filter_eq_nil_iff.mpr fun a ha hkey => h a ha ?_
  rw [decide_eq_true_eq.mp hkey]
  exact field.mem_reservedKeys

/-- The line of a field is found for that field alone. -/
theorem found_perNode {own : NodeField} (hvalue : OneLine (own.value r)) :
    found field ((LayoutLine.perNode own).shown r s) =
      if own = field then [(field.key, field.value r)] else [] := by
  have hkey : OneLine own.key ∧ '=' ∉ own.key.toList := by
    cases own <;> decide
  rw [LayoutLine.shown, found, lineAssignments_assignment hkey.1 hkey.2 hvalue]
  by_cases hown : own = field
  · subst hown
    simp
  · rw [if_neg hown, List.filter_cons_of_neg (by simpa [NodeField.key_inj] using hown),
      List.filter_nil]

theorem found_header (node : NodeId) : found field (iniHeader node) = [] := by
  have hline : OneLine (iniHeader node) :=
    oneLine_append (oneLine_append (by decide) (oneLine_numeral _)) (by decide)
  have hsign : '=' ∉ (iniHeader node).toList := by
    intro hmem
    simp only [iniHeader, String.toList_append, List.mem_append, String.toList_ofList] at hmem
    rcases hmem with (hmem | hmem) | hmem
    · exact absurd hmem (by decide)
    · exact absurd (isDigit_of_mem_numeral hmem) (by decide)
    · exact absurd hmem (by decide)
  rw [found, lineAssignments_of_not_mem hline hsign, List.filter_nil]

/-! ### Lines of the layout -/

theorem lineAssignments_of_comment {text : String} (h : LayoutLine.comment text ∈ nodeLayout) :
    lineAssignments text = [] := by
  have htext : text = "#REMOTE_AUTH =" := by
    simpa [nodeLayout] using h
  subst htext
  decide +kernel

/-- In quiet settings a line of the layout is found only for the field that it is for. -/
theorem found_layoutLine (hvalues : ∀ own : NodeField, OneLine (own.value r)) (hquiet : s.Quiet)
    {line : LayoutLine} (hline : line ∈ nodeLayout) :
    found field (line.shown r s) =
      line.field?.toList.flatMap fun own =>
        if own = field then [(field.key, field.value r)] else [] := by
  cases line with
  | perNode own => simpa [LayoutLine.field?] using found_perNode (hvalues own)
  | comment text =>
    rw [LayoutLine.shown, found, lineAssignments_of_comment hline]
    rfl
  | static key builtIn =>
    refine found_eq_nil ?_
    rcases s.valueOr_eq (mem_staticSettings_iff.mpr hline) with ⟨v, hv, hshown⟩ | hstatic
    · rw [LayoutLine.shown, hshown]
      exact hquiet (key, v) hv
    · have hread := lineAssignments_of_mem_staticSettings hstatic
      have hkey := not_mem_reservedKeys_of_mem_staticSettings _ hstatic
      intro a ha
      rw [LayoutLine.shown, hread, List.mem_singleton] at ha
      rwa [ha]

/-! ### Artifacts -/

theorem assignments_filter_key (r : NodeRecord) (s : NodeSettings) (field : NodeField) :
    (assignments (iniText r s)).filter (·.1 = field.key) =
      nodeLayout.flatMap (fun line => found field (line.shown r s)) ++
        s.extra.flatMap fun e => found field (assignment e.1 e.2.shown) := by
  rw [assignments_iniText, List.filter_flatMap]
  simp only [iniLines, List.cons_append, List.flatMap_cons, List.flatMap_append,
    List.flatMap_map]
  have hheader : (lineAssignments (iniHeader r.node)).filter (·.1 = field.key) = [] :=
    found_header r.node
  rw [hheader, List.nil_append]
  rfl

/-- Quiet settings leave each per-node key to its own line. -/
theorem filter_key_of_quiet (hvalues : ∀ own : NodeField, OneLine (own.value r))
    (hquiet : s.Quiet) :
    (assignments (iniText r s)).filter (·.1 = field.key) = [(field.key, field.value r)] := by
  have hlayout : nodeLayout.flatMap (fun line => line.field?.toList) = NodeField.all := by
    decide
  have hextra : s.extra.flatMap (fun e => found field (assignment e.1 e.2.shown)) = [] := by
    refine List.flatMap_eq_nil_iff.mpr fun e he => found_eq_nil ?_
    exact hquiet e (List.mem_of_mem_filter he)
  rw [assignments_filter_key, hextra, List.append_nil,
    List.flatMap_congr fun line hline => found_layoutLine hvalues hquiet hline,
    ← List.flatMap_assoc, hlayout]
  cases field <;> rfl

/-! ### Settings that are not quiet -/

section Counting

variable {α β : Type} {l : List α} {f : α → List β} {a b : α}

theorem one_le_length_flatMap (ha : a ∈ l) (hfa : f a ≠ []) : 1 ≤ (l.flatMap f).length := by
  refine List.length_pos_iff.mpr fun hnil => hfa ?_
  exact List.flatMap_eq_nil_iff.mp hnil a ha

theorem two_le_length_flatMap [DecidableEq α] (hne : a ≠ b) (ha : a ∈ l) (hb : b ∈ l)
    (hfa : f a ≠ []) (hfb : f b ≠ []) : 2 ≤ (l.flatMap f).length := by
  have hrest : 1 ≤ ((l.erase a).flatMap f).length :=
    one_le_length_flatMap ((List.mem_erase_of_ne hne.symm).mpr hb) hfb
  have hfirst : 1 ≤ (f a).length := List.length_pos_iff.mpr hfa
  have hperm := ((List.perm_cons_erase ha).flatMap_right f).length_eq
  rw [List.flatMap_cons, List.length_append] at hperm
  omega

end Counting

theorem not_mem_reservedKeys_of_given (hreserved : s.reserved = []) {e : String × SettingValue}
    (he : e ∈ s.given.entries) : e.1 ∉ reservedKeys := by
  intro hmem
  have hnot := List.filter_eq_nil_iff.mp hreserved e.1 (List.mem_map_of_mem he)
  exact hnot (by simpa using hmem)

/-- The line of a given setting stands among the lines of the artifact, beside the line of
any field. -/
theorem two_le_length_filter_key (hreserved : s.reserved = []) {e : String × SettingValue}
    (he : e ∈ s.given.entries) (hown : found field ((LayoutLine.perNode field).shown r s) ≠ [])
    (hfound : found field (assignment e.1 e.2.shown) ≠ []) :
    2 ≤ ((assignments (iniText r s)).filter (·.1 = field.key)).length := by
  have hline : LayoutLine.perNode field ∈ nodeLayout := by
    cases field <;> decide
  rw [assignments_filter_key, List.length_append]
  by_cases hstatic : e.1 ∈ staticKeys
  · obtain ⟨⟨key, builtIn⟩, hbuiltIn, hkey⟩ := List.mem_map.mp hstatic
    have hkey : key = e.1 := hkey
    subst hkey
    have hshown : (LayoutLine.static e.1 builtIn).shown r s = assignment e.1 e.2.shown := by
      rw [LayoutLine.shown, NodeSettings.valueOr_of_mem_given he]
    have htwo : 2 ≤ (nodeLayout.flatMap fun line => found field (line.shown r s)).length :=
      two_le_length_flatMap (by simp) hline (mem_staticSettings_iff.mp hbuiltIn) hown
        (hshown ▸ hfound)
    exact Nat.le_add_right_of_le htwo
  · have hextra : e ∈ s.extra := by
      have hnot := not_mem_reservedKeys_of_given hreserved he
      refine List.mem_filter.mpr ⟨he, ?_⟩
      simp [hstatic, hnot]
    have hfirst : 1 ≤ (nodeLayout.flatMap fun line => found field (line.shown r s)).length :=
      one_le_length_flatMap hline hown
    have hsecond :
        1 ≤ (s.extra.flatMap fun e => found field (assignment e.1 e.2.shown)).length :=
      one_le_length_flatMap hextra hfound
    exact Nat.add_le_add hfirst hsecond

/-- A reader finds each per-node key once, with the value of the record, exactly if the
settings are quiet. -/
theorem filter_key_iff_quiet (hreserved : s.reserved = [])
    (hvalues : ∀ own : NodeField, OneLine (own.value r)) :
    (∀ field : NodeField, (assignments (iniText r s)).filter (·.1 = field.key) =
      [(field.key, field.value r)]) ↔ s.Quiet := by
  constructor
  · intro honce e he a ha hkey
    obtain ⟨field, hfield⟩ := NodeField.exists_of_mem_reservedKeys hkey
    have hown : found field ((LayoutLine.perNode field).shown r s) ≠ [] := by
      rw [found_perNode (hvalues field), if_pos rfl]
      exact List.cons_ne_nil _ _
    have hfound : found field (assignment e.1 e.2.shown) ≠ [] :=
      List.ne_nil_of_mem (List.mem_filter.mpr ⟨ha, decide_eq_true hfield.symm⟩)
    have htwo := two_le_length_filter_key hreserved he hown hfound
    rw [honce field] at htwo
    exact absurd htwo (by simp)
  · intro hquiet field
    exact filter_key_of_quiet hvalues hquiet

/-! ### Artifacts of a run -/

variable {c : Config} {g : Graph} {records : List NodeRecord} {fresh : DrawSource}
  {patience : Nat}

theorem Config.reserved_eq_nil_of_validate (h : c.validate = .ok ()) : c.node.reserved = [] := by
  have hnode := (Config.validate_eq_ok_iff.mp h).2.2.2.2
  simp only [Config.checkNode] at hnode
  split at hnode
  next hnil => exact hnil
  next => cases hnode

/-- The values of every record of a run stand on one line. -/
theorem oneLine_value_of_buildRecords (hbuild : buildRecords c fresh patience = .ok (g, records))
    (hr : r ∈ records) (field : NodeField) : OneLine (field.value r) := by
  obtain ⟨h, w, -, -, rfl⟩ := buildRecords_eq_ok_iff.mp hbuild
  obtain ⟨v, -, rfl⟩ := List.mem_map.mp hr
  refine field.oneLine_value fun e he => ?_
  obtain ⟨u, -, rfl⟩ := List.mem_map.mp he
  exact Config.isValid_host_of_validate h

/-- **Per-node keys stand once in an artifact exactly if the settings are quiet.**  In the INI
artifact of every record of a run, a reader finds each per-node key once and with the value
of the record, unless some setting smuggles in a line that takes a per-node key. -/
theorem perNode_keys_once_iff (hbuild : buildRecords c fresh patience = .ok (g, records))
    (hr : r ∈ records) :
    (∀ field : NodeField, (assignments (iniText r c.node)).filter (·.1 = field.key) =
      [(field.key, field.value r)]) ↔ c.node.Quiet := by
  obtain ⟨h, -⟩ := buildRecords_eq_ok_iff.mp hbuild
  exact filter_key_iff_quiet (Config.reserved_eq_nil_of_validate h)
    (oneLine_value_of_buildRecords hbuild hr)

/-- Every run of a valid configuration has a record. -/
theorem exists_mem_buildRecords (h : c.validate = .ok ()) (hends : c.SamplingEnds fresh patience) :
    ∃ g records r, buildRecords c fresh patience = .ok (g, records) ∧ r ∈ records := by
  obtain ⟨w, hw⟩ := Config.exists_drawOverlay_eq_ok h hends
  have hpos : 0 < c.network.numNodes := SmallWorldParams.pos_of_check (Config.check_of_validate h)
  exact ⟨_, _, _, buildRecords_of_drawOverlay h hw,
    List.mem_of_getElem? (Config.getElem?_recordsOn w.graph hpos)⟩

/-- Six nodes with a setting in place of a built-in one and one of its own. -/
def Config.labelled : Config :=
  { Config.sixNodes with
    node := .ofList [("HXI_DIR", .text "ixi"), ("LABEL", .text "API_PORT = 1")] }

/-- A sign of assignment inside a value takes no key. -/
theorem perNode_keys_once_labelled :
    ∃ g records r, buildRecords .labelled weylSource 64 = .ok (g, records) ∧ r ∈ records ∧
      ∀ field : NodeField, (assignments (iniText r Config.labelled.node)).filter
        (·.1 = field.key) = [(field.key, field.value r)] := by
  obtain ⟨g, records, r, hbuild, hr⟩ : ∃ g records r,
      buildRecords .labelled weylSource 64 = .ok (g, records) ∧ r ∈ records :=
    exists_mem_buildRecords (by decide +kernel) fun _ => by decide +kernel
  exact ⟨g, records, r, hbuild, hr, (perNode_keys_once_iff hbuild hr).mpr (by decide +kernel)⟩

/-- A single node with a line break in the value of a setting. -/
def Config.smuggling : Config where
  network := { numNodes := 1 }
  node := .ofList [("API_HOST", .text "localhost\nAPI_PORT = 1")]

/-- A valid configuration can override a per-node key: a value with a line break brings a
second line for it into every artifact. -/
theorem not_forall_perNode_keys_once :
    ¬∀ (c : Config) (fresh : DrawSource) (patience : Nat) (g : Graph) (records : List NodeRecord)
      (r : NodeRecord), buildRecords c fresh patience = .ok (g, records) → r ∈ records →
        ∀ field : NodeField, (assignments (iniText r c.node)).filter (·.1 = field.key) =
          [(field.key, field.value r)] := by
  intro h
  obtain ⟨g, records, r, hbuild, hr⟩ : ∃ g records r,
      buildRecords .smuggling weylSource 64 = .ok (g, records) ∧ r ∈ records :=
    exists_mem_buildRecords (by decide +kernel) fun _ => by decide +kernel
  have hquiet : Config.smuggling.node.Quiet :=
    (filter_key_iff_quiet (by decide +kernel) (oneLine_value_of_buildRecords hbuild hr)).mp
      (h _ _ _ _ _ _ hbuild hr)
  exact absurd hquiet (by decide +kernel)

end PeerOverlay
