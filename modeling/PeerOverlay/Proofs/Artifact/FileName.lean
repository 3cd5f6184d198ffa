/-
Artifact names.

* `ArtifactFormat.nodeOfFileName?_eq_some_iff` — the names that are read as the artifact of
  a node;
* `fileName_inj`, `artifactName_inj` — the name that is written for a node in a format belongs
  to no other node or format;
* `fileName_exact` — how written names and names that are read belong together;
* `Name.Plain.of_isArtifact` — such a name stands for itself on a path.
-/
import Mathlib.Data.Bool.AllAny
import PeerOverlay.Proofs.FileTree.NameText
import PeerOverlay.Proofs.Text.Numeral
import PeerOverlay.Sink.Directory

namespace PeerOverlay

open PeerOverlay.Text

namespace ArtifactFormat

variable {f : ArtifactFormat} {name : String} {node : NodeId}

/-- **The names that are read as the artifact of a node.** -/
theorem nodeOfFileName?_eq_some_iff :
    f.nodeOfFileName? name = some node ↔
      ∃ digits, name.toList = stem.toList ++ (digits ++ '.' :: f.extension.toList) ∧
        number? digits = some node ∧ node < UInt64.size := by
  rw [nodeOfFileName?]
  simp only [bind, Option.bind_eq_some_iff, dropPrefix?_eq_some_iff, dropSuffix?_eq_some_iff,
    Option.filter_eq_some_iff]
  constructor
  · rintro ⟨rest, hname, digits, rfl, hnumber, hnode⟩
    exact ⟨digits, hname, hnumber, by simpa using hnode⟩
  · rintro ⟨digits, hname, hnumber, hnode⟩
    exact ⟨_, hname, digits, rfl, hnumber, by simpa using hnode⟩

theorem toList_fileName (f : ArtifactFormat) (node : NodeId) :
    (f.fileName node).toList =
      stem.toList ++ (numeral node ++ '.' :: f.extension.toList) := by
  simp [fileName]

theorem nodeOfFileName?_fileName (h : node < UInt64.size) :
    f.nodeOfFileName? (f.fileName node) = some node :=
  nodeOfFileName?_eq_some_iff.mpr ⟨_, toList_fileName f node, number?_numeral node, h⟩

theorem lt_size_of_nodeOfFileName? (h : f.nodeOfFileName? name = some node) :
    node < UInt64.size := by
  obtain ⟨digits, -, -, hnode⟩ := nodeOfFileName?_eq_some_iff.mp h
  exact hnode

theorem format_eq_of_append_eq {g : ArtifactFormat} {front back : List Char}
    (h : front ++ '.' :: f.extension.toList = back ++ '.' :: g.extension.toList) : f = g := by
  -- The extensions end in different letters.
  have hlast := congrArg List.getLast? h
  cases f <;> cases g <;> simp [extension] at hlast ⊢

/-- A name is that of one node in one format. -/
theorem fileName_inj {g : ArtifactFormat} {node' : NodeId} :
    f.fileName node = g.fileName node' ↔ f = g ∧ node = node' := by
  refine ⟨fun h => ?_, fun ⟨hf, hnode⟩ => by rw [hf, hnode]⟩
  have hlist := congrArg String.toList h
  rw [toList_fileName, toList_fileName] at hlist
  have hrest := List.append_cancel_left hlist
  obtain rfl := format_eq_of_append_eq hrest
  have hnumeral := congrArg number? (List.append_cancel_right hrest)
  rw [number?_numeral, number?_numeral, Option.some_inj] at hnumeral
  exact ⟨rfl, hnumeral⟩

/-- No name is read in two formats. -/
theorem format_eq_of_nodeOfFileName? {g : ArtifactFormat} {node' : NodeId}
    (h : f.nodeOfFileName? name = some node) (h' : g.nodeOfFileName? name = some node') :
    f = g := by
  obtain ⟨digits, hname, -⟩ := nodeOfFileName?_eq_some_iff.mp h
  obtain ⟨digits', hname', -⟩ := nodeOfFileName?_eq_some_iff.mp h'
  exact format_eq_of_append_eq (List.append_cancel_left (hname.symm.trans hname'))

/-- A name that is read as that of a node is the one that is written for it unless a needless
zero stands behind the stem. -/
theorem eq_fileName_iff (h : f.nodeOfFileName? name = some node) :
    name = f.fileName node ↔
      ¬∃ c rest, name.toList = stem.toList ++ '0' :: c :: rest ∧ c.isDigit = true := by
  obtain ⟨digits, hname, hnumber, -⟩ := nodeOfFileName?_eq_some_iff.mp h
  have hwritten : name = f.fileName node ↔ digits = numeral node := by
    rw [← String.toList_inj, toList_fileName, hname, List.append_cancel_left_eq,
      List.append_cancel_right_eq]
  rw [hwritten, eq_numeral_iff hnumber, hname]
  refine not_congr ⟨?_, ?_⟩
  · rintro ⟨c, rest, rfl⟩
    exact ⟨c, _, rfl, (number?_eq_some_iff.mp hnumber).2.1 c (by simp)⟩
  · rintro ⟨c, rest, hrest, hc⟩
    have hrest := List.append_cancel_left hrest
    -- The point behind the digits is no digit, so the second one is among them.
    rcases digits with _ | ⟨d, _ | ⟨d', digits⟩⟩
    · cases hrest
    · obtain ⟨-, hrest⟩ := List.cons.inj hrest
      obtain ⟨rfl, -⟩ := List.cons.inj hrest
      exact absurd hc (by decide)
    · obtain ⟨rfl, -⟩ := List.cons.inj hrest
      exact ⟨d', digits, rfl⟩

/-- **Which names are read as those of nodes, and which are written.**  A name is read in a
format as that of a node if it is the stem, digits worth the node, a point and the extension;
every node below `2 ^ 64` is read back from the name written for it; names written for
different nodes or in different formats differ; no name is read in both formats; and of the
names that are read as a node, the written one alone has no needless zero. -/
theorem fileName_exact (f : ArtifactFormat) (name : String) (node : NodeId) :
    (f.nodeOfFileName? name = some node ↔
      ∃ digits, name.toList = "config".toList ++ (digits ++ '.' :: f.extension.toList) ∧
        digits ≠ [] ∧ (∀ c ∈ digits, c.isDigit = true) ∧
        Nat.ofDigitChars 10 digits 0 = node ∧ node < UInt64.size) ∧
    (f.nodeOfFileName? (f.fileName node) = some node ↔ node < UInt64.size) ∧
    (∀ g node', f.fileName node = g.fileName node' ↔ f = g ∧ node = node') ∧
    ¬((ini.nodeOfFileName? name).isSome = true ∧ (json.nodeOfFileName? name).isSome = true) ∧
    (name = f.fileName node ∧ node < UInt64.size ↔
      f.nodeOfFileName? name = some node ∧
        ¬∃ c rest, name.toList = "config".toList ++ '0' :: c :: rest ∧ c.isDigit = true) := by
  refine ⟨?_, ?_, fun g node' => fileName_inj, ?_, ?_⟩
  · rw [nodeOfFileName?_eq_some_iff]
    simp only [number?_eq_some_iff, and_assoc]
    rfl
  · exact ⟨lt_size_of_nodeOfFileName?, nodeOfFileName?_fileName⟩
  · rintro ⟨hini, hjson⟩
    obtain ⟨n, hn⟩ := Option.isSome_iff_exists.mp hini
    obtain ⟨m, hm⟩ := Option.isSome_iff_exists.mp hjson
    cases format_eq_of_nodeOfFileName? hn hm
  · constructor
    · rintro ⟨rfl, hnode⟩
      have hread : f.nodeOfFileName? (f.fileName node) = some node := nodeOfFileName?_fileName hnode
      exact ⟨hread, (eq_fileName_iff hread).mp rfl⟩
    · rintro ⟨hread, hzero⟩
      exact ⟨(eq_fileName_iff hread).mpr hzero, lt_size_of_nodeOfFileName? hread⟩

theorem isArtifactName_iff :
    isArtifactName name = true ↔ ∃ (f : ArtifactFormat) (node : NodeId),
      f.nodeOfFileName? name = some node := by
  rw [isArtifactName, List.any_eq_true]
  constructor
  · rintro ⟨f, -, hf⟩
    exact ⟨f, Option.isSome_iff_exists.mp hf⟩
  · rintro ⟨f, hf⟩
    exact ⟨f, by cases f <;> decide, Option.isSome_iff_exists.mpr hf⟩

/-- The name of a node's artifact in its directory. -/
def artifactName (f : ArtifactFormat) (node : NodeId) : Name :=
  .ofText (f.fileName node)

theorem artifactName_inj {node' : NodeId} :
    f.artifactName node = f.artifactName node' ↔ node = node' := by
  refine ⟨fun h => ?_, congrArg _⟩
  have htext : f.fileName node = f.fileName node' :=
    Utf8.encode_injective (congrArg Name.bytes h)
  exact (fileName_inj.mp htext).2

end ArtifactFormat

namespace Name

variable {n : Name}

theorem isArtifact_iff :
    n.isArtifact = true ↔
      ∃ text, n = ofText text ∧ ArtifactFormat.isArtifactName text = true := by
  rw [isArtifact]
  constructor
  · intro h
    rcases htext : n.text? with _ | text
    · rw [htext] at h
      cases h
    · rw [htext] at h
      exact ⟨text, text?_eq_some_iff.mp htext, h⟩
  · rintro ⟨text, rfl, h⟩
    rw [text?_eq_some_iff.mpr rfl]
    exact h

theorem isArtifact_artifactName (f : ArtifactFormat) {node : NodeId}
    (h : node < UInt64.size) : (f.artifactName node).isArtifact = true :=
  isArtifact_iff.mpr ⟨_, rfl,
    ArtifactFormat.isArtifactName_iff.mpr ⟨f, node, ArtifactFormat.nodeOfFileName?_fileName h⟩⟩

/-- What artifact names consist of: points, digits and letters. -/
theorem forall_mem_of_isArtifactName {text : String}
    (h : ArtifactFormat.isArtifactName text = true) :
    ∀ c ∈ text.toList, 0x2E ≤ c.val ∧ c.val ≠ 0x2F ∧ c.val ≤ 127 := by
  obtain ⟨f, node, hnode⟩ := ArtifactFormat.isArtifactName_iff.mp h
  obtain ⟨digits, htext, hnumber, -⟩ := ArtifactFormat.nodeOfFileName?_eq_some_iff.mp hnode
  have hstem : ∀ c ∈ ArtifactFormat.stem.toList, 0x2E ≤ c.val ∧ c.val ≠ 0x2F ∧ c.val ≤ 127 :=
    List.all_iff_forall_prop.mp (by decide)
  have hextension : ∀ c ∈ '.' :: f.extension.toList,
      0x2E ≤ c.val ∧ c.val ≠ 0x2F ∧ c.val ≤ 127 :=
    List.all_iff_forall_prop.mp (by cases f <;> decide)
  have hdigits : ∀ c ∈ digits, 0x2E ≤ c.val ∧ c.val ≠ 0x2F ∧ c.val ≤ 127 := fun c hc =>
    val_of_isDigit ((number?_eq_some_iff.mp hnumber).2.1 c hc)
  intro c hc
  rw [htext] at hc
  rcases List.mem_append.mp hc with hc | hc
  · exact hstem c hc
  · rcases List.mem_append.mp hc with hc | hc
    · exact hdigits c hc
    · exact hextension c hc

/-- **An artifact name stands for itself on a path.** -/
theorem Plain.of_isArtifact (h : n.isArtifact = true) : n.Plain := by
  obtain ⟨text, rfl, htext⟩ := isArtifact_iff.mp h
  have hstem : 'c' ∈ text.toList := by
    obtain ⟨f, node, hnode⟩ := ArtifactFormat.isArtifactName_iff.mp htext
    obtain ⟨digits, htoList, -⟩ := ArtifactFormat.nodeOfFileName?_eq_some_iff.mp hnode
    rw [htoList]
    exact List.mem_append_left _ (by decide)
  refine Plain.ofText (fun c hc => ?_) hstem (by decide)
  obtain ⟨hlow, hne, hhigh⟩ := forall_mem_of_isArtifactName htext c hc
  exact ⟨UInt32.lt_of_lt_of_le (by decide) hlow, hne, hhigh⟩

end Name

end PeerOverlay
