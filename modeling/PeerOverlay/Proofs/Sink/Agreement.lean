/-
The two sinks agree.

Both sinks replace the artifact of a node that is stored again, one under the number of the node
and the other under a file name made from it.  File names tell nodes apart, so a directory that
was made for the stores and the memory sink hold the same artifacts.

* `MemorySink.get?_foldl_insert` — a memory sink holds the last artifact of every node;
* `FileTree.Lacks.made` — a directory that was not there is made, and is empty;
* `DirectorySink.mem_children_iff_stored`, `DirectorySink.get?_stored` — what stores leave in it;
* `DirectorySink.storeAll_agrees` — look-ups, sizes and paths agree after any run of stores.
-/
import Mathlib.Data.List.Dedup
import PeerOverlay.Proofs.Configurator
import PeerOverlay.Proofs.FileTree.Way
import PeerOverlay.Proofs.Sink.Directory
import PeerOverlay.Sink.Memory

namespace PeerOverlay

variable {r : NodeRecord} {records : List NodeRecord} {node : NodeId} {t u v : FileTree}
  {dir : Path} {loc : Location} {n : Name}

/-- The last record of a node. -/
def lastRecord (records : List NodeRecord) (node : NodeId) : Option NodeRecord :=
  records.reverse.find? fun r => r.node = node

theorem isSome_lastRecord_iff :
    (lastRecord records node).isSome = true ↔ ∃ r ∈ records, r.node = node := by
  simp [lastRecord]

theorem of_lastRecord_eq_some (h : lastRecord records node = some r) :
    r ∈ records ∧ r.node = node :=
  ⟨List.mem_reverse.mp (List.mem_of_find?_eq_some h), by simpa using List.find?_some h⟩

/-! ### The memory sink -/

namespace MemorySink

theorem storeAll_eq (records : List NodeRecord) (s : MemorySink) :
    storeAll store records s = (.ok (), records.foldl insert s) := by
  induction records generalizing s with
  | nil => rfl
  | cons r rest ih => rw [storeAll_cons_of_ok rfl, ih, List.foldl_cons]

theorem artifacts_foldl_insert (records : List NodeRecord) (s : MemorySink) :
    (records.foldl insert s).artifacts =
      records.foldl (fun m r => m.insert r.node (s.format.render r s.settings)) s.artifacts := by
  induction records generalizing s with
  | nil => rfl
  | cons r rest ih => exact ih (s.insert r)

/-- **A memory sink holds the last artifact of every node.** -/
theorem get?_foldl_insert (records : List NodeRecord) (s : MemorySink) (node : NodeId) :
    (records.foldl insert s).get? node =
      ((lastRecord records node).map fun r => s.format.render r s.settings).or (s.get? node) := by
  rw [get?, artifacts_foldl_insert, AscendingMap.get?_foldl_insert]
  rfl

theorem get?_foldl_insert_new (format : ArtifactFormat) (settings : NodeSettings)
    (records : List NodeRecord) (node : NodeId) :
    (records.foldl insert (new format settings)).get? node =
      (lastRecord records node).map fun r => format.render r settings := by
  rw [get?_foldl_insert, show (new format settings).get? node = none from rfl, Option.or_none]
  rfl

theorem mem_keys_foldl_insert_new (format : ArtifactFormat) (settings : NodeSettings) :
    node ∈ (records.foldl insert (new format settings)).artifacts.keys ↔
      ∃ r ∈ records, r.node = node := by
  have hget := get?_foldl_insert_new format settings records node
  rw [AscendingMap.mem_keys_iff, ← get?, hget, Option.isSome_map, isSome_lastRecord_iff]

end MemorySink

/-! ### A directory that is not there -/

/-- The path of a directory starts in one that is there, and nothing stands where it leads. -/
structure FileTree.Lacks (t : FileTree) (dir : Path) : Prop where
  start : t.get? (dir.route.startFrom t.workdir) = some .directory
  absent : t.get? (dir.route.spelledFrom t.workdir) = none

/-- The empty path leads to where it starts. -/
theorem FileTree.Lacks.bytes_ne_nil (h : t.Lacks dir) : dir.bytes ≠ [] := by
  obtain ⟨bytes⟩ := dir
  rintro rfl
  have hstart : t.get? t.workdir = some .directory := h.start
  have habsent : t.get? t.workdir = none := h.absent
  rw [hstart] at habsent
  cases habsent

theorem FileTree.Lacks.made (h : t.Lacks dir) (hlinks : t.LinkFree)
    (hup : .up ∉ dir.route.steps) (hmade : t.createDirAll dir.route = (.ok (), u)) :
    ∃ loc, t.Made u loc ∧ u.Finds dir loc := by
  obtain ⟨loc, hprovides⟩ := FileTree.provides_of_createDirAll (.inl hup)
    (Path.isEmpty_route h.bytes_ne_nil) hmade
  refine ⟨loc, ?_, hprovides.gains.linkFree hlinks, hprovides.resolve⟩
  rcases hprovides.found_or_made with rfl | hmade
  · have hfound := FileTree.get?_of_resolve hprovides.resolve
    rw [FileTree.location_of_resolve hlinks hprovides.resolve, h.absent] at hfound
    cases hfound
  · exact hmade

theorem FileTree.Lacks.not_isDirectory (h : t.Lacks dir) (hlinks : t.LinkFree) :
    t.isDirectory dir.route = false := by
  rw [← Bool.not_eq_true]
  intro hdir
  obtain ⟨loc, hresolve⟩ := FileTree.isDirectory_iff.mp hdir
  have hfound := FileTree.get?_of_resolve hresolve
  rw [FileTree.location_of_resolve hlinks hresolve, h.absent] at hfound
  cases hfound

namespace DirectorySink

variable {s s' : DirectorySink} {format : ArtifactFormat} {settings : NodeSettings}
  {overwrite : Bool}

theorem lastAt_artifactName :
    s.lastAt loc records (loc ++ [s.format.artifactName node]) = lastRecord records node := by
  rw [lastAt, lastRecord]
  congr 1
  funext r
  simp [ArtifactFormat.artifactName_inj, eq_comm]

/-! ### What stores leave in an empty directory -/

section Stored

variable (hfinds : u.Finds s.dir loc) (hempty : ∀ n, u.get? (loc ++ [n]) = none)
  (htakes : ∀ r ∈ records, s.Takes u loc r)

include hfinds hempty htakes

/-- Every entry is the artifact of a record, the last of its node. -/
theorem get?_stored (node : NodeId) :
    (records.foldl (s.putArtifact loc) u).get? (loc ++ [s.format.artifactName node]) =
      (lastRecord records node).map fun r => .file (s.format.render r s.settings) := by
  rw [get?_foldl_putArtifact hfinds htakes, lastAt_artifactName, hempty, Option.or_none]

theorem mem_children_iff_stored :
    n ∈ (records.foldl (s.putArtifact loc) u).children loc ↔
      ∃ r ∈ records, s.format.artifactName r.node = n := by
  rw [FileTree.mem_children]
  constructor
  · rintro ⟨e, he⟩
    rw [get?_foldl_putArtifact hfinds htakes, hempty, Option.or_none, Option.map_eq_some_iff] at he
    obtain ⟨r, hlast, -⟩ := he
    obtain ⟨hr, hname⟩ := of_lastAt_eq_some hlast
    exact ⟨r, hr, by simpa using hname.symm⟩
  · rintro ⟨r, hr, rfl⟩
    obtain ⟨last, hlast⟩ := Option.isSome_iff_exists.mp (isSome_lastRecord_iff.mpr ⟨r, hr, rfl⟩)
    exact ⟨_, by rw [get?_stored hfinds hempty htakes, hlast, Option.map_some]⟩

/-- The entries are named after the nodes that a memory sink holds artifacts of. -/
theorem children_perm_keys (format : ArtifactFormat) (settings : NodeSettings) :
    ((records.foldl (s.putArtifact loc) u).children loc).Perm
      ((records.foldl MemorySink.insert (.new format settings)).artifacts.keys.map
        s.format.artifactName) := by
  have hinjective : Function.Injective s.format.artifactName := fun _ _ =>
    ArtifactFormat.artifactName_inj.mp
  refine (List.perm_ext_iff_of_nodup FileTree.nodup_children
    ((AscendingMap.nodup_keys _).map hinjective)).mpr fun n => ?_
  rw [mem_children_iff_stored hfinds hempty htakes, List.mem_map]
  simp only [MemorySink.mem_keys_foldl_insert_new]
  constructor
  · rintro ⟨r, hr, rfl⟩
    exact ⟨r.node, ⟨r, hr, rfl⟩, rfl⟩
  · rintro ⟨node, ⟨r, hr, rfl⟩, rfl⟩
    exact ⟨r, hr, rfl⟩

theorem readFile_stored_iff (hnode : node < UInt64.size) {text : String} :
    (records.foldl (s.putArtifact loc) u).readFile (s.pathFor node).route = .ok text ↔
      ((lastRecord records node).map fun r => s.format.render r s.settings) = some text := by
  have hplain := Name.Plain.of_isArtifact (Name.isArtifact_artifactName s.format hnode)
  rw [show s.pathFor node = s.dir.join (s.format.artifactName node) from rfl,
    (finds_foldl_putArtifact hfinds htakes).readFile_join_eq_ok_iff hplain,
    get?_stored hfinds hempty htakes]
  rcases hlast : lastRecord records node with _ | r
  · simp
  · -- A record that was stored has a path that is short enough.
    obtain ⟨hr, rfl⟩ := of_lastRecord_eq_some hlast
    simp [(htakes r hr).1]

theorem isFile_stored (hnode : node < UInt64.size) :
    (records.foldl (s.putArtifact loc) u).isFile (s.pathFor node).route =
      (lastRecord records node).isSome := by
  rw [Bool.eq_iff_iff, FileTree.isFile_iff_exists_readFile]
  simp only [readFile_stored_iff hfinds hempty htakes hnode]
  rw [← Option.isSome_iff_exists, Option.isSome_map]

end Stored

/-- **The two sinks agree.**  A directory that was not there, made for any records, and a memory
sink for them answer alike for every node: with the artifact of its last record, if there is
one.  The directory lists one file for each artifact in memory, and the paths written are those
of its files. -/
theorem storeAll_agrees (hlinks : t.LinkFree) (hup : .up ∉ dir.route.steps)
    (habsent : t.Lacks dir) (hnodes : ∀ r ∈ records, r.node < UInt64.size)
    (hopen : openAt t dir format settings overwrite = (.ok s, u))
    (hstored : storeAll store records (s, u) = (.ok (), s', v)) :
    ∃ m, storeAll MemorySink.store records (.new format settings) = (.ok (), m) ∧
      (∀ node < UInt64.size,
        m.get? node = (lastRecord records node).map (fun r => format.render r settings) ∧
        v.isFile (s'.pathFor node).route = (m.get? node).isSome ∧
        ∀ text, v.readFile (s'.pathFor node).route = .ok text ↔ m.get? node = some text) ∧
      ∃ names, v.readDir dir.route = .ok names ∧ names.Nodup ∧ names.length = m.size ∧
        (∀ n ∈ names, v.isFile (dir.join n).route = true) ∧
        s'.written.dedup.Perm (names.map dir.join) := by
  obtain ⟨existing, -, -, hcreated, hs⟩ := openAt_eq_ok hopen
  obtain ⟨loc, hmade, hfinds⟩ := habsent.made hlinks hup hcreated
  obtain ⟨rfl, rfl, rfl, hwritten⟩ : s.dir = dir ∧ s.format = format ∧ s.settings = settings ∧
      s.written = [] := by
    subst hs
    exact ⟨rfl, rfl, rfl, rfl⟩
  obtain ⟨htakes, rfl, rfl⟩ := (storeAll_eq_ok_iff hfinds hnodes).mp hstored
  have hempty := hmade.get?_child
  have hlisted : (records.foldl (s.putArtifact loc) u).readDir s.dir.route =
      .ok ((records.foldl (s.putArtifact loc) u).children loc) := by
    rw [FileTree.readDir, (finds_foldl_putArtifact hfinds htakes).resolve]
  refine ⟨_, MemorySink.storeAll_eq _ _, fun node hnode => ?_, _, hlisted,
    FileTree.nodup_children, ?_, ?_, ?_⟩
  · rw [MemorySink.get?_foldl_insert_new, Option.isSome_map]
    exact ⟨rfl, isFile_stored hfinds hempty htakes hnode,
      fun text => readFile_stored_iff hfinds hempty htakes hnode⟩
  · rw [(children_perm_keys hfinds hempty htakes s.format s.settings).length_eq, List.length_map,
      AscendingMap.keys, List.length_map]
    rfl
  · intro n hn
    obtain ⟨r, hr, rfl⟩ := (mem_children_iff_stored hfinds hempty htakes).mp hn
    show FileTree.isFile _ (s.pathFor r.node).route = true
    rw [isFile_stored hfinds hempty htakes (hnodes r hr), isSome_lastRecord_iff]
    exact ⟨r, hr, rfl⟩
  · refine (List.perm_ext_iff_of_nodup (List.nodup_dedup _)
      (FileTree.nodup_children.map (Path.join_injective _))).mpr fun p => ?_
    rw [List.mem_dedup, hwritten, List.nil_append, List.mem_map, List.mem_map]
    simp only [mem_children_iff_stored hfinds hempty htakes]
    constructor
    · rintro ⟨r, hr, rfl⟩
      exact ⟨_, ⟨r, hr, rfl⟩, rfl⟩
    · rintro ⟨n, ⟨r, hr, rfl⟩, rfl⟩
      exact ⟨r, hr, rfl⟩

/-- The records of two nodes, the first of which comes again with a neighbour. -/
def comingAgain : List NodeRecord :=
  [BasePorts.record {} .tcp "127.0.0.1" 0 [], BasePorts.record {} .tcp "127.0.0.1" 1 [0],
    BasePorts.record {} .tcp "127.0.0.1" 0 [1]]

/-- Three stores leave two artifacts in either sink. -/
theorem storeAll_agrees_comingAgain :
    ∃ s u s' v m, openAt .empty (.ofText "out") .ini .empty false = (.ok s, u) ∧
      storeAll store comingAgain (s, u) = (.ok (), s', v) ∧
      storeAll MemorySink.store comingAgain (.new .ini .empty) = (.ok (), m) ∧ m.size = 2 ∧
      v.readFile (s'.pathFor 0).route = .ok
        (ArtifactFormat.ini.render (BasePorts.record {} .tcp "127.0.0.1" 0 [1]) .empty) := by
  have hroute : (Path.ofText "out").route = ⟨false, [.down (.ofText "out")], false, 3⟩ := by
    decide +kernel
  have hlacks : FileTree.empty.Lacks (.ofText "out") := ⟨rfl, by decide +kernel⟩
  have habsent : FileTree.empty.resolve false ⟨false, [.down (.ofText "out")], false, 3⟩ =
      .ok (.absent [.ofText "out"] false) :=
    FileTree.resolve_eq_ok_iff.mpr ⟨by decide +kernel, rfl, .missing (by decide +kernel) rfl⟩
  obtain ⟨u, hmade, hmakes, hfound⟩ := FileTree.createDirAll_of_absent
    (r := ⟨false, [.down (.ofText "out")], false, 3⟩) rfl habsent
  rw [← hroute] at hmakes hfound
  have hlinks : FileTree.empty.LinkFree := FileTree.linkFree_of_entries (List.forall_mem_nil _)
  obtain ⟨s, hs⟩ : ∃ s : DirectorySink, s = ⟨.ofText "out", .ini, .empty, [], []⟩ := ⟨_, rfl⟩
  have hopen : openAt .empty (.ofText "out") .ini .empty false = (.ok s, u) :=
    hs ▸ openAt_of_createDirAll (hlacks.not_isDirectory hlinks) hmakes
  have hnodes : ∀ r ∈ comingAgain, r.node < UInt64.size := by decide
  have hadmits : ∀ r ∈ comingAgain,
      (Path.ofText "out").Admits (ArtifactFormat.ini.artifactName r.node) := by decide +kernel
  have htakes : ∀ r ∈ comingAgain, s.Takes u [.ofText "out"] r := fun r hr => by
    subst hs
    exact ⟨hadmits r hr, .inr (hmade.get?_child _)⟩
  have hstored := (storeAll_eq_ok_iff (s := s)
    ⟨hmade.gains.linkFree hlinks, by rw [hs]; exact hfound⟩ hnodes).mpr ⟨htakes, rfl, rfl⟩
  obtain ⟨m, hm, hall, -⟩ :=
    storeAll_agrees hlinks (by rw [hroute]; decide) hlacks hnodes hopen hstored
  obtain ⟨hget, -, hread⟩ := hall 0 (by decide)
  refine ⟨s, u, _, _, m, hopen, hstored, hm, ?_, (hread _).mpr hget⟩
  rw [MemorySink.storeAll_eq] at hm
  obtain ⟨-, rfl⟩ := Prod.mk.inj hm
  rfl

end DirectorySink

end PeerOverlay
