/-
What a run leaves of an output directory with earlier artifacts.

`Config.Leaves` says what the tree is after a run, entry by entry, and
`generateInDirectory_leaves` that this is so after every run that succeeds in a tree without
links.  Artifacts are counted as stale if their names and paths are short enough to be looked
up: `not_forall_stale_counted` has one that is passed over.
-/
import PeerOverlay.Proofs.Generation.Directory

namespace PeerOverlay

variable {c : Config} {fresh : DrawSource} {patience : Nat} {t t' u v : FileTree}
  {summary : Summary} {g : Graph} {loc : Location} {n : Name}

namespace Config

/-- What a run leaves of a tree.  Its own artifacts are all that is found in the output
directory, the stale ones are gone, and all else is as it was, but for missing directories on
the way to the output directory. -/
structure Leaves (c : Config) (t t' : FileTree) (records : List NodeRecord)
    (stale : List Name) : Prop where
  found : ∃ paths, existingArtifacts t' c.outputPath = .ok paths ∧
    paths.Perm ((List.range c.network.numNodes).map fun i => c.outputPath.join (c.nodeFile i))
  content : ∀ i r, records[i]? = some r →
    t'.get? (c.outputLocation t ++ [c.nodeFile i]) =
        some (.file (c.general.format.render r c.node)) ∧
      t'.readFile (c.outputPath.join (c.nodeFile i)).route =
        .ok (c.general.format.render r c.node)
  nodup_stale : stale.Nodup
  mem_stale : ∀ n, n ∈ stale ↔
    (n.isArtifact = true ∧ c.outputPath.Admits n ∧
      ∃ content, t.get? (c.outputLocation t ++ [n]) = some (.file content)) ∧
    ∀ i < c.network.numNodes, n ≠ c.nodeFile i
  removed : ∀ n ∈ stale, t'.get? (c.outputLocation t ++ [n]) = none
  unchanged : ∀ l, (∀ i < c.network.numNodes, l ≠ c.outputLocation t ++ [c.nodeFile i]) →
    (∀ n ∈ stale, l ≠ c.outputLocation t ++ [n]) →
      t'.get? l = if t.get? l = none ∧ l <+: c.outputLocation t then some .directory
        else t.get? l

theorem HoldsRun.leaves (hvalid : c.validate = .ok ()) (hlinks : t.LinkFree)
    (hloc : loc = c.outputLocation t) (hprovides : t.Provides u c.outputPath.route loc)
    (h : c.HoldsRun g loc (c.apartFromStale t u loc) v) :
    c.Leaves t v (c.recordsOn g) (c.staleNames t loc) := by
  subst hloc
  refine ⟨⟨_, existingArtifacts_eq h.finds.resolve, ?_⟩, ?_, nodup_artifactNames.filter _,
    fun n => mem_staleNames hlinks hprovides, ?_, ?_⟩
  · have hnodup : ((List.range c.network.numNodes).map c.nodeFile).Nodup :=
      List.nodup_range.map fun i j hij => ArtifactFormat.artifactName_inj.mp hij
    have hnames : (artifactNames v c.outputPath (c.outputLocation t)).Perm
        ((List.range c.network.numNodes).map c.nodeFile) := by
      refine (List.perm_ext_iff_of_nodup nodup_artifactNames hnodup).mpr fun n => ?_
      rw [h.mem_artifactNames_iff hvalid hlinks hprovides]
      simp [eq_comm]
    have hpaths := hnames.map c.outputPath.join
    rwa [List.map_map] at hpaths
  · intro i r hr
    have hi : i < c.network.numNodes := by
      simpa using (List.getElem?_eq_some_iff.mp hr).1
    have hrecord : c.nodeRecord g i = r := by
      rw [getElem?_recordsOn g hi] at hr
      exact Option.some.inj hr
    have hfile := h.get?_nodeFile i hi
    rw [hrecord] at hfile
    have hname := Name.isArtifact_artifactName c.general.format (lt_size_of_validate hvalid hi)
    exact ⟨hfile, h.finds.readFile_join (.of_isArtifact hname) (h.admits i hi) hfile⟩
  · intro n hn
    rw [h.get?_eq, apartFromStale, if_pos ⟨n, hn, rfl⟩]
    intro i hi hsame
    exact ((mem_staleNames hlinks hprovides).mp hn).2 i hi (by simpa using hsame)
  · intro l hnodes hstale
    have hother : ¬∃ n ∈ c.staleNames t (c.outputLocation t), l = c.outputLocation t ++ [n] := by
      rintro ⟨n, hn, hl⟩
      exact hstale n hn hl
    rw [h.get?_eq l hnodes, apartFromStale, if_neg hother, hprovides.get?_eq]

end Config

/-- **A run leaves its own artifacts in the output directory, and nothing of an earlier one.** -/
theorem generateInDirectory_leaves (hlinks : t.LinkFree) (hup : .up ∉ c.outputPath.route.steps)
    (hrun : generateInDirectory c fresh patience t = (.ok summary, t')) :
    ∃ g records stale, buildRecords c fresh patience = .ok (g, records) ∧
      records.length = c.network.numNodes ∧
      summary = { summarize g records with staleRemoved := stale.length } ∧
      c.Leaves t t' records stale := by
  obtain ⟨hvalid, s, u, g, records, s', v, hopen, hbuild, hstored, hremoved, rfl⟩ :=
    generateInDirectory_eq_ok_iff.mp hrun
  obtain ⟨-, w, -, rfl, rfl⟩ := buildRecords_eq_ok_iff.mp hbuild
  obtain ⟨loc, hprovides, rfl, -⟩ := DirectorySink.exists_provides_of_openAt (.inl hup)
    (Config.outputPath_ne_nil hvalid) hopen
  have hu : u.Finds c.outputPath loc := ⟨hprovides.gains.linkFree hlinks, hprovides.resolve⟩
  have hloc : loc = c.outputLocation t := by
    obtain ⟨-, -, hreaches⟩ := FileTree.resolve_eq_ok_iff.mp hprovides.resolve
    rw [hprovides.gains.workdir] at hreaches
    exact hreaches.location_eq hu.linkFree hup
  obtain ⟨htakes, rfl, rfl⟩ :=
    (DirectorySink.storeAll_eq_ok_iff hu (Config.lt_size_of_mem_recordsOn hvalid)).mp hstored
  obtain ⟨t₁, hremoved₁, hholds⟩ :=
    (Config.holdsRun_of_takes hu htakes).exists_removed hlinks hprovides
  have hstale := Config.stale_sinkAt c w.graph t loc
  obtain rfl : t' = t₁ := (Prod.mk.inj (hremoved.symm.trans (hstale ▸ hremoved₁))).2
  refine ⟨w.graph, c.recordsOn w.graph, c.staleNames t loc, hbuild, Config.length_recordsOn _, ?_,
    hholds.leaves hvalid hlinks hloc hprovides⟩
  have hcount := congrArg List.length hstale
  rw [List.length_map] at hcount
  rw [← hcount]
  rfl

/-- Six nodes that replace the artifacts of an earlier run. -/
def Config.rerun : Config where
  __ := Config.sixNodes
  general := { outputDir := "out", overwrite := true }

/-- A directory with artifacts of an earlier run and other things. -/
def leftovers : FileTree :=
  FileTree.empty.put [.ofText "out"] .directory
    |>.put [.ofText "out", .ofText "config0.ini"] (.file "earlier")
    |>.put [.ofText "out", .ofText "config007.ini"] (.file "earlier")
    |>.put [.ofText "out", .ofText "config1.json"] (.file "earlier")
    |>.put [.ofText "out", .ofText "config9.ini"] .directory
    |>.put [.ofText "out", .ofText "README"] (.file "notes")

theorem finds_leftovers : leftovers.Finds Config.rerun.outputPath [.ofText "out"] := by
  have hroute : Config.rerun.outputPath.route =
      ⟨false, [.down (.ofText "out")], false, 3⟩ := by decide
  exact .of_route (FileTree.linkFree_of_entries (by decide)) hroute (by decide) (by decide)
    (by decide) (by decide) (by decide)

theorem generateInDirectory_leaves_rerun :
    ∃ summary t', generateInDirectory .rerun weylSource 64 leftovers = (.ok summary, t') ∧
      ∃ g records stale, buildRecords .rerun weylSource 64 = .ok (g, records) ∧
        records.length = 6 ∧ summary = { summarize g records with staleRemoved := stale.length } ∧
        Config.rerun.Leaves leftovers t' records stale := by
  obtain ⟨g, records, hbuild⟩ :=
    exists_buildRecords_six (c := .rerun) (by decide +kernel) rfl rfl
  obtain ⟨t', hrun⟩ := exists_generateInDirectory_eq_ok finds_leftovers hbuild (.inr rfl)
    (by decide +kernel)
  exact ⟨_, t', hrun, generateInDirectory_leaves finds_leftovers.linkFree (by decide +kernel) hrun⟩

/-! ### A stale artifact that is passed over -/

/-- A run into `o`, spelled with slashes that it does not need. -/
def Config.padded (k : Nat) : Config where
  __ := Config.sixNodes
  general := { outputDir := String.ofList ('o' :: '/' :: List.replicate k '/'), overwrite := true }

-- Thousands of slashes are needed, so all that is said of them is said for any number.
variable {k : Nat}

theorem bytes_padded :
    (Config.padded k).outputPath.bytes = 0x6F :: slash :: List.replicate k slash := by
  have htext : (String.ofList ('o' :: '/' :: List.replicate k '/')).toList =
      'o' :: '/' :: List.replicate k '/' := String.toList_ofList
  rw [Config.outputPath, Path.ofText, Config.padded, Text.Utf8.encode_of_ascii, htext]
  · rw [List.map_cons, List.map_cons, List.map_replicate]
    rfl
  · rw [htext]
    intro c hc
    rcases List.mem_cons.mp hc with rfl | hc
    · decide
    · rw [← List.replicate_succ] at hc
      rw [List.eq_of_mem_replicate hc]
      decide

theorem outputPath_padded : (Config.padded k).outputPath = Path.padded (.ofText "o") k :=
  congrArg Path.mk bytes_padded

theorem length_join_padded (n : Name) :
    ((Config.padded k).outputPath.join n).bytes.length = k + 2 + n.bytes.length := by
  have hlength : (Name.ofText "o").bytes.length = 1 := by decide
  rw [outputPath_padded, Path.length_join_padded, hlength]
  omega

theorem route_padded :
    (Config.padded k).outputPath.route = ⟨false, [.down (.ofText "o")], true, k + 2⟩ := by
  have hlength : (Name.ofText "o").bytes.length + (k + 1) = k + 2 := Nat.add_comm 1 (k + 1)
  rw [outputPath_padded, Path.route_padded (by decide), hlength]

/-- An artifact of an earlier run whose name does not fit. -/
def overlooked : FileTree :=
  FileTree.empty.put [.ofText "o"] .directory
    |>.put [.ofText "o", .ofText "config10.ini"] (.file "earlier")

theorem finds_overlooked (hk : k + 2 ≤ pathLimit) :
    overlooked.Finds (Config.padded k).outputPath [.ofText "o"] :=
  .of_route (FileTree.linkFree_of_entries (by decide)) route_padded (by decide) (by decide)
    hk (by decide) (by decide)

theorem eq_of_file_overlooked {content : String}
    (h : overlooked.get? [.ofText "o", n] = some (.file content)) :
    n = .ofText "config10.ini" := by
  rw [overlooked, FileTree.get?_put (by decide), FileTree.get?_put (by decide)] at h
  by_contra hn
  rw [if_neg (by simpa using hn), if_neg (by simp)] at h
  have hempty : FileTree.empty.get? [.ofText "o", n] = none := by
    simp [FileTree.get?, entryAt, FileTree.empty]
  rw [hempty] at h
  cases h

theorem artifactNames_overlooked (hk : k + 2 ≤ pathLimit) (hlong : pathLimit < k + 14) :
    artifactNames overlooked (Config.padded k).outputPath [.ofText "o"] = [] := by
  refine List.eq_nil_iff_forall_not_mem.mpr fun n hn => ?_
  obtain ⟨-, ⟨-, hfits⟩, content, hfile⟩ := (mem_artifactNames (finds_overlooked hk)).mp hn
  have hlength : (Name.ofText "config10.ini").bytes.length = 12 := by decide
  rw [length_join_padded, eq_of_file_overlooked hfile, hlength] at hfits
  exact Nat.not_lt.mpr hfits hlong

theorem validate_padded (k : Nat) : (Config.padded k).validate = .ok () := by
  have hsix : Config.sixNodes.validate = .ok () := by decide
  refine Config.validate_eq_ok_iff.mpr ⟨?_, (Config.validate_eq_ok_iff.mp hsix).2⟩
  have hne : (Config.padded k).general.outputDir ≠ "" := by
    intro hempty
    have hbytes := bytes_padded (k := k)
    rw [Config.outputPath, hempty] at hbytes
    cases hbytes
  rw [Config.checkGeneral, if_neg hne]
  rfl

/-- The run finds no room for the longer name, but for those of its own nodes. -/
theorem exists_run_padded (hshort : k + 13 ≤ pathLimit) (hlong : pathLimit < k + 14) :
    ∃ summary t',
      generateInDirectory (.padded k) weylSource 64 overlooked = (.ok summary, t') ∧
        summary.staleRemoved = 0 := by
  have hk : k + 2 ≤ pathLimit := by omega
  obtain ⟨g, records, hbuild⟩ := exists_buildRecords_six (validate_padded k) rfl rfl
  have hnames : ∀ i < 6, (Config.sixNodes.nodeFile i).bytes.length = 11 ∧
      overlooked.TakesFile [.ofText "o", Config.sixNodes.nodeFile i] := by decide
  obtain ⟨t', hrun⟩ :=
    exists_generateInDirectory_eq_ok (finds_overlooked hk) hbuild (.inr rfl) fun i hi => by
      obtain ⟨hlength, htakes⟩ := hnames i hi
      have hlength : ((Config.padded k).nodeFile i).bytes.length = 11 := hlength
      rw [Path.Admits, length_join_padded, hlength]
      exact ⟨⟨by decide, by omega⟩, htakes⟩
  refine ⟨_, t', hrun, ?_⟩
  rw [Config.staleNames, artifactNames_overlooked hk hlong]
  rfl

/-- The path of a stale artifact may be too long to be looked up, where those of all nodes are
not. -/
theorem not_forall_stale_counted :
    ¬∀ (c : Config) (fresh : DrawSource) (patience : Nat) (t t' : FileTree) (summary : Summary),
      t.LinkFree → .up ∉ c.outputPath.route.steps →
        generateInDirectory c fresh patience t = (.ok summary, t') →
          ∃ stale : List Name, stale.Nodup ∧
            (∀ n, n ∈ stale ↔
              (n.isArtifact = true ∧
                ∃ content, t.get? (c.outputLocation t ++ [n]) = some (.file content)) ∧
              ∀ i < c.network.numNodes, n ≠ c.nodeFile i) ∧
            summary.staleRemoved = stale.length := by
  intro hall
  obtain ⟨k, hk⟩ : ∃ k, k = 4082 := ⟨_, rfl⟩
  have hshort : k + 13 ≤ pathLimit := hk ▸ by decide
  have hlong : pathLimit < k + 14 := hk ▸ by decide
  obtain ⟨summary, t', hrun, hcount⟩ := exists_run_padded hshort hlong
  have hup : .up ∉ (Config.padded k).outputPath.route.steps := by
    simp [route_padded]
  obtain ⟨stale, -, hmem, hlength⟩ :=
    hall _ _ _ _ _ _ (finds_overlooked (k := 0) (by decide)).linkFree hup hrun
  have hlocation : (Config.padded k).outputLocation overlooked = [.ofText "o"] := by
    have hworkdir : overlooked.workdir = [] := by decide +kernel
    rw [Config.outputLocation, route_padded, hworkdir]
    rfl
  have hstale : Name.ofText "config10.ini" ∈ stale := by
    have hother : ∀ i < 6, Name.ofText "config10.ini" ≠ Config.sixNodes.nodeFile i := by
      decide +kernel
    rw [hmem, hlocation]
    exact ⟨⟨by decide +kernel, "earlier", by decide +kernel⟩, hother⟩
  rw [hcount] at hlength
  exact absurd (List.length_pos_of_mem hstale) (by omega)

end PeerOverlay
