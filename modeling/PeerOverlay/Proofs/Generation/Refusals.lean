/-
What a run that fails leaves of its output directory.

A run that is refused, for its configuration or for the artifacts that it finds, has touched
nothing.  One that cannot write an artifact has made its directory and has written the
artifacts of the nodes before, `Config.StopsAt`; removing what is stale comes later, so all
that an earlier run left for other nodes is still there.

* `generateInDirectory_eq_existing_iff` — when a run is refused for artifacts in its directory;
* `stopsAt_of_generateInDirectory` — what a run leaves that cannot write an artifact;
* `generateInDirectory_failure_frame` — both, for every run that fails;
* `not_forall_existing_refused` — an artifact whose path is too long does not get a run
  refused.
-/
import PeerOverlay.Proofs.FileTree.Way
import PeerOverlay.Proofs.Generation.Leftovers

namespace PeerOverlay

variable {c : Config} {fresh : DrawSource} {patience : Nat} {t t' u : FileTree} {g : Graph}
  {records : List NodeRecord} {e : RunError} {loc : Location} {j : NodeId} {cause : SinkError}

/-! ### Refused before anything is made -/

/-- A valid configuration fails for want of an overlay or at a record that is refused. -/
theorem generateInto_eq_error_of_validate {σ : Type} {store : Store σ} {s s' : σ}
    (hvalid : c.validate = .ok ()) (h : generateInto c fresh patience store s = (.error e, s')) :
    (∃ cause, e = .overlay cause) ∨
      ∃ g records front r back w cause, buildRecords c fresh patience = .ok (g, records) ∧
        records = front ++ r :: back ∧ storeAll store front s = (.ok (), w) ∧
          store r w = (.error cause, s') ∧ e = .store r.node cause := by
  rcases generateInto_eq_error_iff.mp h with ⟨hbuild, -⟩ | ⟨g, records, hbuild, hstored⟩
  · exact .inl (buildRecords_eq_error_of_validate hvalid hbuild)
  · obtain ⟨front, r, back, w, cause, hstop⟩ := storeAll_eq_error_iff.mp hstored
    exact .inr ⟨g, records, front, r, back, w, cause, hbuild, hstop⟩

theorem generateInDirectory_eq_invalid {cause : ValidationError}
    (hrun : generateInDirectory c fresh patience t = (.error (.invalid cause), t')) : t' = t := by
  rcases generateInDirectory_eq_error_iff.mp hrun with ⟨_, -, -, rfl⟩ |
    ⟨hvalid, ⟨_, -, hno⟩ | ⟨s, u, -, ⟨s', hinto⟩ | ⟨_, _, _, _, -, -, hno⟩⟩⟩
  · rfl
  · cases hno
  · obtain ⟨_, hno⟩ | ⟨_, _, _, _, _, _, _, -, -, -, -, hno⟩ :=
      generateInto_eq_error_of_validate hvalid hinto <;> cases hno
  · cases hno

/-- A run is refused for artifacts exactly if its sink is. -/
theorem generateInDirectory_eq_existing_iff {path : Path} {existing : List Path} :
    generateInDirectory c fresh patience t =
        (.error (.directory (.existingArtifacts path existing)), t') ↔
      c.validate = .ok () ∧
        DirectorySink.openAt t c.outputPath c.general.format c.node c.general.overwrite =
          (.error (.existingArtifacts path existing), t') := by
  rw [generateInDirectory_eq_error_iff]
  constructor
  · rintro (⟨_, -, hno, -⟩ | ⟨hvalid, ⟨cause, hopen, hcause⟩ |
      ⟨s, u, -, ⟨s', hinto⟩ | ⟨_, _, _, cause, -, hremoved, hcause⟩⟩⟩)
    · cases hno
    · obtain rfl := RunError.directory.inj hcause
      exact ⟨hvalid, hopen⟩
    · obtain ⟨_, hno⟩ | ⟨_, _, _, _, _, _, _, -, -, -, -, hno⟩ :=
        generateInto_eq_error_of_validate hvalid hinto <;> cases hno
    · obtain ⟨_, _, rfl⟩ := DirectorySink.removeAll_eq_error hremoved
      cases hcause
  · rintro ⟨hvalid, hopen⟩
    exact .inr ⟨hvalid, .inl ⟨_, hopen, rfl⟩⟩

/-- A directory gets a run refused by any artifact in it that can be looked up. -/
theorem exists_existing_iff (hlinks : t.LinkFree) (hvalid : c.validate = .ok ())
    (hdir : t.resolve true c.outputPath.route = .ok (.present loc .directory)) :
    (∃ path existing t', generateInDirectory c fresh patience t =
        (.error (.directory (.existingArtifacts path existing)), t')) ↔
      c.general.overwrite = false ∧ ∃ n content, n.isArtifact = true ∧ c.outputPath.Admits n ∧
        t.get? (loc ++ [n]) = some (.file content) := by
  have hfinds : t.Finds c.outputPath loc := ⟨hlinks, hdir⟩
  have hlisted := existingArtifacts_eq hdir
  constructor
  · rintro ⟨path, existing, t', hrun⟩
    obtain ⟨-, hopen⟩ := generateInDirectory_eq_existing_iff.mp hrun
    obtain ⟨-, hexisting, hne, hno, -, -⟩ := DirectorySink.openAt_eq_existing_iff.mp hopen
    rw [hlisted] at hexisting
    obtain rfl := Except.ok.inj hexisting
    obtain ⟨n, hn⟩ := List.exists_mem_of_ne_nil _ (mt List.map_eq_nil_iff.mpr hne)
    obtain ⟨hname, hadmits, content, hfile⟩ := (mem_artifactNames hfinds).mp hn
    exact ⟨hno, n, content, hname, hadmits, hfile⟩
  · rintro ⟨hno, n, content, hname, hadmits, hfile⟩
    have hn := (mem_artifactNames hfinds).mpr ⟨hname, hadmits, content, hfile⟩
    refine ⟨_, _, t, generateInDirectory_eq_existing_iff.mpr ⟨hvalid,
      DirectorySink.openAt_eq_existing_iff.mpr
        ⟨FileTree.isDirectory_iff.mpr ⟨loc, hdir⟩, hlisted, ?_, hno, rfl, rfl⟩⟩⟩
    exact List.ne_nil_of_mem (List.mem_map_of_mem hn)

/-! ### Stopped at an artifact that cannot be written -/

namespace Config

/-- Where the path of the output directory leads in a tree without links. -/
def outputPlace (c : Config) (t : FileTree) : Location :=
  c.outputPath.route.spelledFrom t.workdir

/-- What a run leaves that could not write the artifact of node `j`.  The artifacts of the
nodes before are there, the directory was made if it was missing, with those on the way to it,
and all else is as it was. -/
structure StopsAt (c : Config) (t t' : FileTree) (records : List NodeRecord) (j : NodeId) :
    Prop where
  lt : j < c.network.numNodes
  found : t'.resolve true c.outputPath.route = .ok (.present (c.outputPlace t) .directory)
  written : ∀ i < j, ∃ r, records[i]? = some r ∧
    t'.get? (c.outputPlace t ++ [c.nodeFile i]) = some (.file (c.general.format.render r c.node))
  unchanged : ∀ l, (∀ i < j, l ≠ c.outputPlace t ++ [c.nodeFile i]) →
    t'.get? l = if t.get? l = none ∧ l ∈ c.outputPath.route.way t.workdir then some .directory
      else t.get? l

end Config

/-- A sink that was opened stands in its directory, whatever the way to it. -/
theorem finds_of_openAt {s : DirectorySink} (hlinks : t.LinkFree) (hvalid : c.validate = .ok ())
    (hopen : DirectorySink.openAt t c.outputPath c.general.format c.node c.general.overwrite =
      (.ok s, u)) :
    s.dir = c.outputPath ∧ s.format = c.general.format ∧ s.settings = c.node ∧
      u.Finds c.outputPath (c.outputPlace t) ∧
      ∀ l, u.get? l = if t.get? l = none ∧ l ∈ c.outputPath.route.way t.workdir then
        some .directory else t.get? l := by
  obtain ⟨existing, -, -, hmade, rfl⟩ := DirectorySink.openAt_eq_ok hopen
  have hempty := Path.isEmpty_route (Config.outputPath_ne_nil hvalid)
  have hgains := t.gainsDirectories_createDirAll c.outputPath.route
  rw [hmade] at hgains
  have hlinks' := hgains.linkFree hlinks
  obtain ⟨loc, hfound⟩ := FileTree.isDirectory_iff.mp (FileTree.isDirectory_of_createDirAll hempty hmade)
  have hloc : loc = c.outputPlace t := by
    rw [FileTree.location_of_resolve hlinks' hfound, hgains.workdir, Config.outputPlace]
  exact ⟨rfl, rfl, rfl, ⟨hlinks', hloc ▸ hfound⟩, FileTree.get?_createDirAll hlinks hempty hmade⟩

theorem stopsAt_of_generateInDirectory (hlinks : t.LinkFree)
    (hrun : generateInDirectory c fresh patience t = (.error (.store j cause), t')) :
    ∃ io g records, cause = .write j (c.outputPath.join (c.nodeFile j)) io ∧
      buildRecords c fresh patience = .ok (g, records) ∧ c.StopsAt t t' records j := by
  rcases generateInDirectory_eq_error_iff.mp hrun with ⟨_, -, hno, -⟩ |
    ⟨hvalid, ⟨_, -, hno⟩ | ⟨s, u, hopen, ⟨s', hinto⟩ | ⟨_, _, _, _, -, -, hno⟩⟩⟩
  · cases hno
  · cases hno
  · obtain ⟨_, hno⟩ | ⟨g, records, front, r, back, ⟨s₁, u₁⟩, _, hbuild, hsplit, hfront, hr, he⟩ :=
      generateInto_eq_error_of_validate hvalid hinto
    · cases hno
    obtain ⟨-, w, -, rfl, rfl⟩ := buildRecords_eq_ok_iff.mp hbuild
    obtain ⟨rfl, rfl⟩ := RunError.store.inj he
    obtain ⟨⟨io, -, rfl⟩, rfl, rfl⟩ := DirectorySink.store_eq_error_iff.mp hr
    obtain ⟨hlt, hprefix⟩ := Config.recordsOn_eq_append hsplit
    obtain ⟨hdir, hformat, hsettings, hfinds, hget⟩ := finds_of_openAt hlinks hvalid hopen
    rw [← hdir] at hfinds
    -- All records before were written into the directory, so what they leave is known.
    have hnodes : ∀ x ∈ front, x.node < UInt64.size := fun x hx =>
      Config.lt_size_of_mem_recordsOn (g := w.graph) hvalid x (hsplit ▸ List.mem_append_left _ hx)
    obtain ⟨htakes, rfl, rfl⟩ := (DirectorySink.storeAll_eq_ok_iff hfinds hnodes).mp hfront
    subst hprefix
    have hfound := (DirectorySink.finds_foldl_putArtifact hfinds htakes).resolve
    obtain ⟨hfiles, helse⟩ := Config.get?_foldl_nodeRecords hformat hsettings hfinds fun i hi =>
      htakes _ (List.mem_map.mpr ⟨i, List.mem_range.mpr hi, rfl⟩)
    refine ⟨io, w.graph, _, ?_, hbuild, hlt, hdir ▸ hfound, fun i hi => ?_, fun l hl => ?_⟩
    · rw [DirectorySink.pathFor, hdir, hformat]
      rfl
    · exact ⟨_, Config.getElem?_recordsOn w.graph (hi.trans hlt), hfiles i hi⟩
    · rw [← hget]
      exact helse l hl
  · cases hno

/-- **A run that fails leaves no trace but what it wrote.**  Refused for its configuration or
for artifacts in its directory, it leaves the tree as it was; it is refused for artifacts
exactly if it may not overwrite and its directory holds one whose name and path are short
enough to be looked up.  If the artifact of a node cannot be written, those of the nodes before
are there and all else is as it was, but for the directory and missing ones on the way to it. -/
theorem generateInDirectory_failure_frame (hlinks : t.LinkFree) :
    (∀ e t', generateInDirectory c fresh patience t = (.error e, t') →
      (∀ cause, e = .invalid cause → t' = t) ∧
      (∀ path existing, e = .directory (.existingArtifacts path existing) → t' = t) ∧
      ∀ j cause, e = .store j cause →
        ∃ io g records, cause = .write j (c.outputPath.join (c.nodeFile j)) io ∧
          buildRecords c fresh patience = .ok (g, records) ∧ c.StopsAt t t' records j) ∧
    (c.validate = .ok () → ∀ loc,
      t.resolve true c.outputPath.route = .ok (.present loc .directory) →
        ((∃ path existing t', generateInDirectory c fresh patience t =
            (.error (.directory (.existingArtifacts path existing)), t')) ↔
          c.general.overwrite = false ∧ ∃ n content, n.isArtifact = true ∧
            c.outputPath.Admits n ∧ t.get? (loc ++ [n]) = some (.file content))) := by
  refine ⟨fun e t' hrun => ⟨?_, ?_, ?_⟩, fun hvalid loc => exists_existing_iff hlinks hvalid⟩
  · rintro cause rfl
    exact generateInDirectory_eq_invalid hrun
  · rintro path existing rfl
    obtain ⟨-, hopen⟩ := generateInDirectory_eq_existing_iff.mp hrun
    obtain ⟨-, -, -, -, -, hsame⟩ := DirectorySink.openAt_eq_existing_iff.mp hopen
    exact hsame
  · rintro j cause rfl
    exact stopsAt_of_generateInDirectory hlinks hrun

/-- A run into a directory that is there stops at the first artifact that cannot be written. -/
theorem exists_generateInDirectory_eq_error (hfinds : t.Finds c.outputPath loc)
    (hbuild : buildRecords c fresh patience = .ok (g, records))
    (hallowed : artifactNames t c.outputPath loc = [] ∨ c.general.overwrite = true)
    (hj : j < c.network.numNodes)
    (hbefore : ∀ i < j, c.outputPath.Admits (c.nodeFile i) ∧ t.TakesFile (loc ++ [c.nodeFile i]))
    (hblocked : ¬t.TakesFile (loc ++ [c.nodeFile j])) :
    ∃ cause t', generateInDirectory c fresh patience t = (.error (.store j cause), t') := by
  obtain ⟨hvalid, w, -, rfl, rfl⟩ := buildRecords_eq_ok_iff.mp hbuild
  have hopen : DirectorySink.openAt t c.outputPath c.general.format c.node c.general.overwrite =
      (.ok (c.sinkAt t loc), t) := DirectorySink.openAt_of_resolve hfinds.resolve hallowed
  have hfinds : t.Finds (c.sinkAt t loc).dir loc := hfinds
  obtain ⟨front, back, hsplit⟩ :=
    List.append_of_mem (Config.nodeRecord_mem_recordsOn (g := w.graph) hj)
  obtain ⟨-, hfront⟩ := Config.recordsOn_eq_append hsplit
  have hnodes : ∀ x ∈ front ++ [c.nodeRecord w.graph j], x.node < UInt64.size := by
    intro x hx
    refine Config.lt_size_of_mem_recordsOn (g := w.graph) hvalid x ?_
    rw [hsplit, List.append_cons]
    exact List.mem_append_left _ hx
  have htakes : ∀ x ∈ front, (c.sinkAt t loc).Takes t loc x := by
    intro x hx
    rw [hfront] at hx
    obtain ⟨i, hi, rfl⟩ := List.mem_map.mp hx
    exact hbefore i (List.mem_range.mp hi)
  obtain ⟨cause, ⟨s', t'⟩, hstored⟩ := DirectorySink.exists_storeAll_eq_error hfinds hnodes htakes
    (fun hr => hblocked hr.2) back
  rw [← hsplit] at hstored
  exact ⟨cause, t', (generateInDirectory_of_openAt hvalid hopen).mpr
    (.inl ⟨s', generateInto_eq_error_iff.mpr (.inr ⟨_, _, hbuild, hstored⟩)⟩)⟩

/-- A directory in which the artifact of node three cannot be written. -/
def blocked : FileTree :=
  FileTree.empty.put [.ofText "out"] .directory
    |>.put [.ofText "out", .ofText "config0.ini"] (.file "earlier")
    |>.put [.ofText "out", .ofText "config3.ini"] .directory
    |>.put [.ofText "out", .ofText "config5.ini"] (.file "earlier")
    |>.put [.ofText "out", .ofText "config9.ini"] (.file "earlier")

theorem finds_blocked : blocked.Finds Config.rerun.outputPath [.ofText "out"] := by
  have hroute : Config.rerun.outputPath.route =
      ⟨false, [.down (.ofText "out")], false, 3⟩ := by decide
  exact .of_route (FileTree.linkFree_of_entries (by decide)) hroute (by decide) (by decide)
    (by decide) (by decide) (by decide)

/-- The run writes three artifacts there and leaves the others of the earlier run. -/
theorem generateInDirectory_failure_frame_blocked :
    blocked.LinkFree ∧ ∃ cause t' io g records,
      generateInDirectory .rerun weylSource 64 blocked = (.error (.store 3 cause), t') ∧
        cause = .write 3 (Config.rerun.outputPath.join (Config.rerun.nodeFile 3)) io ∧
        buildRecords .rerun weylSource 64 = .ok (g, records) ∧
        Config.rerun.StopsAt blocked t' records 3 := by
  obtain ⟨g, records, hbuild⟩ := exists_buildRecords_six (c := .rerun) (by decide) rfl rfl
  obtain ⟨cause, t', hrun⟩ := exists_generateInDirectory_eq_error (j := 3) finds_blocked hbuild
    (.inr rfl) (by decide) (by decide) (by decide)
  obtain ⟨hfailed, -⟩ :=
    @generateInDirectory_failure_frame .rerun weylSource 64 blocked finds_blocked.linkFree
  obtain ⟨io, g', records', hcause, hbuild', hstops⟩ := (hfailed _ _ hrun).2.2 3 cause rfl
  exact ⟨finds_blocked.linkFree, cause, t', io, g', records', hrun, hcause, hbuild', hstops⟩

/-! ### An artifact that is passed over -/

/-- A run into `o`, spelled with slashes that it does not need, that may not overwrite. -/
def Config.wary (k : Nat) : Config where
  __ := Config.padded k
  general := { (Config.padded k).general with overwrite := false }

/-- An artifact whose path is too long to be looked up does not get a run refused. -/
theorem not_forall_existing_refused :
    ¬∀ (c : Config) (fresh : DrawSource) (patience : Nat) (t : FileTree) (loc : Location),
      t.LinkFree → c.validate = .ok () →
        t.resolve true c.outputPath.route = .ok (.present loc .directory) →
          ((∃ path existing t', generateInDirectory c fresh patience t =
              (.error (.directory (.existingArtifacts path existing)), t')) ↔
            c.general.overwrite = false ∧ ∃ n content, n.isArtifact = true ∧
              t.get? (loc ++ [n]) = some (.file content)) := by
  intro hall
  obtain ⟨k, hk⟩ : ∃ k, k = 4082 := ⟨_, rfl⟩
  have hfits : k + 2 ≤ pathLimit := hk ▸ by decide
  have hlong : pathLimit < k + 14 := hk ▸ by decide
  have hfinds : overlooked.Finds (Config.wary k).outputPath [.ofText "o"] := finds_overlooked hfits
  have hfile : overlooked.get? [.ofText "o", .ofText "config10.ini"] = some (.file "earlier") := by
    decide
  obtain ⟨path, existing, t', hrefused⟩ := (hall (.wary k) weylSource 64 overlooked _
    hfinds.linkFree (validate_padded k) hfinds.resolve).mpr
      ⟨rfl, .ofText "config10.ini", "earlier", by decide, hfile⟩
  obtain ⟨-, hopen⟩ := generateInDirectory_eq_existing_iff.mp hrefused
  obtain ⟨-, hfound, hne, -⟩ := DirectorySink.openAt_eq_existing_iff.mp hopen
  -- Nothing is found there, so there is nothing to be refused for.
  have hnone : artifactNames overlooked (Config.wary k).outputPath [.ofText "o"] = [] :=
    artifactNames_overlooked hfits hlong
  rw [existingArtifacts_eq hfinds.resolve, hnone] at hfound
  exact hne (Except.ok.inj hfound).symm

end PeerOverlay
