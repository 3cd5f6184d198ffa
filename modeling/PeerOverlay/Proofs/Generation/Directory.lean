/-
A run into its output directory.

* `generateInDirectory_eq_ok_iff` — a run opens its sink, stores all its records and removes
  what is stale;
* `Config.HoldsRun` — a tree with the artifacts of a run, before and after the removal;
* `exists_generateInDirectory_eq_ok` — a run succeeds if its artifacts can be written.
-/
import PeerOverlay.Proofs.Generation.Build
import PeerOverlay.Proofs.Sink.Directory

namespace PeerOverlay

variable {c : Config} {fresh : DrawSource} {patience : Nat} {t t' u v : FileTree}
  {summary : Summary} {g : Graph} {records : List NodeRecord} {e : RunError}
  {loc : Location} {n : Name}

/-! ### The steps of a run -/

namespace Config

/-- The path of the output directory. -/
def outputPath (c : Config) : Path :=
  .ofText c.general.outputDir

/-- The name of a node's artifact. -/
def nodeFile (c : Config) (node : NodeId) : Name :=
  c.general.format.artifactName node

/-- Where the output directory of a configuration lies, as its path is spelled. -/
def outputLocation (c : Config) (t : FileTree) : Location :=
  c.outputPath.route.startFrom t.workdir ++ c.outputPath.route.steps.filterMap Step.name?

theorem outputPath_ne_nil (h : c.validate = .ok ()) : c.outputPath.bytes ≠ [] := by
  intro hnil
  have hempty : c.general.outputDir = "" := Text.Utf8.encode_injective hnil
  have hgeneral := (validate_eq_ok_iff.mp h).1
  rw [checkGeneral, if_pos hempty] at hgeneral
  cases hgeneral

end Config

theorem generateInDirectory_eq_ok_iff :
    generateInDirectory c fresh patience t = (.ok summary, t') ↔
      c.validate = .ok () ∧ ∃ s u g records s' v,
        DirectorySink.openAt t c.outputPath c.general.format c.node c.general.overwrite =
          (.ok s, u) ∧
        buildRecords c fresh patience = .ok (g, records) ∧
        storeAll DirectorySink.store records (s, u) = (.ok (), s', v) ∧
        DirectorySink.removeAll v s'.stale = (.ok (), t') ∧
        summary = { summarize g records with staleRemoved := s'.stale.length } := by
  constructor
  · intro h
    rw [generateInDirectory, ← Config.outputPath] at h
    rcases hvalid : c.validate with _ | ⟨⟩
    · rw [hvalid] at h
      cases (Prod.mk.inj h).1
    rcases hopen : DirectorySink.openAt t c.outputPath c.general.format c.node
      c.general.overwrite with ⟨_ | s, u⟩
    · simp only [hvalid, hopen] at h
      cases (Prod.mk.inj h).1
    rcases hrun : generateInto c fresh patience DirectorySink.store (s, u) with ⟨_ | _, s', v⟩
    · simp only [hvalid, hopen, hrun] at h
      cases (Prod.mk.inj h).1
    rcases hstale : s'.removeStale v with ⟨_ | removed, s'', w⟩
    · simp only [hvalid, hopen, hrun, hstale] at h
      cases (Prod.mk.inj h).1
    obtain ⟨g, records, hbuild, hstored, rfl⟩ := generateInto_eq_ok_iff.mp hrun
    obtain ⟨hremoved, rfl, -⟩ := DirectorySink.removeStale_eq_ok_iff.mp hstale
    simp only [hvalid, hopen, hrun, hstale] at h
    obtain ⟨hsummary, rfl⟩ := Prod.mk.inj h
    exact ⟨rfl, s, u, g, records, s', v, rfl, hbuild, hstored, hremoved,
      (Except.ok.inj hsummary).symm⟩
  · rintro ⟨hvalid, s, u, g, records, s', v, hopen, hbuild, hstored, hremoved, rfl⟩
    have hrun := generateInto_eq_ok_iff.mpr ⟨g, records, hbuild, hstored, rfl⟩
    have hstale := DirectorySink.removeStale_eq_ok_iff.mpr ⟨hremoved, rfl, rfl⟩
    rw [Config.outputPath] at hopen
    simp only [generateInDirectory, hvalid, hopen, hrun, hstale]

theorem generateInDirectory_of_openAt {s : DirectorySink} (hvalid : c.validate = .ok ())
    (hopen : DirectorySink.openAt t c.outputPath c.general.format c.node c.general.overwrite =
      (.ok s, u)) :
    generateInDirectory c fresh patience t = (.error e, t') ↔
      (∃ s', generateInto c fresh patience DirectorySink.store (s, u) = (.error e, s', t')) ∨
        ∃ summary s' v cause,
          generateInto c fresh patience DirectorySink.store (s, u) = (.ok summary, s', v) ∧
            DirectorySink.removeAll v s'.stale = (.error cause, t') ∧ e = .directory cause := by
  rw [generateInDirectory, hvalid, ← Config.outputPath]
  simp only [hopen]
  rcases generateInto c fresh patience DirectorySink.store (s, u) with ⟨e' | summary, s', v⟩
  · simp [eq_comm]
  · simp only [DirectorySink.removeStale]
    rcases hremoved : DirectorySink.removeAll v s'.stale with ⟨cause | ⟨⟩, w⟩
    · simp [Except.map, hremoved, eq_comm, and_comm]
    · simp [Except.map, hremoved]

theorem generateInDirectory_eq_error_iff :
    generateInDirectory c fresh patience t = (.error e, t') ↔
      (∃ cause, c.validate = .error cause ∧ e = .invalid cause ∧ t' = t) ∨
        c.validate = .ok () ∧
          ((∃ cause, DirectorySink.openAt t c.outputPath c.general.format c.node
                c.general.overwrite = (.error cause, t') ∧ e = .directory cause) ∨
            ∃ s u, DirectorySink.openAt t c.outputPath c.general.format c.node
                c.general.overwrite = (.ok s, u) ∧
              ((∃ s', generateInto c fresh patience DirectorySink.store (s, u) =
                  (.error e, s', t')) ∨
                ∃ summary s' v cause,
                  generateInto c fresh patience DirectorySink.store (s, u) =
                      (.ok summary, s', v) ∧
                    DirectorySink.removeAll v s'.stale = (.error cause, t') ∧
                      e = .directory cause)) := by
  rcases hvalid : c.validate with cause | ⟨⟩
  · rw [generateInDirectory, hvalid]
    simp [eq_comm]
  · rcases hopen : DirectorySink.openAt t c.outputPath c.general.format c.node
      c.general.overwrite with ⟨cause | s, u⟩
    · rw [generateInDirectory, hvalid, ← Config.outputPath]
      simp [hopen, eq_comm, and_comm]
    · rw [generateInDirectory_of_openAt hvalid hopen]
      constructor
      · exact fun h => .inr ⟨rfl, .inr ⟨s, u, rfl, h⟩⟩
      · rintro (⟨cause, hno, -⟩ | ⟨-, ⟨cause, hno, -⟩ | ⟨s₁, u₁, hsame, h⟩⟩)
        · cases hno
        · cases (Prod.mk.inj hno).1
        · obtain ⟨hs, rfl⟩ := Prod.mk.inj hsame
          obtain rfl := Except.ok.inj hs
          exact h

/-! ### Artifacts of a run -/

namespace Config

/-- The sink of a run that found its directory at a location. -/
def sinkAt (c : Config) (t : FileTree) (loc : Location) : DirectorySink :=
  ⟨c.outputPath, c.general.format, c.node,
    (artifactNames t c.outputPath loc).map c.outputPath.join, []⟩

@[simp] theorem format_sinkAt (c : Config) (t : FileTree) (loc : Location) :
    (c.sinkAt t loc).format = c.general.format :=
  rfl

@[simp] theorem settings_sinkAt (c : Config) (t : FileTree) (loc : Location) :
    (c.sinkAt t loc).settings = c.node :=
  rfl

/-- The artifacts found in a directory that are not those of a node of this run. -/
def staleNames (c : Config) (t : FileTree) (loc : Location) : List Name :=
  (artifactNames t c.outputPath loc).filter fun n => ∀ i < c.network.numNodes, n ≠ c.nodeFile i

/-- Nodes of a valid configuration have small numbers. -/
theorem lt_size_of_validate (h : c.validate = .ok ()) {i : Nat}
    (hi : i < c.network.numNodes) : i < UInt64.size := by
  have hfits := fits_of_validate h hi .tcpReceiver
  exact Nat.lt_of_le_of_lt (Nat.le_trans (Nat.le_add_left _ _) hfits) (by decide)

/-- The record of a node of a graph. -/
def nodeRecord (c : Config) (g : Graph) (i : NodeId) : NodeRecord :=
  c.ports.record c.network.transport c.network.host i (g.neighbors i)

theorem node_nodeRecord (c : Config) (g : Graph) (i : NodeId) : (c.nodeRecord g i).node = i :=
  rfl

theorem mem_recordsOn {r : NodeRecord} :
    r ∈ c.recordsOn g ↔ ∃ i < c.network.numNodes, r = c.nodeRecord g i := by
  simp [recordsOn, nodeRecord, eq_comm]

theorem nodeRecord_mem_recordsOn {i : NodeId} (h : i < c.network.numNodes) :
    c.nodeRecord g i ∈ c.recordsOn g :=
  mem_recordsOn.mpr ⟨i, h, rfl⟩

theorem lt_size_of_mem_recordsOn (h : c.validate = .ok ()) :
    ∀ r ∈ c.recordsOn g, r.node < UInt64.size := by
  intro r hr
  obtain ⟨i, hi, rfl⟩ := mem_recordsOn.mp hr
  exact lt_size_of_validate h hi

/-- What the sink of a run counts as stale once all records are stored. -/
theorem stale_sinkAt (c : Config) (g : Graph) (t : FileTree) (loc : Location) :
    DirectorySink.stale { c.sinkAt t loc with
      written := (c.sinkAt t loc).written ++
        (c.recordsOn g).map fun r => (c.sinkAt t loc).pathFor r.node } =
      (c.staleNames t loc).map c.outputPath.join := by
  have hwritten : ∀ n : Name, c.outputPath.join n ∈ (c.sinkAt t loc).written ++
      ((c.recordsOn g).map fun r => (c.sinkAt t loc).pathFor r.node) ↔
        ∃ i < c.network.numNodes, n = c.nodeFile i := by
    intro n
    rw [sinkAt, List.nil_append, List.mem_map]
    constructor
    · rintro ⟨r, hr, hpath⟩
      obtain ⟨i, hi, rfl⟩ := mem_recordsOn.mp hr
      exact ⟨i, hi, (Path.join_injective _ hpath).symm⟩
    · rintro ⟨i, hi, rfl⟩
      exact ⟨c.nodeRecord g i, nodeRecord_mem_recordsOn hi, rfl⟩
  rw [DirectorySink.stale, staleNames, sinkAt, List.filter_map]
  refine congrArg (List.map c.outputPath.join) (List.filter_congr fun n _ => ?_)
  rw [Function.comp_apply, Bool.eq_iff_iff, Bool.not_eq_true', Bool.eq_false_iff, ne_eq,
    List.contains_iff_mem]
  exact (not_congr (hwritten n)).trans (by simp)

theorem mem_staleNames (hlinks : t.LinkFree) (hprovides : t.Provides u c.outputPath.route loc) :
    n ∈ c.staleNames t loc ↔
      (n.isArtifact = true ∧ c.outputPath.Admits n ∧
        ∃ content, t.get? (loc ++ [n]) = some (.file content)) ∧
      ∀ i < c.network.numNodes, n ≠ c.nodeFile i := by
  rw [staleNames, List.mem_filter, decide_eq_true_eq,
    mem_artifactNames_of_provides hlinks hprovides]

/-- A tree that holds the artifacts of a run in its output directory, and for all else what is
given. -/
structure HoldsRun (c : Config) (g : Graph) (loc : Location) (else? : Location → Option Entry)
    (v : FileTree) : Prop where
  finds : v.Finds c.outputPath loc
  admits : ∀ i < c.network.numNodes, c.outputPath.Admits (c.nodeFile i)
  get?_nodeFile : ∀ i < c.network.numNodes, v.get? (loc ++ [c.nodeFile i]) =
    some (.file (c.general.format.render (c.nodeRecord g i) c.node))
  get?_eq : ∀ l, (∀ i < c.network.numNodes, l ≠ loc ++ [c.nodeFile i]) → v.get? l = else? l

/-- What a tree holds apart from the stale artifacts of another. -/
def apartFromStale (c : Config) (t u : FileTree) (loc l : Location) : Option Entry :=
  if ∃ n ∈ c.staleNames t loc, l = loc ++ [n] then none else u.get? l

/-- What a tree holds once a sink with the settings of a run has stored the records of the
first nodes. -/
theorem get?_foldl_nodeRecords {s : DirectorySink} {j : Nat}
    (hformat : s.format = c.general.format) (hsettings : s.settings = c.node)
    (hu : u.Finds s.dir loc) (htakes : ∀ i < j, s.Takes u loc (c.nodeRecord g i)) :
    (∀ i < j, (((List.range j).map (c.nodeRecord g)).foldl (s.putArtifact loc) u).get?
        (loc ++ [c.nodeFile i]) =
      some (.file (c.general.format.render (c.nodeRecord g i) c.node))) ∧
    ∀ l, (∀ i < j, l ≠ loc ++ [c.nodeFile i]) →
      (((List.range j).map (c.nodeRecord g)).foldl (s.putArtifact loc) u).get? l = u.get? l := by
  have hmem : ∀ {r : NodeRecord}, r ∈ (List.range j).map (c.nodeRecord g) ↔
      ∃ i < j, r = c.nodeRecord g i := by
    intro r
    simp [eq_comm]
  have htakes : ∀ r ∈ (List.range j).map (c.nodeRecord g), s.Takes u loc r := by
    intro r hr
    obtain ⟨i, hi, rfl⟩ := hmem.mp hr
    exact htakes i hi
  constructor
  · intro i hi
    have honly : ∀ r ∈ (List.range j).map (c.nodeRecord g),
        r.node = (c.nodeRecord g i).node → r = c.nodeRecord g i := by
      intro r hr hnode
      obtain ⟨i', -, rfl⟩ := hmem.mp hr
      rw [node_nodeRecord, node_nodeRecord] at hnode
      rw [hnode]
    have hfile := DirectorySink.get?_foldl_putArtifact_of_mem hu htakes
      (hmem.mpr ⟨i, hi, rfl⟩) honly
    rwa [node_nodeRecord, hformat, hsettings] at hfile
  · intro l hl
    refine DirectorySink.get?_foldl_putArtifact_of_forall_ne hu htakes fun r hr => ?_
    obtain ⟨i, hi, rfl⟩ := hmem.mp hr
    rw [hformat]
    exact hl i hi

theorem holdsRun_of_takes (hu : u.Finds c.outputPath loc)
    (htakes : ∀ r ∈ c.recordsOn g, (c.sinkAt t loc).Takes u loc r) :
    c.HoldsRun g loc u.get? ((c.recordsOn g).foldl ((c.sinkAt t loc).putArtifact loc) u) := by
  have hu : u.Finds (c.sinkAt t loc).dir loc := hu
  obtain ⟨hfiles, helse⟩ := get?_foldl_nodeRecords (format_sinkAt c t loc)
    (settings_sinkAt c t loc) hu fun i hi => htakes _ (nodeRecord_mem_recordsOn hi)
  refine ⟨DirectorySink.finds_foldl_putArtifact hu htakes, ?_, hfiles, helse⟩
  intro i hi
  exact (htakes (c.nodeRecord g i) (nodeRecord_mem_recordsOn hi)).1

/-- All stale artifacts can be removed once the records are stored. -/
theorem HoldsRun.exists_removed (hlinks : t.LinkFree)
    (hprovides : t.Provides u c.outputPath.route loc) (h : c.HoldsRun g loc u.get? v) :
    ∃ w, DirectorySink.removeAll v ((c.staleNames t loc).map c.outputPath.join) = (.ok (), w) ∧
      c.HoldsRun g loc (c.apartFromStale t u loc) w := by
  have hne : ∀ {n n' : Name}, n ≠ n' → loc ++ [n] ≠ loc ++ [n'] := fun hn hsame =>
    hn (by simpa using hsame)
  have hfiles : ∀ n ∈ c.staleNames t loc, n.Plain ∧ c.outputPath.Admits n ∧
      ∃ content, v.get? (loc ++ [n]) = some (.file content) := by
    intro n hn
    obtain ⟨⟨hname, hadmits, hfile⟩, hother⟩ := (mem_staleNames hlinks hprovides).mp hn
    refine ⟨.of_isArtifact hname, hadmits, ?_⟩
    rwa [h.get?_eq _ fun i hi => hne (hother i hi), hprovides.get?_child]
  obtain ⟨w, hremoved, hw, hget⟩ := DirectorySink.removeAll_eq_ok h.finds
    (nodup_artifactNames.filter _) hfiles
  refine ⟨w, hremoved, hw, h.admits, ?_, ?_⟩
  · intro i hi
    rw [hget, if_neg, h.get?_nodeFile i hi]
    rintro ⟨n, hn, hsame⟩
    exact hne (((mem_staleNames hlinks hprovides).mp hn).2 i hi).symm hsame
  · intro l hl
    rw [hget, h.get?_eq l hl]
    rfl

/-- Once the stale artifacts are removed, the artifacts of the run are all that is found. -/
theorem HoldsRun.mem_artifactNames_iff (hvalid : c.validate = .ok ()) (hlinks : t.LinkFree)
    (hprovides : t.Provides u c.outputPath.route loc)
    (h : c.HoldsRun g loc (c.apartFromStale t u loc) v) :
    n ∈ artifactNames v c.outputPath loc ↔ ∃ i < c.network.numNodes, n = c.nodeFile i := by
  rw [mem_artifactNames h.finds]
  constructor
  · rintro ⟨hname, hadmits, content, hfile⟩
    by_contra hno
    have hother : ∀ i < c.network.numNodes, n ≠ c.nodeFile i := fun i hi hn => hno ⟨i, hi, hn⟩
    rw [h.get?_eq _ fun i hi hsame => hother i hi (by simpa using hsame)] at hfile
    -- Any other artifact was found before, hence stale and removed.
    rw [apartFromStale] at hfile
    split at hfile
    · cases hfile
    next hstay =>
      rw [hprovides.get?_child] at hfile
      have hstale := (mem_staleNames hlinks hprovides).mpr
        ⟨⟨hname, hadmits, content, hfile⟩, hother⟩
      exact hstay ⟨n, hstale, rfl⟩
  · rintro ⟨i, hi, rfl⟩
    exact ⟨Name.isArtifact_artifactName _ (lt_size_of_validate hvalid hi), h.admits i hi, _,
      h.get?_nodeFile i hi⟩

end Config

/-- A run into a directory that is there succeeds if its artifacts can be written. -/
theorem exists_generateInDirectory_eq_ok (hfinds : t.Finds c.outputPath loc)
    (hbuild : buildRecords c fresh patience = .ok (g, records))
    (hallowed : artifactNames t c.outputPath loc = [] ∨ c.general.overwrite = true)
    (htakes : ∀ i < c.network.numNodes, c.outputPath.Admits (c.nodeFile i) ∧
      t.TakesFile (loc ++ [c.nodeFile i])) :
    ∃ t', generateInDirectory c fresh patience t =
      (.ok { summarize g records with staleRemoved := (c.staleNames t loc).length }, t') := by
  obtain ⟨hvalid, w, -, rfl, rfl⟩ := buildRecords_eq_ok_iff.mp hbuild
  have hrecords : ∀ r ∈ c.recordsOn w.graph, (c.sinkAt t loc).Takes t loc r := by
    intro r hr
    obtain ⟨i, hi, rfl⟩ := Config.mem_recordsOn.mp hr
    exact htakes i hi
  have hstored := (DirectorySink.storeAll_eq_ok_iff (s := c.sinkAt t loc) hfinds
    (Config.lt_size_of_mem_recordsOn hvalid)).mpr ⟨hrecords, rfl, rfl⟩
  have hstale := Config.stale_sinkAt c w.graph t loc
  obtain ⟨t', hremoved, -⟩ := (Config.holdsRun_of_takes hfinds hrecords).exists_removed
    hfinds.linkFree (.of_isDirectory hfinds.resolve)
  refine ⟨t', generateInDirectory_eq_ok_iff.mpr ⟨hvalid, _, _, _, _, _, _,
    DirectorySink.openAt_of_resolve hfinds.resolve hallowed, hbuild, hstored,
    hstale ▸ hremoved, ?_⟩⟩
  rw [hstale, List.length_map]

/-- So does one into a directory that it has made. -/
theorem exists_generateInDirectory_eq_ok_of_made
    (hmissing : t.isDirectory c.outputPath.route = false)
    (hmade : t.createDirAll c.outputPath.route = (.ok (), u)) (hfinds : u.Finds c.outputPath loc)
    (hbuild : buildRecords c fresh patience = .ok (g, records))
    (htakes : ∀ i < c.network.numNodes, c.outputPath.Admits (c.nodeFile i) ∧
      u.TakesFile (loc ++ [c.nodeFile i])) :
    ∃ t', generateInDirectory c fresh patience t = (.ok (summarize g records), t') := by
  obtain ⟨hvalid, w, -, rfl, rfl⟩ := buildRecords_eq_ok_iff.mp hbuild
  obtain ⟨s, hs⟩ : ∃ s : DirectorySink, s = ⟨c.outputPath, c.general.format, c.node, [], []⟩ :=
    ⟨_, rfl⟩
  have hopen : DirectorySink.openAt t c.outputPath c.general.format c.node c.general.overwrite =
      (.ok s, u) := hs ▸ DirectorySink.openAt_of_createDirAll hmissing hmade
  have hfinds : u.Finds s.dir loc := hs ▸ hfinds
  have hrecords : ∀ r ∈ c.recordsOn w.graph, s.Takes u loc r := by
    intro r hr
    obtain ⟨i, hi, rfl⟩ := Config.mem_recordsOn.mp hr
    subst hs
    exact htakes i hi
  have hstored := (DirectorySink.storeAll_eq_ok_iff hfinds
    (Config.lt_size_of_mem_recordsOn hvalid)).mpr ⟨hrecords, rfl, rfl⟩
  -- Nothing was found at the opening, so nothing is stale.
  have hstale : ∀ written, DirectorySink.stale { s with written := written } = [] := fun _ => by
    subst hs
    rfl
  refine ⟨(c.recordsOn w.graph).foldl (s.putArtifact loc) u, generateInDirectory_eq_ok_iff.mpr
    ⟨hvalid, s, u, _, _, _, _, hopen, hbuild, hstored, ?_, ?_⟩⟩
  · rw [hstale]
    rfl
  · rw [hstale]
    rfl

end PeerOverlay
