/-
The directory sink on a file tree.

* `existingArtifacts_eq`, `mem_artifactNames` — which artifacts are found in a directory;
* `DirectorySink.openAt_eq_ok`, `DirectorySink.exists_provides_of_openAt` — what opening a
  sink finds and makes;
* `DirectorySink.storeAll_eq_ok_iff`, `DirectorySink.get?_foldl_putArtifact` — what a run of
  stores writes in a tree without links;
* `DirectorySink.gainsFiles_of_storeAll`, `DirectorySink.keepsFiles_of_storeAll` — what it
  leaves alone in any tree;
* `DirectorySink.removeAll_eq_ok` — what removing takes away.
-/
import PeerOverlay.Proofs.Artifact.FileName
import PeerOverlay.Proofs.FileTree.Making
import PeerOverlay.Proofs.Generation.Storing

namespace PeerOverlay

variable {t u v : FileTree} {dir : Path} {loc l : Location} {n : Name}

/-! ### Artifacts in a directory -/

/-- The names of the artifacts found in a directory, by the path that leads to it. -/
def artifactNames (t : FileTree) (dir : Path) (loc : Location) : List Name :=
  (t.children loc).filter fun n => t.isFile (dir.join n).route && n.isArtifact

theorem existingArtifacts_eq (h : t.resolve true dir.route = .ok (.present loc .directory)) :
    existingArtifacts t dir = .ok ((artifactNames t dir loc).map dir.join) := by
  rw [existingArtifacts, FileTree.readDir, h]
  rfl

theorem nodup_artifactNames : (artifactNames t dir loc).Nodup :=
  FileTree.nodup_children.filter _

/-- The artifacts found in a directory are the artifact names that lead to a file there. -/
theorem mem_artifactNames_iff_resolve
    (h : t.resolve true dir.route = .ok (.present loc .directory)) :
    n ∈ artifactNames t dir loc ↔
      n.isArtifact = true ∧ ∃ l content,
        t.resolve true (dir.join n).route = .ok (.present l (.file content)) := by
  rw [artifactNames, List.mem_filter, FileTree.mem_children, Bool.and_eq_true,
    FileTree.isFile_iff]
  refine ⟨fun ⟨_, hfile, hname⟩ => ⟨hname, hfile⟩, fun ⟨hname, hfile⟩ => ⟨?_, hfile, hname⟩⟩
  obtain ⟨links, hjoin⟩ := FileTree.resolve_join h
  obtain ⟨l, content, hresolve⟩ := hfile
  rw [hjoin true n (.of_isArtifact hname)] at hresolve
  split at hresolve
  · cases hresolve
  · -- A walk that ends at a file has passed an entry of that name.
    cases FileTree.walk_eq_ok_iff.mp hresolve with
    | enter _ get | file _ get | pass _ get => exact ⟨_, get⟩

/-- Where no artifacts were found, one that is found once files were added is new. -/
theorem free_of_gainsFiles {content : String}
    (hdir : t.resolve true dir.route = .ok (.present loc .directory))
    (hnone : artifactNames t dir loc = []) (hgains : t.GainsFiles u) (hname : n.isArtifact = true)
    (h : u.resolve true (dir.join n).route = .ok (.present l (.file content))) :
    t.get? l = none := by
  refine (FileTree.resolve_of_gainsFiles hgains h).resolve_left fun hfile => ?_
  have hmem := (mem_artifactNames_iff_resolve hdir).mpr ⟨hname, l, content, hfile⟩
  rw [hnone] at hmem
  cases hmem

/-- **The artifacts found in a directory** are its files with the name of an artifact, if the
name and the path are short enough to look them up. -/
theorem mem_artifactNames (h : t.Finds dir loc) :
    n ∈ artifactNames t dir loc ↔
      n.isArtifact = true ∧ dir.Admits n ∧
        ∃ content, t.get? (loc ++ [n]) = some (.file content) := by
  rw [artifactNames, List.mem_filter, FileTree.mem_children, Bool.and_eq_true,
    FileTree.isFile_iff]
  constructor
  · rintro ⟨-, ⟨l, content, hresolve⟩, hartifact⟩
    obtain ⟨hadmits, hgoal⟩ :=
      (h.resolve_join_eq_ok_iff (Name.Plain.of_isArtifact hartifact)).mp hresolve
    refine ⟨hartifact, hadmits, ?_⟩
    rcases hget : t.get? (loc ++ [n]) with _ | e
    · rw [hget] at hgoal
      cases hgoal
    · rw [hget] at hgoal
      obtain ⟨-, rfl⟩ := Target.present.inj hgoal
      exact ⟨content, rfl⟩
  · rintro ⟨hartifact, hadmits, content, hget⟩
    refine ⟨⟨_, hget⟩, ⟨loc ++ [n], content, ?_⟩, hartifact⟩
    rw [h.resolve_join_eq_ok_iff (Name.Plain.of_isArtifact hartifact), hget]
    exact ⟨hadmits, rfl⟩

theorem artifactNames_eq_nil (h : ∀ n, t.get? (loc ++ [n]) = none) :
    artifactNames t dir loc = [] := by
  refine List.eq_nil_iff_forall_not_mem.mpr fun n hn => ?_
  obtain ⟨e, he⟩ := FileTree.mem_children.mp (List.mem_filter.mp hn).1
  rw [h n] at he
  cases he

/-- Where no artifacts were found, none are found once the directory was made. -/
theorem artifactNames_of_provides (h : t.Provides u dir.route loc)
    (hnone : artifactNames t dir loc = []) : artifactNames u dir loc = [] := by
  rcases h.found_or_made with rfl | hmade
  · exact hnone
  · exact artifactNames_eq_nil hmade.get?_child

/-- A directory that was just made holds no artifacts, one that was there those it held. -/
theorem mem_artifactNames_of_provides (hlinks : t.LinkFree) (h : t.Provides u dir.route loc) :
    n ∈ artifactNames t dir loc ↔
      n.isArtifact = true ∧ dir.Admits n ∧
        ∃ content, t.get? (loc ++ [n]) = some (.file content) := by
  rcases h.found_or_made with rfl | hmade
  · exact mem_artifactNames ⟨hlinks, h.resolve⟩
  · have hfree : t.get? (loc ++ [n]) = none := hmade.gains.get?_of_none (hmade.get?_child n)
    rw [artifactNames, List.mem_filter, FileTree.mem_children]
    simp [hfree]

namespace DirectorySink

variable {s s' : DirectorySink} {format : ArtifactFormat} {settings : NodeSettings}
  {overwrite : Bool} {r : NodeRecord} {records : List NodeRecord}

/-! ### Opening -/

theorem openAt_eq_ok (h : openAt t dir format settings overwrite = (.ok s, u)) :
    ∃ existing,
      (if t.isDirectory dir.route then existingArtifacts t dir else .ok []) = .ok existing ∧
        (existing = [] ∨ overwrite = true) ∧ t.createDirAll dir.route = (.ok (), u) ∧
          s = ⟨dir, format, settings, existing, []⟩ := by
  rw [openAt] at h
  rcases hfound : (if t.isDirectory dir.route then existingArtifacts t dir else .ok [])
    with e | existing
  · simp only [hfound] at h
    cases (Prod.mk.inj h).1
  · simp only [hfound] at h
    split at h
    next => cases (Prod.mk.inj h).1
    next hrefused =>
      rcases hmade : t.createDirAll dir.route with ⟨e | ⟨⟩, made⟩
      · simp only [hmade] at h
        cases (Prod.mk.inj h).1
      · simp only [hmade] at h
        obtain ⟨hs, rfl⟩ := Prod.mk.inj h
        refine ⟨existing, rfl, ?_, rfl, (Except.ok.inj hs).symm⟩
        by_contra hno
        rw [not_or] at hno
        exact hrefused ⟨hno.1, by simpa using hno.2⟩

/-- **Opening a sink finds the artifacts of its directory** and refuses them unless they may be
replaced. -/
theorem exists_provides_of_openAt (hway : .up ∉ dir.route.steps ∨ t.isDirectory dir.route = true)
    (hdir : dir.bytes ≠ []) (h : openAt t dir format settings overwrite = (.ok s, u)) :
    ∃ loc, t.Provides u dir.route loc ∧
      s = ⟨dir, format, settings, (artifactNames t dir loc).map dir.join, []⟩ ∧
        (artifactNames t dir loc = [] ∨ overwrite = true) := by
  obtain ⟨existing, hfound, hallowed, hmade, rfl⟩ := openAt_eq_ok h
  obtain ⟨loc, hprovides⟩ :=
    FileTree.provides_of_createDirAll hway (Path.isEmpty_route hdir) hmade
  have hexisting : existing = (artifactNames t dir loc).map dir.join := by
    split at hfound
    next hthere =>
      obtain rfl := hprovides.eq_of_isDirectory hthere
      rw [existingArtifacts_eq hprovides.resolve] at hfound
      exact (Except.ok.inj hfound).symm
    next hmissing =>
      -- A directory that was just made holds nothing.
      obtain rfl := Except.ok.inj hfound
      rcases hprovides.found_or_made with rfl | hmade
      · exact absurd (FileTree.isDirectory_iff.mpr ⟨loc, hprovides.resolve⟩) hmissing
      · have hfree : ∀ n, t.get? (loc ++ [n]) = none := fun n =>
          hmade.gains.get?_of_none (hmade.get?_child n)
        rw [artifactNames_eq_nil hfree, List.map_nil]
  exact ⟨loc, hprovides, by rw [hexisting], hallowed.imp_left fun hnone => by
    simpa [hnone] using hexisting.symm⟩

theorem openAt_of_resolve (h : t.resolve true dir.route = .ok (.present loc .directory))
    (hallowed : artifactNames t dir loc = [] ∨ overwrite = true) :
    openAt t dir format settings overwrite =
      (.ok ⟨dir, format, settings, (artifactNames t dir loc).map dir.join, []⟩, t) := by
  have hdir := FileTree.isDirectory_iff.mpr ⟨loc, h⟩
  have hnotRefused : ¬((artifactNames t dir loc).map dir.join ≠ [] ∧ overwrite = false) := by
    rintro ⟨hsome, hno⟩
    rcases hallowed with hnone | hyes
    · exact hsome (by rw [hnone, List.map_nil])
    · rw [hyes] at hno
      cases hno
  rw [openAt, if_pos hdir, existingArtifacts_eq h]
  simp only [if_neg hnotRefused, FileTree.createDirAll_of_isDirectory hdir]

/-- A sink is refused for the artifacts that are found in its directory. -/
theorem openAt_eq_existing_iff {path : Path} {existing : List Path} :
    openAt t dir format settings overwrite = (.error (.existingArtifacts path existing), u) ↔
      t.isDirectory dir.route = true ∧ existingArtifacts t dir = .ok existing ∧ existing ≠ [] ∧
        overwrite = false ∧ path = dir ∧ u = t := by
  rw [openAt]
  by_cases hdir : t.isDirectory dir.route = true
  · rw [if_pos hdir]
    rcases hfound : existingArtifacts t dir with e | found
    · -- The directory cannot be listed, which is another error.
      rw [existingArtifacts] at hfound
      split at hfound
      · obtain rfl := Except.error.inj hfound
        simp
      · cases hfound
    · by_cases hrefused : found ≠ [] ∧ overwrite = false
      · simp only [if_pos hrefused, Prod.mk.injEq, Except.error.injEq,
          SinkError.existingArtifacts.injEq, Except.ok.injEq]
        constructor
        · rintro ⟨⟨rfl, rfl⟩, rfl⟩
          exact ⟨hdir, rfl, hrefused.1, hrefused.2, rfl, rfl⟩
        · rintro ⟨-, rfl, -, -, rfl, rfl⟩
          exact ⟨⟨rfl, rfl⟩, rfl⟩
      · simp only [if_neg hrefused]
        constructor
        · intro h
          split at h
          · cases (Prod.mk.inj h).1
          · cases (Prod.mk.inj h).1
        · rintro ⟨-, hok, hne, hno, -⟩
          obtain rfl := Except.ok.inj hok
          exact absurd ⟨hne, hno⟩ hrefused
  · rw [if_neg hdir]
    simp only [ne_eq, not_true_eq_false, false_and, if_false]
    constructor
    · intro h
      split at h
      · cases (Prod.mk.inj h).1
      · cases (Prod.mk.inj h).1
    · rintro ⟨hyes, -⟩
      exact absurd hyes hdir

theorem openAt_of_createDirAll (hmissing : t.isDirectory dir.route = false)
    (hmade : t.createDirAll dir.route = (.ok (), u)) :
    openAt t dir format settings overwrite = (.ok ⟨dir, format, settings, [], []⟩, u) := by
  rw [openAt, hmissing]
  simp [hmade]

/-! ### Storing -/

theorem store_eq_ok_iff :
    store r (s, u) = (.ok (), s', v) ↔
      s' = { s with written := s.written ++ [s.pathFor r.node] } ∧
        ∃ l, u.WritesAt (s.pathFor r.node).route l ∧
          v = u.put l (.file (s.format.render r s.settings)) := by
  rw [← FileTree.writeFile_eq_ok_iff, store]
  rcases u.writeFile (s.pathFor r.node).route (s.format.render r s.settings) with _ | _
  · simp
  · simp [eq_comm]

/-- A store that fails leaves the sink and the tree alone. -/
theorem store_eq_error_iff {cause : SinkError} :
    store r (s, u) = (.error cause, s', v) ↔
      (∃ io, u.writeFile (s.pathFor r.node).route (s.format.render r s.settings) = .error io ∧
        cause = .write r.node (s.pathFor r.node) io) ∧ s' = s ∧ v = u := by
  rw [store]
  rcases u.writeFile (s.pathFor r.node).route (s.format.render r s.settings) with io | written
  · simp [eq_comm]
  · simp

/-- The tree with the artifact of a record written into a directory. -/
def putArtifact (s : DirectorySink) (loc : Location) (t : FileTree) (r : NodeRecord) :
    FileTree :=
  t.put (loc ++ [s.format.artifactName r.node]) (.file (s.format.render r s.settings))

/-- The artifact of a record can be written into a directory. -/
def Takes (s : DirectorySink) (t : FileTree) (loc : Location) (r : NodeRecord) : Prop :=
  s.dir.Admits (s.format.artifactName r.node) ∧
    t.TakesFile (loc ++ [s.format.artifactName r.node])

theorem get?_putArtifact (h : t.Finds s.dir loc) (htakes : s.Takes t loc r) (l : Location) :
    (s.putArtifact loc t r).get? l =
      if l = loc ++ [s.format.artifactName r.node] then
        some (.file (s.format.render r s.settings))
      else t.get? l :=
  FileTree.get?_put (htakes.2.accepts h.get?_eq _)

theorem finds_putArtifact (h : t.Finds s.dir loc) (htakes : s.Takes t loc r) :
    (s.putArtifact loc t r).Finds s.dir loc :=
  h.put_file htakes.2 (htakes.2.accepts h.get?_eq _)

theorem takes_putArtifact_iff (h : t.Finds s.dir loc) (htakes : s.Takes t loc r)
    {r' : NodeRecord} : s.Takes (s.putArtifact loc t r) loc r' ↔ s.Takes t loc r' := by
  rw [Takes, Takes, FileTree.TakesFile, FileTree.TakesFile, get?_putArtifact h htakes]
  split
  next hsame =>
    rw [hsame]
    exact and_congr_right fun _ => iff_of_true (.inl ⟨_, rfl⟩) htakes.2
  next => rfl

/-- **Storing writes the artifact of a record** under the name of its node. -/
theorem store_eq_ok_iff_takes (h : u.Finds s.dir loc) (hnode : r.node < UInt64.size) :
    store r (s, u) = (.ok (), s', v) ↔
      s.Takes u loc r ∧ s' = { s with written := s.written ++ [s.pathFor r.node] } ∧
        v = s.putArtifact loc u r := by
  have hplain := Name.Plain.of_isArtifact (Name.isArtifact_artifactName s.format hnode)
  rw [store_eq_ok_iff, show s.pathFor r.node = s.dir.join (s.format.artifactName r.node) from rfl]
  simp only [h.writesAt_join_iff hplain]
  constructor
  · rintro ⟨hs, l, ⟨hadmits, rfl, htakes⟩, hv⟩
    exact ⟨⟨hadmits, htakes⟩, hs, hv⟩
  · rintro ⟨⟨hadmits, htakes⟩, hs, hv⟩
    exact ⟨hs, _, ⟨hadmits, rfl, htakes⟩, hv⟩

theorem storeAll_eq_ok_iff (h : u.Finds s.dir loc)
    (hnodes : ∀ r ∈ records, r.node < UInt64.size) :
    storeAll store records (s, u) = (.ok (), s', v) ↔
      (∀ r ∈ records, s.Takes u loc r) ∧
        s' = { s with written := s.written ++ records.map fun r => s.pathFor r.node } ∧
          v = records.foldl (s.putArtifact loc) u := by
  induction records generalizing s u with
  | nil => simp [storeAll, eq_comm]
  | cons r rest ih =>
    obtain ⟨hnode, hrest⟩ := List.forall_mem_cons.mp hnodes
    rcases hstored : store r (s, u) with ⟨cause | ⟨⟩, s₁, u₁⟩
    · have hno : ¬s.Takes u loc r := fun htakes => by
        have hok := (store_eq_ok_iff_takes h hnode).mpr ⟨htakes, rfl, rfl⟩
        rw [hstored] at hok
        cases (Prod.mk.inj hok).1
      rw [storeAll_cons_of_error hstored]
      constructor
      · intro herror
        cases (Prod.mk.inj herror).1
      · rintro ⟨htakes, -⟩
        exact absurd (htakes r List.mem_cons_self) hno
    · obtain ⟨htakes, rfl, rfl⟩ := (store_eq_ok_iff_takes h hnode).mp hstored
      -- The sink that has written goes on in the same directory and the same format.
      have hnext : storeAll store rest
            ({ s with written := s.written ++ [s.pathFor r.node] }, s.putArtifact loc u r) =
              (.ok (), s', v) ↔
          (∀ x ∈ rest, s.Takes (s.putArtifact loc u r) loc x) ∧
            s' = { s with written :=
              (s.written ++ [s.pathFor r.node]) ++ rest.map fun r => s.pathFor r.node } ∧
            v = rest.foldl (s.putArtifact loc) (s.putArtifact loc u r) :=
        ih (s := { s with written := s.written ++ [s.pathFor r.node] })
          (finds_putArtifact h htakes) hrest
      rw [storeAll_cons_of_ok hstored, hnext, List.forall_mem_cons, List.map_cons,
        List.foldl_cons, List.append_assoc, List.singleton_append]
      -- Whether the rest can be written does not depend on the artifact just written.
      have htakesRest : (∀ x ∈ rest, s.Takes (s.putArtifact loc u r) loc x) ↔
          ∀ x ∈ rest, s.Takes u loc x :=
        forall₂_congr fun x _ => takes_putArtifact_iff h htakes
      exact and_congr_left' (htakesRest.trans (and_iff_right htakes).symm)

/-- A run of stores stops at the first artifact that cannot be written. -/
theorem exists_storeAll_eq_error (h : u.Finds s.dir loc) {front : List NodeRecord}
    (hnodes : ∀ x ∈ front ++ [r], x.node < UInt64.size) (hfront : ∀ x ∈ front, s.Takes u loc x)
    (hr : ¬s.Takes u loc r) (back : List NodeRecord) :
    ∃ cause x, storeAll store (front ++ r :: back) (s, u) = (.error (.store r.node cause), x) := by
  have hstored := (storeAll_eq_ok_iff h fun x hx => hnodes x (List.mem_append_left _ hx)).mpr
    ⟨hfront, rfl, rfl⟩
  rcases hnext : store r ({ s with written := s.written ++ front.map fun r => s.pathFor r.node },
    front.foldl (s.putArtifact loc) u) with ⟨cause | ⟨⟩, s₁, u₁⟩
  · exact ⟨cause, _, by rw [storeAll_append front _ hstored, storeAll_cons_of_error hnext]⟩
  · -- Were this record stored as well, its artifact could be written.
    have hall : storeAll store (front ++ [r]) (s, u) = (.ok (), s₁, u₁) := by
      rw [storeAll_append front _ hstored, storeAll_cons_of_ok hnext]
      rfl
    exact absurd (((storeAll_eq_ok_iff h hnodes).mp hall).1 r (by simp)) hr

/-! ### Stores in any tree -/

/-- A directory sink stays the same but for the list of what it has written. -/
theorem storeAll_sink_eq (h : storeAll store records (s, u) = (.ok (), s', v)) :
    s' = { s with written := s'.written } :=
  storeAll_induction (P := fun x => x.1 = { s with written := x.1.written }) h rfl
    fun r _ x x' hx hstored => by
      obtain ⟨hs, -⟩ := store_eq_ok_iff.mp hstored
      rw [hs, hx]

/-- Where no artifacts are found, stores write nothing but new files. -/
theorem gainsFiles_of_storeAll (hdir : t.resolve true s.dir.route = .ok (.present loc .directory))
    (hnone : artifactNames t s.dir loc = []) (hnodes : ∀ r ∈ records, r.node < UInt64.size)
    (h : storeAll store records (s, t) = (.ok (), s', v)) : t.GainsFiles v := by
  refine (storeAll_induction (P := fun x => x.1.dir = s.dir ∧ t.GainsFiles x.2) h
    ⟨rfl, .refl t _⟩ ?_).2
  rintro r hr ⟨s₁, u⟩ ⟨s₂, w⟩ ⟨hsame, hgains⟩ hstored
  obtain ⟨rfl, l, hwrites, rfl⟩ := store_eq_ok_iff.mp hstored
  have hname := Name.isArtifact_artifactName s₁.format (hnodes r hr)
  refine ⟨hsame, hgains.put ?_ (hwrites.accepts _) ⟨_, rfl⟩⟩
  rcases hwrites with ⟨old, hold⟩ | habsent
  · have hpath : s₁.pathFor r.node = s.dir.join (s₁.format.artifactName r.node) := hsame ▸ rfl
    rw [hpath] at hold
    exact free_of_gainsFiles hdir hnone hgains hname hold
  · exact hgains.get?_of_none (FileTree.get?_of_resolve_absent habsent)

/-- Stores leave files where files are. -/
theorem keepsFiles_of_storeAll (h : storeAll store records (s, u) = (.ok (), s', v)) :
    u.Keeps v ∧ ∀ l content, u.get? l = some (.file content) →
      ∃ content', v.get? l = some (.file content') := by
  refine storeAll_induction (P := fun x => u.Keeps x.2 ∧
    ∀ l content, u.get? l = some (.file content) →
      ∃ content', x.2.get? l = some (.file content')) h
    ⟨.refl u, fun l content hfile => ⟨content, hfile⟩⟩ ?_
  rintro r - ⟨s₁, w⟩ ⟨s₂, w'⟩ ⟨hkeeps, hfiles⟩ hstored
  obtain ⟨rfl, l', hwrites, rfl⟩ := store_eq_ok_iff.mp hstored
  refine ⟨hkeeps.trans (.put_file hwrites.takesFile (hwrites.accepts _)), ?_⟩
  intro l content hfile
  rw [FileTree.get?_put (hwrites.accepts _)]
  split
  · exact ⟨_, rfl⟩
  · exact hfiles l content hfile

/-! ### What a run of stores leaves -/

/-- The last of the records whose artifact lies at a location. -/
def lastAt (s : DirectorySink) (loc : Location) (records : List NodeRecord) (l : Location) :
    Option NodeRecord :=
  records.reverse.find? fun r => l = loc ++ [s.format.artifactName r.node]

theorem lastAt_cons (s : DirectorySink) (loc : Location) (r : NodeRecord)
    (rest : List NodeRecord) (l : Location) :
    s.lastAt loc (r :: rest) l =
      (s.lastAt loc rest l).or
        (if l = loc ++ [s.format.artifactName r.node] then some r else none) := by
  rw [lastAt, List.reverse_cons, List.find?_append, lastAt]
  by_cases hl : l = loc ++ [s.format.artifactName r.node] <;> simp [hl]

theorem lastAt_eq_none_iff :
    s.lastAt loc records l = none ↔
      ∀ r ∈ records, l ≠ loc ++ [s.format.artifactName r.node] := by
  simp [lastAt]

theorem of_lastAt_eq_some (h : s.lastAt loc records l = some r) :
    r ∈ records ∧ l = loc ++ [s.format.artifactName r.node] :=
  ⟨List.mem_reverse.mp (List.mem_of_find?_eq_some h), by simpa using List.find?_some h⟩

/-- **A run of stores leaves the last artifact of every node,** and all else as it was. -/
theorem get?_foldl_putArtifact (h : u.Finds s.dir loc) (htakes : ∀ r ∈ records, s.Takes u loc r)
    (l : Location) :
    (records.foldl (s.putArtifact loc) u).get? l =
      ((s.lastAt loc records l).map fun r => Entry.file (s.format.render r s.settings)).or
        (u.get? l) := by
  induction records generalizing u with
  | nil => rfl
  | cons r rest ih =>
    obtain ⟨hr, hrest⟩ := List.forall_mem_cons.mp htakes
    have htakes' : ∀ x ∈ rest, s.Takes (s.putArtifact loc u r) loc x := fun x hx =>
      (takes_putArtifact_iff h hr).mpr (hrest x hx)
    rw [List.foldl_cons, ih (finds_putArtifact h hr) htakes', lastAt_cons, Option.map_or,
      Option.or_assoc, get?_putArtifact h hr]
    congr 1
    split <;> rfl

theorem get?_foldl_putArtifact_of_mem (h : u.Finds s.dir loc)
    (htakes : ∀ r ∈ records, s.Takes u loc r) (hr : r ∈ records)
    (honly : ∀ x ∈ records, x.node = r.node → x = r) :
    (records.foldl (s.putArtifact loc) u).get? (loc ++ [s.format.artifactName r.node]) =
      some (.file (s.format.render r s.settings)) := by
  rw [get?_foldl_putArtifact h htakes]
  rcases hlast : s.lastAt loc records (loc ++ [s.format.artifactName r.node]) with _ | x
  · exact absurd rfl (lastAt_eq_none_iff.mp hlast r hr)
  · obtain ⟨hx, hname⟩ := of_lastAt_eq_some hlast
    have hnode : r.node = x.node := by
      simpa [ArtifactFormat.artifactName_inj] using hname
    rw [honly x hx hnode.symm]
    rfl

theorem get?_foldl_putArtifact_of_forall_ne (h : u.Finds s.dir loc)
    (htakes : ∀ r ∈ records, s.Takes u loc r)
    (hl : ∀ r ∈ records, l ≠ loc ++ [s.format.artifactName r.node]) :
    (records.foldl (s.putArtifact loc) u).get? l = u.get? l := by
  rw [get?_foldl_putArtifact h htakes, lastAt_eq_none_iff.mpr hl, Option.map_none,
    Option.none_or]

theorem finds_foldl_putArtifact (h : u.Finds s.dir loc)
    (htakes : ∀ r ∈ records, s.Takes u loc r) :
    (records.foldl (s.putArtifact loc) u).Finds s.dir loc := by
  induction records generalizing u with
  | nil => exact h
  | cons r rest ih =>
    obtain ⟨hr, hrest⟩ := List.forall_mem_cons.mp htakes
    exact ih (finds_putArtifact h hr) fun x hx => (takes_putArtifact_iff h hr).mpr (hrest x hx)

/-! ### Removing -/

/-- **Files that are there are removed,** and nothing else. -/
theorem removeAll_eq_ok {names : List Name} (h : t.Finds dir loc) (hnodup : names.Nodup)
    (hfiles : ∀ n ∈ names, n.Plain ∧ dir.Admits n ∧
      ∃ content, t.get? (loc ++ [n]) = some (.file content)) :
    ∃ u, removeAll t (names.map dir.join) = (.ok (), u) ∧ u.Finds dir loc ∧
      ∀ l, u.get? l = if ∃ n ∈ names, l = loc ++ [n] then none else t.get? l := by
  induction names generalizing t with
  | nil => exact ⟨t, rfl, h, fun l => by simp⟩
  | cons n rest ih =>
    obtain ⟨⟨hplain, hadmits, content, hfile⟩, hrest⟩ := List.forall_mem_cons.mp hfiles
    obtain ⟨hfresh, hnodup⟩ := List.nodup_cons.mp hnodup
    have hremoved : t.removeFile (dir.join n).route = .ok (t.prune (loc ++ [n])) := by
      have hresolve : t.resolve false (dir.join n).route =
          .ok (.present (loc ++ [n]) (.file content)) := by
        rw [h.resolve_join_eq_ok_iff hplain, hfile]
        exact ⟨hadmits, rfl⟩
      exact FileTree.removeFile_eq_ok hresolve
    have hother : ∀ x ∈ rest, x.Plain ∧ dir.Admits x ∧
        ∃ content, (t.prune (loc ++ [n])).get? (loc ++ [x]) = some (.file content) := by
      intro x hx
      have hne : loc ++ [x] ≠ loc ++ [n] := by
        intro hsame
        obtain rfl : x = n := by simpa using hsame
        exact hfresh hx
      rw [FileTree.get?_prune_file hfile, if_neg hne]
      exact hrest x hx
    obtain ⟨u, hrun, hfinds, hget⟩ := ih (h.prune_file hfile) hnodup hother
    refine ⟨u, ?_, hfinds, fun l => ?_⟩
    · rw [List.map_cons, removeAll, hremoved]
      exact hrun
    · rw [hget, FileTree.get?_prune_file hfile]
      by_cases hl : l = loc ++ [n]
      · rw [if_pos hl, ite_self, if_pos ⟨n, List.mem_cons_self, hl⟩]
      · rw [if_neg hl]
        simp [hl]

theorem removeAll_eq_error {paths : List Path} {cause : SinkError}
    (h : removeAll t paths = (.error cause, u)) : ∃ path io, cause = .removeStale path io := by
  induction paths generalizing t with
  | nil => cases (Prod.mk.inj h).1
  | cons path rest ih =>
    rw [removeAll] at h
    rcases hremoved : t.removeFile path.route with io | t₁
    · rw [hremoved] at h
      exact ⟨path, io, (Except.error.inj (Prod.mk.inj h).1).symm⟩
    · rw [hremoved] at h
      exact ih h

theorem removeStale_eq_ok_iff {removed : List Path} :
    s.removeStale t = (.ok removed, s', u) ↔
      removeAll t s.stale = (.ok (), u) ∧ removed = s.stale ∧
        s' = { s with existing := [] } := by
  rw [removeStale]
  rcases removeAll t s.stale with ⟨_ | ⟨⟩, _⟩
  · simp [Except.map]
  · simp only [Except.map, Prod.mk.injEq, Except.ok.injEq, true_and]
    constructor
    · rintro ⟨rfl, rfl, rfl⟩
      exact ⟨rfl, rfl, rfl⟩
    · rintro ⟨rfl, rfl, rfl⟩
      exact ⟨rfl, rfl, rfl⟩

end DirectorySink

end PeerOverlay
