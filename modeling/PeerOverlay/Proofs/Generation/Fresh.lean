/-
A run that may not replace anything.

Without leave to overwrite, a run refuses the artifacts that it finds in its directory.  It
looks before it makes the directory, and what it looks at is the path: so all depends on
whether the path leads to the same place before and after.

* `generateInDirectory_allFresh` — all artifacts found after a run are its own exactly if none
  are found once the directory is made; none are if the directory was there already, or if its
  path has no steps up;
* `not_forall_allFresh` — a path with a step up from a missing directory leads to the
  artifacts of an earlier run only after the run has looked.
-/
import PeerOverlay.Proofs.Generation.Directory

namespace PeerOverlay

variable {c : Config} {fresh : DrawSource} {patience : Nat} {t t' u v : FileTree}
  {summary : Summary} {loc : Location} {n : Name}

namespace Config

/-- Nothing that was there has changed, and all artifacts found in the output directory are
files that were not there. -/
structure AllFresh (c : Config) (t t' : FileTree) : Prop where
  kept : ∀ l e, t.get? l = some e → t'.get? l = some e
  fresh : ∃ paths, existingArtifacts t' c.outputPath = .ok paths ∧
    ∀ p ∈ paths, ∃ l content,
      t'.resolve true p.route = .ok (.present l (.file content)) ∧ t.get? l = none

/-- The tree in which a run has made its output directory. -/
def opened (c : Config) (t : FileTree) : FileTree :=
  (t.createDirAll c.outputPath.route).2

theorem gainsDirectories_opened (c : Config) (t : FileTree) : t.GainsDirectories (c.opened t) :=
  t.gainsDirectories_createDirAll _

theorem existingArtifacts_opened_iff
    (hdir : (c.opened t).resolve true c.outputPath.route = .ok (.present loc .directory)) :
    existingArtifacts (c.opened t) c.outputPath = .ok [] ↔
      artifactNames (c.opened t) c.outputPath loc = [] := by
  rw [existingArtifacts_eq hdir, Except.ok.injEq, List.map_eq_nil_iff]

/-- Stores into a directory without artifacts make all that is found there afterwards. -/
theorem allFresh_of_gainsFiles
    (hdir : (c.opened t).resolve true c.outputPath.route = .ok (.present loc .directory))
    (hnone : artifactNames (c.opened t) c.outputPath loc = [])
    (hgains : (c.opened t).GainsFiles v) : c.AllFresh t v := by
  have hopened := c.gainsDirectories_opened t
  have hdir' := FileTree.resolve_mono hgains.keeps hdir
  refine ⟨fun l e hl => hgains.get?_of_some (hopened.get?_of_some hl), _,
    existingArtifacts_eq hdir', fun p hp => ?_⟩
  obtain ⟨n, hn, rfl⟩ := List.mem_map.mp hp
  obtain ⟨hname, l, content, hfile⟩ := (mem_artifactNames_iff_resolve hdir').mp hn
  have hfree := free_of_gainsFiles hdir hnone hgains hname hfile
  exact ⟨l, content, hfile, hopened.get?_of_none hfree⟩

/-- An artifact that is found before the stores is found afterwards, and is not new. -/
theorem AllFresh.artifactNames_eq_nil
    (hdir : (c.opened t).resolve true c.outputPath.route = .ok (.present loc .directory))
    (hkeeps : (c.opened t).Keeps v)
    (hfiles : ∀ l content, (c.opened t).get? l = some (.file content) →
      ∃ content', v.get? l = some (.file content'))
    (h : c.AllFresh t v) : artifactNames (c.opened t) c.outputPath loc = [] := by
  refine List.eq_nil_iff_forall_not_mem.mpr fun n hn => ?_
  obtain ⟨hname, l, content, hold⟩ := (mem_artifactNames_iff_resolve hdir).mp hn
  have hdir' := FileTree.resolve_mono hkeeps hdir
  obtain ⟨content', hl⟩ := hfiles l content (FileTree.get?_of_resolve hold)
  have hfound := FileTree.resolve_mono_file hkeeps hl hold
  obtain ⟨paths, hpaths, hfresh⟩ := h.fresh
  rw [existingArtifacts_eq hdir'] at hpaths
  obtain rfl := Except.ok.inj hpaths
  have hn' := (mem_artifactNames_iff_resolve hdir').mpr ⟨hname, l, content', hfound⟩
  obtain ⟨l', content'', hsame, hnone⟩ := hfresh _ (List.mem_map_of_mem hn')
  obtain ⟨rfl, -⟩ := Target.present.inj (Except.ok.inj (hfound.symm.trans hsame))
  -- Making the directory made no files.
  rw [(c.gainsDirectories_opened t).get?_of_not (FileTree.get?_of_resolve hold) (by simp)]
    at hnone
  cases hnone

end Config

/-- Without leave to overwrite, a run makes its directory and stores its records there. -/
theorem storeAll_of_generateInDirectory (hover : c.general.overwrite = false)
    (hrun : generateInDirectory c fresh patience t = (.ok summary, t')) :
    c.validate = .ok () ∧ ∃ s g s',
      DirectorySink.openAt t c.outputPath c.general.format c.node false =
        (.ok s, c.opened t) ∧
      s.dir = c.outputPath ∧
      storeAll DirectorySink.store (c.recordsOn g) (s, c.opened t) = (.ok (), s', t') := by
  obtain ⟨hvalid, s, u, g, records, s', v, hopen, hbuild, hstored, hremoved, -⟩ :=
    generateInDirectory_eq_ok_iff.mp hrun
  obtain ⟨-, w, -, rfl, rfl⟩ := buildRecords_eq_ok_iff.mp hbuild
  rw [hover] at hopen
  obtain ⟨existing, -, hallowed, hmade, hs⟩ := DirectorySink.openAt_eq_ok hopen
  obtain rfl : c.opened t = u := by rw [Config.opened, hmade]
  have hnone : existing = [] := hallowed.resolve_right Bool.false_ne_true
  have hstale : s'.stale = [] := by
    rw [DirectorySink.storeAll_sink_eq hstored, hs, hnone]
    rfl
  rw [hstale] at hremoved
  obtain ⟨-, rfl⟩ := Prod.mk.inj hremoved
  exact ⟨hvalid, s, w.graph, s', hopen, by rw [hs], hstored⟩

/-- **Without leave to overwrite, a run finds none but its own artifacts in the end,** exactly
if the directory held none once it was made.  It held none if it was there when the run looked,
or if its path has no steps up. -/
theorem generateInDirectory_allFresh (hover : c.general.overwrite = false)
    (hrun : generateInDirectory c fresh patience t = (.ok summary, t')) :
    ((.up ∉ c.outputPath.route.steps ∨ t.isDirectory c.outputPath.route = true) →
      c.AllFresh t t') ∧
    (c.AllFresh t t' ↔ existingArtifacts (c.opened t) c.outputPath = .ok []) := by
  obtain ⟨hvalid, s, g, s', hopen, hsame, hstored⟩ := storeAll_of_generateInDirectory hover hrun
  have hne := Config.outputPath_ne_nil hvalid
  obtain ⟨-, -, -, hmade, -⟩ := DirectorySink.openAt_eq_ok hopen
  obtain ⟨loc, hdir⟩ := FileTree.isDirectory_iff.mp
    (FileTree.isDirectory_of_createDirAll (Path.isEmpty_route hne) hmade)
  have hfresh : artifactNames (c.opened t) c.outputPath loc = [] → c.AllFresh t t' := by
    intro hnone
    rw [← hsame] at hnone
    have hgains := DirectorySink.gainsFiles_of_storeAll (hsame.symm ▸ hdir) hnone
      (Config.lt_size_of_mem_recordsOn hvalid) hstored
    exact Config.allFresh_of_gainsFiles hdir (hsame ▸ hnone) hgains
  refine ⟨fun hway => ?_, ?_⟩
  · obtain ⟨loc', hprovides, -, hallowed⟩ := DirectorySink.exists_provides_of_openAt hway hne hopen
    obtain ⟨rfl, -⟩ := Target.present.inj (Except.ok.inj (hprovides.resolve.symm.trans hdir))
    exact hfresh (artifactNames_of_provides hprovides
      (hallowed.resolve_right Bool.false_ne_true))
  · rw [Config.existingArtifacts_opened_iff hdir]
    obtain ⟨hkeeps, hfiles⟩ := DirectorySink.keepsFiles_of_storeAll hstored
    exact ⟨fun h => h.artifactNames_eq_nil hdir hkeeps hfiles, hfresh⟩

/-- Six nodes in a given directory, where nothing may be replaced. -/
def Config.into (dir : String) : Config where
  __ := Config.sixNodes
  general := { outputDir := dir }

/-- A directory with an artifact of an earlier run. -/
def earlierRun : FileTree :=
  FileTree.empty.put [.ofText "out"] .directory
    |>.put [.ofText "out", .ofText "config0.ini"] (.file "earlier")

theorem linkFree_earlierRun : earlierRun.LinkFree :=
  FileTree.linkFree_of_entries (by decide)

theorem workdir_earlierRun : earlierRun.workdir = [] := by decide

/-- A directory beside that one is made by the run. -/
theorem generateInDirectory_allFresh_next :
    ∃ summary t', generateInDirectory (.into "next") weylSource 64 earlierRun =
        (.ok summary, t') ∧ (Config.into "next").AllFresh earlierRun t' := by
  obtain ⟨g, records, hbuild⟩ :=
    exists_buildRecords_six (c := .into "next") (by decide +kernel) rfl rfl
  have hroute : (Config.into "next").outputPath.route =
      ⟨false, [.down (.ofText "next")], false, 4⟩ := by decide +kernel
  have hpath : Route.holdsZero ⟨false, [.down (.ofText "next")], false, 4⟩ = false := by
    decide +kernel
  have habsent : ∀ follow,
      earlierRun.resolve follow ⟨false, [.down (.ofText "next")], false, 4⟩ =
        .ok (.absent (earlierRun.workdir ++ [.ofText "next"]) false) := fun follow =>
    FileTree.resolve_eq_ok_iff.mpr ⟨⟨hpath, rfl, by decide⟩, by decide +kernel,
      .missing (by decide +kernel) (by decide +kernel)⟩
  have hmissing : earlierRun.isDirectory (Config.into "next").outputPath.route = false := by
    rw [hroute, FileTree.isDirectory, habsent]
  obtain ⟨u, hmade, hmakes, hfound⟩ := FileTree.createDirAll_of_absent
    (r := ⟨false, [.down (.ofText "next")], false, 4⟩) rfl (habsent false)
  rw [← hroute] at hmakes hfound
  have hadmits : ∀ i < 6, (Config.into "next").outputPath.Admits
      ((Config.into "next").nodeFile i) := by decide +kernel
  obtain ⟨t', hrun⟩ := exists_generateInDirectory_eq_ok_of_made hmissing hmakes
    ⟨hmade.gains.linkFree linkFree_earlierRun, hfound⟩ hbuild
    fun i hi => ⟨hadmits i hi, .inr (hmade.get?_child _)⟩
  exact ⟨_, t', hrun, (generateInDirectory_allFresh rfl hrun).1 (.inl (by decide +kernel))⟩

/-- The path with a step up leads to the artifact only once the run has made a directory. -/
theorem exists_finds_detour :
    earlierRun.isDirectory (Config.into "x/../out").outputPath.route = false ∧
      ∃ u, earlierRun.createDirAll (Config.into "x/../out").outputPath.route = (.ok (), u) ∧
        u.Finds (Config.into "x/../out").outputPath [.ofText "out"] ∧
        ∀ n, u.get? [.ofText "out", n] = earlierRun.get? [.ofText "out", n] := by
  have hroute : (Config.into "x/../out").outputPath.route =
      ⟨false, [.down (.ofText "x"), .up, .down (.ofText "out")], false, 8⟩ := by decide
  obtain ⟨hmissing, u, hmade, hmakes, hfound⟩ := FileTree.createDirAll_detour (t := earlierRun)
    (congrArg Route.absolute hroute) (congrArg Route.steps hroute) (by decide)
    (by decide) (by decide) (by decide) (by decide)
    (by decide) (by decide)
  rw [workdir_earlierRun] at hmade hfound
  refine ⟨hmissing, u, hmakes, ⟨hmade.gains.linkFree linkFree_earlierRun, hfound⟩, fun n => ?_⟩
  rw [hmade.get?_eq, if_neg (by simp)]

/-- An artifact is written over that the run could not see when it looked. -/
theorem not_forall_allFresh :
    ¬∀ (c : Config) (fresh : DrawSource) (patience : Nat) (t t' : FileTree) (summary : Summary),
      c.general.overwrite = false →
        generateInDirectory c fresh patience t = (.ok summary, t') → c.AllFresh t t' := by
  intro hall
  obtain ⟨hmissing, u, hmakes, hfinds, hsame⟩ := exists_finds_detour
  obtain ⟨g, records, hbuild⟩ :=
    exists_buildRecords_six (c := .into "x/../out") (by decide +kernel) rfl rfl
  have htakes : ∀ i < 6, (Config.into "x/../out").outputPath.Admits
        ((Config.into "x/../out").nodeFile i) ∧
      earlierRun.TakesFile [.ofText "out", (Config.into "x/../out").nodeFile i] := by
    decide +kernel
  obtain ⟨t', hrun⟩ :=
    exists_generateInDirectory_eq_ok_of_made hmissing hmakes hfinds hbuild fun i hi => by
      rw [FileTree.TakesFile, List.singleton_append, hsame]
      exact htakes i hi
  obtain ⟨-, s, _, s', -, -, hstored⟩ := storeAll_of_generateInDirectory rfl hrun
  obtain rfl : (Config.into "x/../out").opened earlierRun = u := by rw [Config.opened, hmakes]
  obtain ⟨hkeeps, hfiles⟩ := DirectorySink.keepsFiles_of_storeAll hstored
  have hearlier : Name.ofText "config0.ini" ∈ artifactNames
      ((Config.into "x/../out").opened earlierRun) (Config.into "x/../out").outputPath
      [.ofText "out"] := by
    refine (mem_artifactNames hfinds).mpr ⟨by decide +kernel, by decide +kernel, "earlier", ?_⟩
    rw [List.singleton_append, hsame]
    decide +kernel
  have hfresh := hall _ _ _ _ _ _ rfl hrun
  rw [hfresh.artifactNames_eq_nil hfinds.resolve hkeeps hfiles] at hearlier
  cases hearlier

end PeerOverlay
