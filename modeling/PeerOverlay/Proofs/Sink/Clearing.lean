/-
Clearing a directory of leftovers.

A sink that may replace the artifacts of an earlier run is to remove those that it did not write.
Whether a removal that succeeds leaves none of them depends on the removals before it: a removal
that fails stops half way, and the sink forgets the rest.

* `DirectorySink.WorksAt.run` — the directory of a sink stays where it is while nothing but
  files changes;
* `DirectorySink.get?_apply_of_none`, `DirectorySink.dueOrGone_run` — what is gone stays gone, and
  where no removal fails, what was found is removed later or gone already;
* `DirectorySink.removeStale_clears_iff` — when a removal that succeeds leaves no leftover, and
  that it leaves none if no removal failed before;
* `DirectorySink.not_forall_removeStale_clears` — a removal that is tried again leaves one.
-/
import PeerOverlay.Proofs.Sink.Life

namespace PeerOverlay

variable {t u v : FileTree} {dir : Path} {loc : Location} {n : Name}

/-! ### Events among files -/

namespace SinkEvent

/-- The node that is stored has a number of 64 bits, and nothing but files changes. -/
def Ordinary : SinkEvent → DirectorySink × FileTree → Prop
  | store r, _ => r.node < UInt64.size
  | removeStale, _ => True
  | outside u, x => x.2.ChangesFiles u

/-- Something else makes an entry where none is. -/
def Makes (l : Location) : SinkEvent → DirectorySink × FileTree → Prop
  | outside u, x => x.2.get? l = none ∧ u.get? l ≠ none
  | _, _ => False

/-- Stale artifacts are to be removed, and one of them cannot be. -/
def FailsToRemove : SinkEvent → DirectorySink × FileTree → Prop
  | removeStale, x => ∃ cause, (x.1.removeStale x.2).1 = .error cause
  | _, _ => False

end SinkEvent

namespace DirectorySink

variable {s s' : DirectorySink} {format : ArtifactFormat} {settings : NodeSettings}
  {overwrite : Bool} {event : SinkEvent} {events : List SinkEvent}
  {x : DirectorySink × FileTree} {removed : List Path}

/-- A sink finds its directory at a location, without links in it, and has artifacts there in
mind. -/
structure WorksAt (x : DirectorySink × FileTree) (loc : Location) : Prop where
  finds : x.2.FindsUnlinked x.1.dir loc
  existing : ∀ p ∈ x.1.existing, ∃ n, n.isArtifact = true ∧ p = x.1.dir.join n

theorem changesFiles_apply (h : WorksAt x loc) (hevent : event.Ordinary x) :
    x.2.ChangesFiles (event.apply x).2 := by
  cases event with
  | store r =>
    rw [SinkEvent.apply]
    rcases hstored : store r x with ⟨cause | ⟨⟩, s', v⟩
    · obtain ⟨-, -, rfl⟩ := store_eq_error_iff.mp hstored
      exact .refl _
    · obtain ⟨-, l, hwrites, rfl⟩ := store_eq_ok_iff.mp hstored
      exact .put hwrites.takesFile (hwrites.accepts _)
  | removeStale =>
    refine h.finds.changesFiles_of_loses (fun p hp => ?_) (loses_removeAll _ _)
    obtain ⟨n, hname, hp⟩ := h.existing p ((SinkEvent.removeStale.deletes_sublist x).subset hp)
    exact ⟨n, .of_isArtifact hname, hp⟩
  | outside u => exact hevent

theorem WorksAt.apply (h : WorksAt x loc) (hevent : event.Ordinary x) :
    WorksAt (event.apply x) loc := by
  refine ⟨?_, fun p hp => ?_⟩
  · rw [event.dir_apply]
    exact h.finds.of_changesFiles (changesFiles_apply h hevent)
  · rw [event.dir_apply]
    exact h.existing p ((existing_run_sublist [event] x).subset hp)

/-- **A sink goes on at its location** while nothing but files changes. -/
theorem WorksAt.run (h : WorksAt x loc) (hevents : ∀ m ∈ moments events x, m.1.Ordinary m.2) :
    WorksAt (run events x) loc := by
  induction events generalizing x with
  | nil => exact h
  | cons event rest ih =>
    obtain ⟨hevent, hrest⟩ := List.forall_mem_cons.mp hevents
    exact ih (h.apply hevent) hrest

/-! ### What is gone -/

/-- What is gone stays gone, unless the sink writes it or it is made anew. -/
theorem get?_apply_of_none (h : WorksAt x loc) (hevent : event.Ordinary x)
    (hwrites : x.1.dir.join n ∉ event.writes x) (hmakes : ¬event.Makes (loc ++ [n]) x)
    (hnone : x.2.get? (loc ++ [n]) = none) : (event.apply x).2.get? (loc ++ [n]) = none := by
  cases event with
  | store r =>
    rw [SinkEvent.writes] at hwrites
    rw [SinkEvent.apply]
    rcases hstored : store r x with ⟨cause | ⟨⟩, s', v⟩
    · obtain ⟨-, -, rfl⟩ := store_eq_error_iff.mp hstored
      exact hnone
    · rw [hstored] at hwrites
      obtain ⟨-, l, hat, rfl⟩ := store_eq_ok_iff.mp hstored
      have hplain := Name.Plain.of_isArtifact (Name.isArtifact_artifactName x.1.format hevent)
      obtain ⟨-, rfl, -⟩ :=
        (FileTree.writesAt_join_iff h.finds.resolve hplain (h.finds.noLink _)).mp hat
      -- Without a link there, the store writes under the name of its node and nowhere else.
      have hother : n ≠ x.1.format.artifactName r.node := by
        rintro rfl
        exact hwrites (List.mem_singleton_self _)
      rw [FileTree.get?_put (hat.accepts _), if_neg (by simpa using hother), hnone]
  | removeStale => exact (loses_removeAll _ _).get?_of_none hnone
  | outside u =>
    by_contra hsome
    exact hmakes ⟨hnone, hsome⟩

/-- A removal that succeeds removes what the sink has in mind and has not written. -/
theorem get?_of_removeStale_eq_ok (h : WorksAt x loc) (hname : n.isArtifact = true)
    (hexisting : x.1.dir.join n ∈ x.1.existing) (hwritten : x.1.dir.join n ∉ x.1.written)
    (hok : x.1.removeStale x.2 = (.ok removed, s', v)) : v.get? (loc ++ [n]) = none := by
  obtain ⟨hall, -, -⟩ := removeStale_eq_ok_iff.mp hok
  have hstale : x.1.dir.join n ∈ x.1.stale :=
    List.mem_filter.mpr ⟨hexisting, by simpa using hwritten⟩
  have hloses := loses_removeAll x.2 x.1.stale
  rw [hall, takenAway_of_removeAll_eq_ok hall] at hloses
  obtain ⟨l, hleads⟩ := hloses.leads _ hstale
  obtain ⟨-, rfl, -⟩ := (h.finds.leads_join_iff (.of_isArtifact hname)).mp hleads
  exact hloses.gone hstale hleads

/-- A removal removes nothing but what the sink has in mind. -/
theorem mem_existing_of_removed (h : WorksAt x loc)
    (hthere : x.2.get? (loc ++ [n]) ≠ none)
    (hgone : (SinkEvent.removeStale.apply x).2.get? (loc ++ [n]) = none) :
    x.1.dir.join n ∈ x.1.existing := by
  have hloses : x.2.Loses (SinkEvent.removeStale.apply x).2 (SinkEvent.removeStale.deletes x) :=
    loses_removeAll _ _
  by_contra hno
  -- Any path that leads there is that of the name itself, which the sink does not have in mind.
  refine hthere ((hloses.stays fun p hp hleads => ?_).symm.trans hgone)
  have hexisting := (SinkEvent.removeStale.deletes_sublist x).subset hp
  obtain ⟨n', hname, rfl⟩ := h.existing p hexisting
  obtain ⟨-, hsame, -⟩ := (h.finds.leads_join_iff (.of_isArtifact hname)).mp hleads
  obtain rfl : n = n' := by simpa using hsame
  exact hno hexisting

/-- An artifact is removed with the next removal, or gone already. -/
def DueOrGone (loc : Location) (n : Name) (x : DirectorySink × FileTree) : Prop :=
  x.1.dir.join n ∈ x.1.existing ∨ x.2.get? (loc ++ [n]) = none

theorem dueOrGone_apply (h : WorksAt x loc) (hevent : event.Ordinary x)
    (hname : n.isArtifact = true) (hwritten : x.1.dir.join n ∉ x.1.written)
    (hwrites : x.1.dir.join n ∉ event.writes x) (hmakes : ¬event.Makes (loc ++ [n]) x)
    (hfails : ¬event.FailsToRemove x) (hdue : DueOrGone loc n x) :
    DueOrGone loc n (event.apply x) := by
  rcases hdue with hdue | hgone
  · by_cases hremoval : event = .removeStale
    · -- The removal does not fail, so it takes what is due.
      subst hremoval
      rcases hok : x.1.removeStale x.2 with ⟨cause | removed, s', v⟩
      · exact absurd ⟨cause, congrArg Prod.fst hok⟩ hfails
      · have hgone := get?_of_removeStale_eq_ok h hname hdue hwritten hok
        refine .inr ?_
        rw [SinkEvent.apply, hok]
        exact hgone
    · refine .inl ?_
      rw [event.dir_apply, SinkEvent.existing_apply_of_ne hremoval]
      exact hdue
  · exact .inr (get?_apply_of_none h hevent hwrites hmakes hgone)

/-- **Where no removal fails, what was found is removed later or gone already.** -/
theorem dueOrGone_run (h : WorksAt x loc) (hevents : ∀ m ∈ moments events x, m.1.Ordinary m.2)
    (hname : n.isArtifact = true) (hwritten : x.1.dir.join n ∉ x.1.written)
    (hstored : x.1.dir.join n ∉ stored events x)
    (hmakes : ∀ m ∈ moments events x, ¬m.1.Makes (loc ++ [n]) m.2)
    (hfails : ∀ m ∈ moments events x, ¬m.1.FailsToRemove m.2) (hdue : DueOrGone loc n x) :
    DueOrGone loc n (run events x) := by
  induction events generalizing x with
  | nil => exact hdue
  | cons event rest ih =>
    obtain ⟨hevent, hevents⟩ := List.forall_mem_cons.mp hevents
    obtain ⟨hmake, hmakes⟩ := List.forall_mem_cons.mp hmakes
    obtain ⟨hfail, hfails⟩ := List.forall_mem_cons.mp hfails
    rw [stored_cons, List.mem_append, not_or] at hstored
    have hnext := dueOrGone_apply h hevent hname hwritten hstored.1 hmake hfail hdue
    refine ih (h.apply hevent) hevents ?_ ?_ hmakes hfails hnext
    · rw [event.dir_apply, event.written_apply, List.mem_append, not_or]
      exact ⟨hwritten, hstored.1⟩
    · rw [event.dir_apply]
      exact hstored.2

/-! ### Leftovers -/

/-- An artifact was in the directory of a sink at the start of a life, and in it the sink did not
store it and nothing else made it anew. -/
structure Leftover (loc : Location) (events : List SinkEvent) (x : DirectorySink × FileTree)
    (n : Name) : Prop where
  isArtifact : n.isArtifact = true
  file : ∃ content, x.2.get? (loc ++ [n]) = some (.file content)
  unstored : x.1.dir.join n ∉ stored events x
  notMade : ∀ m ∈ moments events x, ¬m.1.Makes (loc ++ [n]) m.2

/-- A leftover that the sink still has in mind at the end is removed then. -/
theorem Leftover.get?_removed (hn : Leftover loc events x n) (hwritten : x.1.written = [])
    (hend : WorksAt (run events x) loc)
    (hdue : x.1.dir.join n ∈ (run events x).1.existing)
    (hok : (run events x).1.removeStale (run events x).2 = (.ok removed, s', v)) :
    v.get? (loc ++ [n]) = none := by
  have hdir := dir_run events x
  refine get?_of_removeStale_eq_ok hend hn.isArtifact (hdir ▸ hdue) ?_ hok
  rw [written_run, hwritten, List.nil_append, hdir]
  exact hn.unstored

theorem worksAt_of_openAt (hopen : openAt t dir format settings overwrite = (.ok s, u))
    (hfinds : u.FindsUnlinked dir loc) : WorksAt (s, u) loc := by
  obtain ⟨hdir, -, -, hfound⟩ := existing_of_openAt hopen
  refine ⟨hdir ▸ hfinds, fun p hp => ?_⟩
  obtain ⟨-, n, hname, hp, -⟩ := hfound p hp
  exact ⟨n, hname, hp.trans (hdir ▸ rfl)⟩

/-- An artifact that is in the directory once it is opened was found if the directory was found
and the path of the artifact fits. -/
theorem mem_existing_iff (hopen : openAt t dir format settings overwrite = (.ok s, u))
    (hfinds : u.FindsUnlinked dir loc) (hname : n.isArtifact = true)
    (hfile : ∃ content, u.get? (loc ++ [n]) = some (.file content)) :
    dir.join n ∈ s.existing ↔ t.isDirectory dir.route = true ∧ dir.Admits n := by
  obtain ⟨existing, hfound, -, hmade, rfl⟩ := openAt_eq_ok hopen
  by_cases hthere : t.isDirectory dir.route = true
  · rw [FileTree.createDirAll_of_isDirectory hthere] at hmade
    obtain rfl : t = u := (Prod.mk.inj hmade).2
    rw [if_pos hthere, existingArtifacts_eq hfinds.resolve] at hfound
    obtain rfl := Except.ok.inj hfound
    obtain ⟨content, hfile⟩ := hfile
    -- The file is seen by the listing just if its path can be looked up.
    have hlookup : ∀ goal, t.resolve true (dir.join n).route = .ok goal ↔
        dir.Admits n ∧ goal = .present (loc ++ [n]) (.file content) := by
      intro goal
      rw [FileTree.resolve_join_eq_ok_iff hfinds.resolve (.of_isArtifact hname)
        (.inr (hfinds.noLink n)), hfile]
      rfl
    rw [List.mem_map_of_injective (Path.join_injective dir),
      mem_artifactNames_iff_resolve hfinds.resolve, and_iff_right hname, and_iff_right hthere]
    simp only [hlookup]
    exact ⟨fun ⟨_, _, hadmits, _⟩ => hadmits, fun hadmits => ⟨_, _, hadmits, rfl⟩⟩
  · rw [if_neg hthere] at hfound
    obtain rfl := Except.ok.inj hfound
    simp [hthere]

/-- **When a removal that succeeds leaves no leftovers.**  It is just then that those which are
still there before it were found when the sink was opened, and no removal was tried since.  In
particular, where no removal has failed, it leaves none of those that were found. -/
theorem removeStale_clears_iff (hopen : openAt t dir format settings overwrite = (.ok s, u))
    (hfinds : u.FindsUnlinked dir loc)
    (hevents : ∀ m ∈ moments events (s, u), m.1.Ordinary m.2)
    (hok : (run events (s, u)).1.removeStale (run events (s, u)).2 = (.ok removed, s', v)) :
    ((∀ n, Leftover loc events (s, u) n → v.get? (loc ++ [n]) = none) ↔
      ∀ n, Leftover loc events (s, u) n → (run events (s, u)).2.get? (loc ++ [n]) ≠ none →
        .removeStale ∉ events ∧ t.isDirectory dir.route = true ∧ dir.Admits n) ∧
    ((∀ m ∈ moments events (s, u), ¬m.1.FailsToRemove m.2) →
      ∀ n, Leftover loc events (s, u) n → t.isDirectory dir.route = true → dir.Admits n →
        v.get? (loc ++ [n]) = none) := by
  have hstart := worksAt_of_openAt hopen hfinds
  have hend := hstart.run hevents
  have hv : (SinkEvent.removeStale.apply (run events (s, u))).2 = v := by
    rw [SinkEvent.apply, hok]
  obtain ⟨hdir, hwritten, -⟩ := existing_of_openAt hopen
  have hfound : ∀ n, Leftover loc events (s, u) n →
      (s.dir.join n ∈ s.existing ↔ t.isDirectory dir.route = true ∧ dir.Admits n) := by
    intro n hn
    rw [hdir]
    exact mem_existing_iff hopen hfinds hn.isArtifact hn.file
  have hgone : ∀ n, (run events (s, u)).2.get? (loc ++ [n]) = none → v.get? (loc ++ [n]) = none :=
    fun n hnone => hv ▸ (loses_removeAll _ _).get?_of_none hnone
  refine ⟨⟨fun hall n hn hthere => ?_, fun hall n hn => ?_⟩, fun hfails n hn hthere hadmits => ?_⟩
  · have hdue := mem_existing_of_removed hend hthere (hv ▸ hall n hn)
    rw [dir_run] at hdue
    have hfirst : .removeStale ∉ events := by
      intro hremoved
      rw [existing_run_of_mem hremoved] at hdue
      cases hdue
    rw [existing_run_of_notMem hfirst] at hdue
    exact ⟨hfirst, (hfound n hn).mp hdue⟩
  · -- Only what is still there has to be removed by this call.
    by_cases hthere : (run events (s, u)).2.get? (loc ++ [n]) = none
    · exact hgone n hthere
    · obtain ⟨hfirst, hlisted⟩ := hall n hn hthere
      refine hn.get?_removed hwritten hend ?_ hok
      rw [existing_run_of_notMem hfirst]
      exact (hfound n hn).mpr hlisted
  · have hdue : DueOrGone loc n (s, u) := .inl ((hfound n hn).mpr ⟨hthere, hadmits⟩)
    have hunwritten : s.dir.join n ∉ s.written := by
      rw [hwritten]
      exact List.not_mem_nil
    rcases dueOrGone_run hstart hevents hn.isArtifact hunwritten hn.unstored hn.notMade hfails
      hdue with hdue | hnone
    · rw [dir_run] at hdue
      exact hn.get?_removed hwritten hend hdue hok
    · exact hgone n hnone

/-- Two artifacts are found, one is written over, and the removal takes the other. -/
theorem removeStale_clears_iff_twoLeftovers :
    ∃ s u s' w, openAt twoLeftovers (.ofText "o") .ini .empty true = (.ok s, u) ∧
      (run [.store loneRecord] (s, u)).1.removeStale (run [.store loneRecord] (s, u)).2 =
        (.ok [.ofText "o/config1.ini"], s', w) ∧
      Leftover [.ofText "o"] [.store loneRecord] (s, u) (.ofText "config1.ini") ∧
      w.get? [.ofText "o", .ofText "config1.ini"] = none := by
  obtain ⟨s, v, w, hstored, -, hwritten, hremoved⟩ := removeStale_twoLeftovers
  have hrun : run [.store loneRecord] (finder, twoLeftovers) = (s, v) := congrArg Prod.snd hstored
  have hpaths : stored [.store loneRecord] (finder, twoLeftovers) = [.ofText "o/config0.ini"] := by
    have hadds := written_run [.store loneRecord] (finder, twoLeftovers)
    rw [hrun, hwritten] at hadds
    exact hadds.symm
  have hleft : Leftover [.ofText "o"] [.store loneRecord] (finder, twoLeftovers)
      (.ofText "config1.ini") := by
    refine ⟨by decide +kernel, ⟨"old", by decide +kernel⟩, ?_, ?_⟩
    · rw [hpaths]
      decide +kernel
    · exact List.forall_mem_singleton.mpr id
  have hok : (run [.store loneRecord] (finder, twoLeftovers)).1.removeStale
      (run [.store loneRecord] (finder, twoLeftovers)).2 =
        (.ok [.ofText "o/config1.ini"], { s with existing := [] }, w) := by
    rw [hrun]
    exact hremoved
  have hordinary : ∀ m ∈ moments [.store loneRecord] (finder, twoLeftovers),
      m.1.Ordinary m.2 := by
    have hnode : loneRecord.node < UInt64.size := by decide +kernel
    exact List.forall_mem_singleton.mpr hnode
  obtain ⟨-, hclears⟩ :=
    removeStale_clears_iff openAt_twoLeftovers finds_twoLeftovers.unlinked hordinary hok
  refine ⟨finder, twoLeftovers, _, w, openAt_twoLeftovers, hok, hleft, ?_⟩
  exact hclears (List.forall_mem_singleton.mpr id) _ hleft
    (FileTree.isDirectory_iff.mpr ⟨_, finds_twoLeftovers.resolve⟩) (by decide +kernel)

/-! ### A removal that is tried again -/

/-- The first of two leftovers is gone. -/
def oneLeftover : FileTree :=
  twoLeftovers.prune [.ofText "o", .ofText "config0.ini"]

theorem get?_twoLeftovers :
    twoLeftovers.get? [.ofText "o", .ofText "config0.ini"] = some (.file "old") := by
  decide +kernel

/-- The removal stops at the artifact that is gone, and the sink forgets the other. -/
theorem removeStale_oneLeftover :
    finder.removeStale oneLeftover =
      (.error (.removeStale (.ofText "o/config0.ini") .notFound), { finder with existing := [] },
        oneLeftover) := by
  have hfinds : oneLeftover.Finds (.ofText "o") [.ofText "o"] :=
    finds_twoLeftovers.prune_file get?_twoLeftovers
  have hnone : oneLeftover.get? ([.ofText "o"] ++ [.ofText "config0.ini"]) = none := by
    rw [oneLeftover, FileTree.get?_prune_file get?_twoLeftovers]
    exact if_pos rfl
  have habsent : oneLeftover.resolve false (Path.ofText "o/config0.ini").route =
      .ok (.absent ([.ofText "o"] ++ [.ofText "config0.ini"]) false) := by
    show oneLeftover.resolve false ((Path.ofText "o").join (.ofText "config0.ini")).route = _
    rw [hfinds.resolve_join_eq_ok_iff (by decide +kernel), hnone]
    exact ⟨by decide +kernel, rfl⟩
  have hstale : finder.stale = [.ofText "o/config0.ini", .ofText "o/config1.ini"] := by
    decide +kernel
  rw [removeStale, hstale, removeAll, FileTree.removeFile, habsent]
  rfl

/-- **A removal that is tried again after a failure succeeds and leaves an artifact** that was in
the directory when the sink was opened. -/
theorem not_forall_removeStale_clears :
    ¬∀ (t u v : FileTree) (dir : Path) (loc : Location) (format : ArtifactFormat)
        (settings : NodeSettings) (s s' : DirectorySink) (events : List SinkEvent)
        (removed : List Path),
      t.Finds dir loc → openAt t dir format settings true = (.ok s, u) →
        (∀ m ∈ moments events (s, u), m.1.Ordinary m.2) →
          (run events (s, u)).1.removeStale (run events (s, u)).2 = (.ok removed, s', v) →
            ∀ n, Leftover loc events (s, u) n → v.get? (loc ++ [n]) = none := by
  intro hall
  have hrun : run [.outside oneLeftover, .removeStale] (finder, twoLeftovers) =
      ({ finder with existing := [] }, oneLeftover) :=
    congrArg Prod.snd removeStale_oneLeftover
  have hordinary : ∀ m ∈ moments [.outside oneLeftover, .removeStale] (finder, twoLeftovers),
      m.1.Ordinary m.2 := by
    have hchanges : twoLeftovers.ChangesFiles oneLeftover := .prune get?_twoLeftovers
    exact List.forall_mem_cons.mpr ⟨hchanges, List.forall_mem_singleton.mpr trivial⟩
  have hleft : Leftover [.ofText "o"] [.outside oneLeftover, .removeStale] (finder, twoLeftovers)
      (.ofText "config1.ini") := by
    refine ⟨by decide +kernel, ⟨"old", by decide +kernel⟩, List.not_mem_nil, ?_⟩
    have hthere : twoLeftovers.get? ([.ofText "o"] ++ [.ofText "config1.ini"]) ≠ none := by
      decide +kernel
    exact List.forall_mem_cons.mpr
      ⟨fun hmakes => hthere hmakes.1, List.forall_mem_singleton.mpr id⟩
  have hok : (run [.outside oneLeftover, .removeStale] (finder, twoLeftovers)).1.removeStale
      (run [.outside oneLeftover, .removeStale] (finder, twoLeftovers)).2 =
        (.ok [], { finder with existing := [] }, oneLeftover) := by
    rw [hrun]
    rfl
  have hgone := hall _ _ _ _ _ _ _ _ _ _ _ finds_twoLeftovers openAt_twoLeftovers hordinary hok
    _ hleft
  -- The second artifact stands where it stood.
  rw [oneLeftover, FileTree.get?_prune_file get?_twoLeftovers] at hgone
  revert hgone
  decide +kernel

end DirectorySink

end PeerOverlay
