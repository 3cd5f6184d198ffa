/-
The life of a directory sink.

A sink lives through events: it stores a record, it removes stale artifacts, or something else
changes the tree, in any way at all.  A store and a removal may fail, and the life goes on.

* `DirectorySink.loses_removeAll` — removing files in order takes away what
  their paths lead to, up to the first failure, and nothing else;
* `DirectorySink.written_run`, `DirectorySink.existing_run_of_mem` — what a sink has written adds
  up, and what it found when it was opened is forgotten with the first removal;
* `DirectorySink.deletions_safe` — over a whole life a sink deletes nothing but artifacts that it
  found and has not written, each of them once.
-/
import PeerOverlay.Proofs.Configurator
import PeerOverlay.Proofs.FileTree.Changes
import PeerOverlay.Proofs.Sink.Directory

namespace PeerOverlay

variable {t u : FileTree} {dir p : Path} {paths : List Path}

/-! ### Removing in order -/

namespace DirectorySink

/-- The paths that removing files in order takes away, up to the first failure. -/
def takenAway (t : FileTree) : List Path → List Path
  | [] => []
  | path :: rest =>
    match t.removeFile path.route with
    | .error _ => []
    | .ok t => path :: takenAway t rest

theorem takenAway_isPrefix (t : FileTree) (paths : List Path) : takenAway t paths <+: paths := by
  induction paths generalizing t with
  | nil => exact List.prefix_rfl
  | cons path rest ih =>
    rw [takenAway]
    rcases t.removeFile path.route with _ | u
    · exact List.nil_prefix
    · exact (List.prefix_cons_inj path).mpr (ih u)

/-- **Removing files in order takes away what their paths lead to,** up to the first failure, and
leaves all else. -/
theorem loses_removeAll (t : FileTree) (paths : List Path) :
    t.Loses (removeAll t paths).2 (takenAway t paths) := by
  induction paths generalizing t with
  | nil => exact .refl t
  | cons path rest ih =>
    rw [removeAll, takenAway]
    rcases hremoved : t.removeFile path.route with _ | u
    · exact .refl t
    · obtain ⟨l, hleads, rfl, hget⟩ := FileTree.leads_of_removeFile hremoved
      exact .cons hleads hget (ih _)

theorem takenAway_of_removeAll_eq_ok (h : removeAll t paths = (.ok (), u)) :
    takenAway t paths = paths := by
  induction paths generalizing t with
  | nil => rfl
  | cons path rest ih =>
    rw [removeAll] at h
    rw [takenAway]
    rcases hremoved : t.removeFile path.route with _ | v
    · rw [hremoved] at h
      cases (Prod.mk.inj h).1
    · rw [hremoved] at h
      exact congrArg (path :: ·) (ih h)

end DirectorySink

/-! ### Events -/

/-- What happens to a sink and to the tree that it writes to. -/
inductive SinkEvent
  | store (r : NodeRecord)
  | removeStale
  /-- Something else leaves the tree like this. -/
  | outside (u : FileTree)

namespace SinkEvent

/-- The sink and the tree after an event, whether it went well or not. -/
def apply : SinkEvent → DirectorySink × FileTree → DirectorySink × FileTree
  | store r, x => (DirectorySink.store r x).2
  | removeStale, x => (x.1.removeStale x.2).2
  | outside u, x => (x.1, u)

/-- The path at which an event has the sink write an artifact, if it does. -/
def writes : SinkEvent → DirectorySink × FileTree → List Path
  | store r, x =>
    match (DirectorySink.store r x).1 with
    | .ok () => [x.1.pathFor r.node]
    | .error _ => []
  | _, _ => []

/-- The paths that an event has the sink delete. -/
def deletes : SinkEvent → DirectorySink × FileTree → List Path
  | removeStale, x => DirectorySink.takenAway x.2 x.1.stale
  | _, _ => []

variable {e : SinkEvent} {x : DirectorySink × FileTree}

theorem apply_store_fst (r : NodeRecord) (x : DirectorySink × FileTree) :
    ((store r).apply x).1 = { x.1 with written := x.1.written ++ (store r).writes x } := by
  rw [apply, writes]
  rcases hstored : DirectorySink.store r x with ⟨cause | ⟨⟩, s', v⟩
  · obtain ⟨-, rfl, -⟩ := DirectorySink.store_eq_error_iff.mp hstored
    simp
  · obtain ⟨rfl, -⟩ := DirectorySink.store_eq_ok_iff.mp hstored
    rfl

theorem dir_apply (e : SinkEvent) (x : DirectorySink × FileTree) :
    (e.apply x).1.dir = x.1.dir := by
  cases e with
  | store r => rw [apply_store_fst]
  | removeStale | outside => rfl

theorem written_apply (e : SinkEvent) (x : DirectorySink × FileTree) :
    (e.apply x).1.written = x.1.written ++ e.writes x := by
  cases e with
  | store r => rw [apply_store_fst]
  | removeStale | outside => exact (List.append_nil _).symm

theorem existing_apply_of_ne (he : e ≠ removeStale) : (e.apply x).1.existing = x.1.existing := by
  cases e with
  | store r => rw [apply_store_fst]
  | removeStale => exact absurd rfl he
  | outside => rfl

theorem existing_apply_of_nil (h : x.1.existing = []) : (e.apply x).1.existing = [] := by
  cases e with
  | store r => rw [apply_store_fst, h]
  | removeStale => rfl
  | outside => exact h

theorem deletes_sublist (e : SinkEvent) (x : DirectorySink × FileTree) :
    (e.deletes x).Sublist x.1.existing := by
  cases e with
  | removeStale => exact (DirectorySink.takenAway_isPrefix _ _).sublist.trans List.filter_sublist
  | store | outside => exact List.nil_sublist _

theorem deletes_of_ne (he : e ≠ removeStale) : e.deletes x = [] := by
  cases e with
  | removeStale => exact absurd rfl he
  | store | outside => rfl

theorem deletes_of_nil (h : x.1.existing = []) : e.deletes x = [] := by
  have hsublist := e.deletes_sublist x
  rw [h] at hsublist
  exact List.sublist_nil.mp hsublist

/-- A sink that has no stale artifacts in mind leaves the tree alone. -/
theorem apply_removeStale_of_nil (h : x.1.existing = []) : (removeStale.apply x).2 = x.2 := by
  show (DirectorySink.removeAll x.2 x.1.stale).2 = x.2
  rw [DirectorySink.stale, h]
  rfl

end SinkEvent

/-! ### Lives -/

namespace DirectorySink

variable {s : DirectorySink} {format : ArtifactFormat} {settings : NodeSettings}
  {overwrite : Bool} {e : SinkEvent} {events front back : List SinkEvent}
  {x : DirectorySink × FileTree}

/-- The sink and the tree after a life. -/
def run (events : List SinkEvent) (x : DirectorySink × FileTree) : DirectorySink × FileTree :=
  events.foldl (fun x e => e.apply x) x

/-- The events of a life, each with the sink and the tree that it meets. -/
def moments : List SinkEvent → DirectorySink × FileTree →
    List (SinkEvent × DirectorySink × FileTree)
  | [], _ => []
  | e :: rest, x => (e, x) :: moments rest (e.apply x)

/-- The paths at which the sink writes artifacts. -/
def stored (events : List SinkEvent) (x : DirectorySink × FileTree) : List Path :=
  (moments events x).flatMap fun m => m.1.writes m.2

/-- The paths that the sink deletes. -/
def deletions (events : List SinkEvent) (x : DirectorySink × FileTree) : List Path :=
  (moments events x).flatMap fun m => m.1.deletes m.2

theorem run_append (front back : List SinkEvent) (x : DirectorySink × FileTree) :
    run (front ++ back) x = run back (run front x) :=
  List.foldl_append

theorem run_cons (e : SinkEvent) (rest : List SinkEvent) (x : DirectorySink × FileTree) :
    run (e :: rest) x = run rest (e.apply x) :=
  rfl

theorem stored_cons (e : SinkEvent) (rest : List SinkEvent) (x : DirectorySink × FileTree) :
    stored (e :: rest) x = e.writes x ++ stored rest (e.apply x) := by
  rw [stored, moments, List.flatMap_cons, stored]

theorem deletions_cons (e : SinkEvent) (rest : List SinkEvent) (x : DirectorySink × FileTree) :
    deletions (e :: rest) x = e.deletes x ++ deletions rest (e.apply x) := by
  rw [deletions, moments, List.flatMap_cons, deletions]

theorem dir_run (events : List SinkEvent) (x : DirectorySink × FileTree) :
    (run events x).1.dir = x.1.dir := by
  induction events generalizing x with
  | nil => rfl
  | cons e rest ih => exact (ih (e.apply x)).trans (e.dir_apply x)

theorem written_run (events : List SinkEvent) (x : DirectorySink × FileTree) :
    (run events x).1.written = x.1.written ++ stored events x := by
  induction events generalizing x with
  | nil => exact (List.append_nil _).symm
  | cons e rest ih =>
    rw [stored_cons, ← List.append_assoc, ← e.written_apply x]
    exact ih (e.apply x)

theorem existing_run_of_notMem (h : .removeStale ∉ events) :
    (run events x).1.existing = x.1.existing := by
  induction events generalizing x with
  | nil => rfl
  | cons e rest ih =>
    have hne : e ≠ .removeStale := (List.ne_of_not_mem_cons h).symm
    rw [run_cons, ih (List.not_mem_of_not_mem_cons h), SinkEvent.existing_apply_of_ne hne]

theorem existing_run_of_nil (h : x.1.existing = []) : (run events x).1.existing = [] := by
  induction events generalizing x with
  | nil => exact h
  | cons e rest ih => exact ih (SinkEvent.existing_apply_of_nil h)

/-- What a sink found is forgotten with its first removal, whatever comes of that. -/
theorem existing_run_of_mem (h : .removeStale ∈ events) : (run events x).1.existing = [] := by
  obtain ⟨front, back, rfl⟩ := List.append_of_mem h
  rw [run_append, run_cons]
  exact existing_run_of_nil rfl

theorem existing_run_sublist (events : List SinkEvent) (x : DirectorySink × FileTree) :
    (run events x).1.existing.Sublist x.1.existing := by
  by_cases h : .removeStale ∈ events
  · rw [existing_run_of_mem h]
    exact List.nil_sublist _
  · rw [existing_run_of_notMem h]

theorem deletions_of_nil (h : x.1.existing = []) : deletions events x = [] := by
  induction events generalizing x with
  | nil => rfl
  | cons e rest ih =>
    rw [deletions_cons, SinkEvent.deletes_of_nil h, ih (SinkEvent.existing_apply_of_nil h),
      List.nil_append]

/-- A life deletes no more than what was found at its start: the first removal deletes some of
that, and no other removal deletes anything. -/
theorem deletions_sublist (events : List SinkEvent) (x : DirectorySink × FileTree) :
    (deletions events x).Sublist x.1.existing := by
  induction events generalizing x with
  | nil => exact List.nil_sublist _
  | cons e rest ih =>
    rw [deletions_cons]
    by_cases he : e = .removeStale
    · -- The sink has forgotten the rest, so nothing is deleted from here on.
      subst he
      rw [deletions_of_nil rfl, List.append_nil]
      exact SinkEvent.deletes_sublist _ _
    · have hrest := ih (e.apply x)
      rw [SinkEvent.existing_apply_of_ne he] at hrest
      rwa [SinkEvent.deletes_of_ne he, List.nil_append]

/-- A removal deletes what was found at the start of a life and not written in it. -/
theorem of_mem_deletes (h : p ∈ e.deletes (run events x)) :
    p ∈ x.1.existing ∧ p ∉ x.1.written ++ stored events x := by
  rw [← written_run]
  refine ⟨(existing_run_sublist events x).subset ((e.deletes_sublist _).subset h), ?_⟩
  cases e with
  | removeStale =>
    have hstale : p ∈ (run events x).1.stale := (takenAway_isPrefix _ _).subset h
    simpa using (List.mem_filter.mp hstale).2
  | store | outside => cases h

/-- A removal that succeeds answers what it has deleted. -/
theorem deletes_of_removeStale_eq_ok {removed : List Path} {s' : DirectorySink}
    (h : x.1.removeStale x.2 = (.ok removed, s', t)) :
    SinkEvent.removeStale.deletes x = removed := by
  obtain ⟨hall, hremoved, -⟩ := removeStale_eq_ok_iff.mp h
  exact (takenAway_of_removeAll_eq_ok hall).trans hremoved.symm

/-- What a sink has in mind when it was opened are the artifacts found in its directory. -/
theorem existing_of_openAt (h : openAt t dir format settings overwrite = (.ok s, u)) :
    s.dir = dir ∧ s.written = [] ∧ s.existing.Nodup ∧
      ∀ p ∈ s.existing, (∃ found, existingArtifacts t dir = .ok found ∧ p ∈ found) ∧
        ∃ n, n.isArtifact = true ∧ p = dir.join n ∧ t.isFile p.route = true := by
  obtain ⟨existing, hfound, -, -, rfl⟩ := openAt_eq_ok h
  refine ⟨rfl, rfl, ?_⟩
  split at hfound
  next hdir =>
    obtain ⟨loc, hresolve⟩ := FileTree.isDirectory_iff.mp hdir
    have hlisted := hfound
    rw [existingArtifacts_eq hresolve] at hlisted
    obtain rfl := Except.ok.inj hlisted
    refine ⟨nodup_artifactNames.map (Path.join_injective dir), fun p hp => ⟨⟨_, hfound, hp⟩, ?_⟩⟩
    obtain ⟨n, hn, rfl⟩ := List.mem_map.mp hp
    obtain ⟨hfile, hname⟩ := Bool.and_eq_true_iff.mp (List.mem_filter.mp hn).2
    exact ⟨n, hname, rfl, hfile⟩
  next =>
    -- In a directory that is not there nothing is looked for.
    obtain rfl := Except.ok.inj hfound
    exact ⟨List.nodup_nil, List.forall_mem_nil _⟩

/-- **A sink deletes nothing but leftovers, and each of them once.**  Whatever happens after it
was opened, the paths that a removal deletes are those of artifact files that were listed at the
opening and that the sink has not written since, and the answer if it succeeds; the tree loses
what these lead to and nothing else; and after one removal, whatever came of it, every other
deletes nothing. -/
theorem deletions_safe (hopen : openAt t dir format settings overwrite = (.ok s, u))
    (events : List SinkEvent) :
    (deletions events (s, u)).Nodup ∧
      ∀ front back, events = front ++ .removeStale :: back →
        ∀ x y, run front (s, u) = x → SinkEvent.removeStale.apply x = y →
          (∀ p ∈ SinkEvent.removeStale.deletes x,
            (∃ found, existingArtifacts t dir = .ok found ∧ p ∈ found) ∧
            (∃ n, n.isArtifact = true ∧ p = dir.join n ∧ t.isFile p.route = true) ∧
            p ∉ stored front (s, u)) ∧
          (∀ removed, (x.1.removeStale x.2).1 = .ok removed →
            SinkEvent.removeStale.deletes x = removed) ∧
          x.2.Loses y.2 (SinkEvent.removeStale.deletes x) ∧
          (.removeStale ∈ front → SinkEvent.removeStale.deletes x = [] ∧ y.2 = x.2) := by
  obtain ⟨-, hwritten, hnodup, hfound⟩ := existing_of_openAt hopen
  refine ⟨hnodup.sublist (deletions_sublist _ _), ?_⟩
  rintro front back - x y rfl rfl
  refine ⟨fun p hp => ?_, fun removed hok => ?_, loses_removeAll _ _, fun hagain => ?_⟩
  · obtain ⟨hexisting, hunwritten⟩ := of_mem_deletes hp
    obtain ⟨hlisted, hartifact⟩ := hfound p hexisting
    rw [hwritten, List.nil_append] at hunwritten
    exact ⟨hlisted, hartifact, hunwritten⟩
  · exact deletes_of_removeStale_eq_ok (Prod.ext hok rfl)
  · have hforgotten := existing_run_of_mem (x := (s, u)) hagain
    exact ⟨SinkEvent.deletes_of_nil hforgotten, SinkEvent.apply_removeStale_of_nil hforgotten⟩

/-! ### Two leftovers -/

/-- A directory with two artifacts of an earlier run. -/
def twoLeftovers : FileTree :=
  FileTree.empty.put [.ofText "o"] .directory
    |>.put [.ofText "o", .ofText "config1.ini"] (.file "old")
    |>.put [.ofText "o", .ofText "config0.ini"] (.file "old")

theorem finds_twoLeftovers : twoLeftovers.Finds (.ofText "o") [.ofText "o"] := by
  have hroute : (Path.ofText "o").route = ⟨false, [.down (.ofText "o")], false, 1⟩ := by
    decide +kernel
  exact .of_route (FileTree.linkFree_of_entries (by decide +kernel)) hroute (by decide +kernel)
    (by decide +kernel) (by decide +kernel) (by decide +kernel) (by decide +kernel)

theorem artifactNames_twoLeftovers :
    artifactNames twoLeftovers (.ofText "o") [.ofText "o"] =
      [.ofText "config0.ini", .ofText "config1.ini"] := by
  have hchildren : twoLeftovers.children [.ofText "o"] =
      [.ofText "config0.ini", .ofText "config1.ini"] := by
    have hnames : (twoLeftovers.entries.filterMap fun e =>
        FileTree.childName? [.ofText "o"] e.1) =
          [.ofText "config0.ini", .ofText "config1.ini"] := by decide +kernel
    rw [FileTree.children, hnames]
    exact List.mergeSort_of_pairwise (by decide +kernel)
  have hfound : ∀ n ∈ [Name.ofText "config0.ini", .ofText "config1.ini"],
      n ∈ artifactNames twoLeftovers (.ofText "o") [.ofText "o"] := by
    have hfiles : ∀ n ∈ [Name.ofText "config0.ini", .ofText "config1.ini"],
        n.isArtifact = true ∧ (Path.ofText "o").Admits n ∧
          twoLeftovers.get? [.ofText "o", n] = some (.file "old") := by decide +kernel
    intro n hn
    obtain ⟨hname, hadmits, hfile⟩ := hfiles n hn
    exact (mem_artifactNames finds_twoLeftovers).mpr ⟨hname, hadmits, _, hfile⟩
  rw [← hchildren, artifactNames, List.filter_eq_self]
  intro n hn
  exact (List.mem_filter.mp (hfound n (hchildren ▸ hn))).2

/-- A sink that has found two artifacts and written none. -/
def finder : DirectorySink :=
  ⟨.ofText "o", .ini, .empty, [.ofText "o/config0.ini", .ofText "o/config1.ini"], []⟩

theorem openAt_twoLeftovers :
    openAt twoLeftovers (.ofText "o") .ini .empty true = (.ok finder, twoLeftovers) := by
  rw [openAt_of_resolve finds_twoLeftovers.resolve (.inr rfl), artifactNames_twoLeftovers]
  rfl

/-- The record of a node without neighbours. -/
def loneRecord : NodeRecord :=
  BasePorts.record {} .tcp "127.0.0.1" 0 []

/-- One of the two is written over, and the other is removed. -/
theorem removeStale_twoLeftovers :
    ∃ s v w, store loneRecord (finder, twoLeftovers) = (.ok (), s, v) ∧
      s.existing = finder.existing ∧ s.written = [.ofText "o/config0.ini"] ∧
      s.removeStale v = (.ok [.ofText "o/config1.ini"], { s with existing := [] }, w) := by
  have htakes : finder.Takes twoLeftovers [.ofText "o"] loneRecord := by
    rw [Takes]
    decide +kernel
  have hstored := (store_eq_ok_iff_takes (s := finder) finds_twoLeftovers
    (by decide +kernel)).mpr ⟨htakes, rfl, rfl⟩
  have hfinds := finds_putArtifact (s := finder) finds_twoLeftovers htakes
  have hfile : (finder.putArtifact [.ofText "o"] twoLeftovers loneRecord).get?
      [.ofText "o", .ofText "config1.ini"] = some (.file "old") := by
    rw [get?_putArtifact finds_twoLeftovers htakes, if_neg (by decide +kernel)]
    decide +kernel
  have hremovable : ∀ n ∈ [Name.ofText "config1.ini"], n.Plain ∧ finder.dir.Admits n ∧
      ∃ content, (finder.putArtifact [.ofText "o"] twoLeftovers loneRecord).get?
        ([.ofText "o"] ++ [n]) = some (.file content) := by
    intro n hn
    obtain rfl := List.mem_singleton.mp hn
    exact ⟨by decide +kernel, by decide +kernel, _, hfile⟩
  obtain ⟨w, hremoved, -⟩ := removeAll_eq_ok hfinds (List.nodup_singleton _) hremovable
  have hstale : stale { finder with written := finder.written ++ [finder.pathFor loneRecord.node] } =
      [Name.ofText "config1.ini"].map finder.dir.join := by decide +kernel
  refine ⟨_, _, w, hstored, rfl, by decide +kernel,
    removeStale_eq_ok_iff.mpr ⟨hstale ▸ hremoved, ?_, rfl⟩⟩
  rw [hstale]
  decide +kernel

/-- A removal is tried twice and deletes once. -/
theorem deletions_safe_twoLeftovers :
    ∃ s u, openAt twoLeftovers (.ofText "o") .ini .empty true = (.ok s, u) ∧
      deletions [.store loneRecord, .removeStale, .removeStale] (s, u) =
        [.ofText "o/config1.ini"] ∧
      .ofText "o/config1.ini" ∉ stored [.store loneRecord] (s, u) ∧
      (run [.store loneRecord, .removeStale, .removeStale] (s, u)).2 =
        (run [.store loneRecord, .removeStale] (s, u)).2 := by
  obtain ⟨s, v, w, hstored, hexisting, hwritten, hremoved⟩ := removeStale_twoLeftovers
  have happly : (SinkEvent.store loneRecord).apply (finder, twoLeftovers) = (s, v) :=
    congrArg Prod.snd hstored
  have hdeletes : SinkEvent.removeStale.deletes (s, v) = [.ofText "o/config1.ini"] :=
    deletes_of_removeStale_eq_ok hremoved
  have hdeletions : deletions [.store loneRecord, .removeStale, .removeStale]
      (finder, twoLeftovers) = [.ofText "o/config1.ini"] := by
    rw [deletions_cons, happly, deletions_cons, hdeletes, deletions_of_nil rfl]
    rfl
  obtain ⟨-, hcalls⟩ :=
    deletions_safe openAt_twoLeftovers [.store loneRecord, .removeStale, .removeStale]
  obtain ⟨hfirst, -⟩ := hcalls [.store loneRecord] [.removeStale] rfl _ _ rfl rfl
  obtain ⟨-, -, -, hagain⟩ := hcalls [.store loneRecord, .removeStale] [] rfl _ _ rfl rfl
  refine ⟨finder, twoLeftovers, openAt_twoLeftovers, hdeletions, ?_, (hagain (by simp)).2⟩
  refine (hfirst _ ?_).2.2
  rw [run_cons, happly]
  exact hdeletes ▸ List.mem_singleton_self _

end DirectorySink

end PeerOverlay
