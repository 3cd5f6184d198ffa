/-
The way of a route through a tree without links.

In such a tree each step leads where it is spelled to lead, so the locations that a route comes
by can be read off its steps, `Route.way`.  Making a directory with all above it makes nothing
beside that way, whether it succeeds or not, and if it succeeds there are directories all along
the way:

* `FileTree.Reaches.location_eq_spelled` — a walk ends at the location that its steps spell;
* `FileTree.new_mem_way_of_createDirAll` — all that is made lies on the way;
* `FileTree.get?_createDirAll` — what a tree holds once the directory was made;
* `FileTree.Finds.builds_createDirAll_join` — below a directory that is there, nothing else is
  made.
-/
import Mathlib.Data.List.Infix
import PeerOverlay.Proofs.FileTree.Making

namespace PeerOverlay

/-- Where a step leads from a directory. -/
def Step.lead (loc : Location) : Step → Location
  | .here => loc
  | .up => loc.dropLast
  | .down name => loc ++ [name]

/-- The location that steps spell from a directory on. -/
def spelled (cur : Location) (steps : List Step) : Location :=
  steps.foldl Step.lead cur

theorem spelled_filter_here (cur : Location) (steps : List Step) :
    spelled cur (steps.filter (· ≠ .here)) = spelled cur steps := by
  induction steps generalizing cur with
  | nil => rfl
  | cons step rest ih =>
    cases step with
    | here => exact ih cur
    | up => exact ih cur.dropLast
    | down name => exact ih (cur ++ [name])

namespace Route

/-- The location that a route met in a directory spells. -/
def spelledFrom (r : Route) (cur : Location) : Location :=
  spelled (r.startFrom cur) r.steps

/-- The locations that a route met in a directory comes by, one for each part of its steps. -/
def way (r : Route) (cur : Location) : List Location :=
  r.steps.inits.map (spelled (r.startFrom cur))

variable {r : Route} {cur l : Location}

theorem mem_way : l ∈ r.way cur ↔ ∃ front, front <+: r.steps ∧ spelled (r.startFrom cur) front = l := by
  simp [way]

theorem spelledFrom_mem_way (r : Route) (cur : Location) : r.spelledFrom cur ∈ r.way cur :=
  mem_way.mpr ⟨r.steps, List.prefix_rfl, rfl⟩

/-- The components of a route come by no other locations than its steps. -/
theorem mem_way_of_components {front : List Step} (h : front <+: r.components) :
    spelled (r.startFrom cur) front ∈ r.way cur := by
  obtain ⟨back, hback⟩ := h
  have hfilter := filter_components r
  rw [← hback, List.filter_append, eq_comm, List.filter_eq_append_iff] at hfilter
  obtain ⟨front', back', hsteps, hfront, -⟩ := hfilter
  refine mem_way.mpr ⟨front', ⟨back', hsteps.symm⟩, ?_⟩
  rw [← spelled_filter_here, hfront, spelled_filter_here]

end Route

namespace FileTree

variable {t u : FileTree} {follow trailing : Bool} {links : Nat} {cur loc l : Location}
  {steps : List Step} {r : Route} {e : Entry} {goal : Target}

/-! ### Walks without links -/

theorem Reaches.location_eq_spelled (hlinks : t.LinkFree)
    (h : t.Reaches follow links cur steps trailing goal) :
    goal.location = spelled cur steps := by
  induction h with
  | stop | missing | file => rfl
  | here _ ih | up _ ih | enter _ _ _ ih => exact ih
  | link _ get _ | pass _ get _ _ _ _ => exact absurd get (hlinks _ _)

/-- A walk to a directory comes by nothing but directories. -/
theorem Reaches.directory_of_prefix (hlinks : t.LinkFree) (hcur : t.get? cur = some .directory)
    (h : t.Reaches follow links cur steps trailing (.present loc .directory))
    {front : List Step} (hfront : front <+: steps) :
    t.get? (spelled cur front) = some .directory := by
  generalize hgoal : Target.present loc .directory = goal at h
  -- An empty front stays where the walk is; any other takes the step of the walk.
  induction h generalizing front with
  | stop =>
    rw [List.prefix_nil.mp hfront]
    exact hcur
  | here _ ih =>
    rcases List.prefix_cons_iff.mp hfront with rfl | ⟨front, rfl, hrest⟩
    · exact hcur
    · show t.get? (spelled _ front) = some .directory
      exact ih hcur hrest hgoal
  | up _ ih =>
    rcases List.prefix_cons_iff.mp hfront with rfl | ⟨front, rfl, hrest⟩
    · exact hcur
    · exact ih (get?_dropLast hcur) hrest hgoal
  | enter _ get _ ih =>
    rcases List.prefix_cons_iff.mp hfront with rfl | ⟨front, rfl, hrest⟩
    · exact hcur
    · exact ih get hrest hgoal
  | missing | file => cases hgoal
  | link _ get _ | pass _ get _ _ _ _ => exact absurd get (hlinks _ _)

theorem location_of_resolve (hlinks : t.LinkFree)
    (h : t.resolve follow r = .ok (.present loc e)) : loc = r.spelledFrom t.workdir := by
  obtain ⟨-, -, hreaches⟩ := resolve_eq_ok_iff.mp h
  exact hreaches.location_eq_spelled hlinks

theorem get?_of_mem_way (hlinks : t.LinkFree)
    (h : t.resolve true r = .ok (.present loc .directory)) (hl : l ∈ r.way t.workdir) :
    t.get? l = some .directory := by
  obtain ⟨-, hstart, hreaches⟩ := resolve_eq_ok_iff.mp h
  obtain ⟨front, hfront, rfl⟩ := Route.mem_way.mp hl
  exact hreaches.directory_of_prefix hlinks hstart hfront

/-! ### What is made on the way -/

/-- The second tree is the first with more directories, all of them at given locations. -/
structure Builds (t u : FileTree) (sites : Location → Prop) : Prop where
  gains : t.GainsDirectories u
  mem_sites : ∀ l, t.get? l = none → u.get? l ≠ none → sites l

namespace Builds

variable {sites : Location → Prop} {v : FileTree}

theorem refl (t : FileTree) (sites : Location → Prop) : t.Builds t sites :=
  ⟨.refl t _, fun _ hnone hsome => absurd hnone hsome⟩

theorem trans (h : t.Builds u sites) (hnext : u.Builds v sites) : t.Builds v sites := by
  refine ⟨h.gains.trans hnext.gains, fun l hnone hsome => ?_⟩
  by_cases hu : u.get? l = none
  · exact hnext.mem_sites l hu hsome
  · exact h.mem_sites l hnone hu

theorem of_createDir (hlinks : t.LinkFree) (hsite : sites (r.spelledFrom t.workdir))
    (h : t.createDir r = .ok u) : t.Builds u sites := by
  refine ⟨gainsDirectories_of_createDir h, fun l hnone hsome => ?_⟩
  rw [createDir] at h
  rcases hresolve : t.resolve false { r with trailing := false } with _ | _ | ⟨loc, directoryOnly⟩
  all_goals rw [hresolve] at h
  case ok.absent =>
    obtain rfl := Except.ok.inj h
    obtain ⟨-, -, hreaches⟩ := resolve_eq_ok_iff.mp hresolve
    obtain rfl : loc = r.spelledFrom t.workdir := hreaches.location_eq_spelled hlinks
    rw [get?_put (accepts_of_absent hresolve _)] at hsome
    split at hsome
    next hl => exact hl ▸ hsite
    next => exact absurd hnone hsome
  all_goals cases h

theorem createWith {createParent : FileTree → Except IoError Unit × FileTree}
    (hlinks : t.LinkFree) (hsite : sites (r.spelledFrom t.workdir))
    (hparent : t.Builds (createParent t).2 sites) :
    t.Builds (t.createWith r createParent).2 sites := by
  rw [FileTree.createWith]
  split
  next made hdir => exact of_createDir hlinks hsite hdir
  next hmissing =>
    split
    next e p hfailed => exact hfailed ▸ hparent
    next p hmade =>
      rw [hmade] at hparent
      split
      next made hdir =>
        rw [← hparent.gains.workdir] at hsite
        exact hparent.trans (of_createDir (hparent.gains.linkFree hlinks) hsite hdir)
      next => exact hparent
  next => exact .refl t _

theorem createComponents (hlinks : t.LinkFree) {absolute : Bool} (reversed : List Step)
    (hsites : ∀ front, front <+: reversed.reverse →
      sites (spelled (if absolute then [] else t.workdir) front)) :
    t.Builds (t.createComponents absolute reversed).2 sites := by
  induction reversed with
  | nil => exact .refl t _
  | cons step above ih =>
    refine createWith hlinks (hsites _ List.prefix_rfl) (ih fun front hfront => hsites front ?_)
    rw [List.reverse_cons]
    exact hfront.trans (List.prefix_append _ _)

end Builds

/-- Whatever comes of making a directory, all that is made lies on the way to it. -/
theorem new_mem_way_of_createDirAll (hlinks : t.LinkFree) (r : Route) :
    t.Builds (t.createDirAll r).2 (· ∈ r.way t.workdir) := by
  rw [createDirAll]
  split
  · exact .refl t _
  · refine .createWith hlinks (r.spelledFrom_mem_way t.workdir)
      (.createComponents hlinks _ fun front hfront => Route.mem_way_of_components ?_)
    -- The parent is made from all components but the last.
    rw [List.tail_reverse, List.reverse_reverse] at hfront
    exact hfront.trans (List.dropLast_prefix _)

/-- **A directory is made with the missing ones on the way to it,** and all else stays. -/
theorem get?_createDirAll (hlinks : t.LinkFree) (hempty : r.isEmpty = false)
    (h : t.createDirAll r = (.ok (), u)) (l : Location) :
    u.get? l = if t.get? l = none ∧ l ∈ r.way t.workdir then some .directory else t.get? l := by
  have hbuilds := new_mem_way_of_createDirAll hlinks r
  rw [h] at hbuilds
  obtain ⟨loc, hfound⟩ := isDirectory_iff.mp (isDirectory_of_createDirAll hempty h)
  split
  next hmade =>
    rw [← hbuilds.gains.workdir] at hmade
    exact get?_of_mem_way (hbuilds.gains.linkFree hlinks) hfound hmade.2
  next hstays =>
    rcases hbuilds.gains.get? l with hsame | ⟨hnone, e, he, -⟩
    · exact hsame
    · exact absurd ⟨hnone, hbuilds.mem_sites l hnone (by simp [he])⟩ hstays

theorem Gains.finds {dir : Path} (h : t.GainsDirectories u) (hfinds : t.Finds dir loc) :
    u.Finds dir loc :=
  ⟨h.linkFree hfinds.linkFree, resolve_mono h.keeps hfinds.resolve⟩

section Below

variable {dir : Path} {n : Name}

/-- Below a directory that is there, making a directory makes nothing else. -/
theorem Finds.builds_createDirAll_join (h : t.Finds dir loc) (hn : n.Plain) :
    t.Builds (t.createDirAll (dir.join n).route).2 (· = loc ++ [n]) := by
  have hbuilds := new_mem_way_of_createDirAll h.linkFree (dir.join n).route
  refine ⟨hbuilds.gains, fun l hnone hsome => ?_⟩
  obtain ⟨⟨-, hempty, -⟩, -, -⟩ := resolve_eq_ok_iff.mp h.resolve
  obtain ⟨front, hfront, rfl⟩ := Route.mem_way.mp (hbuilds.mem_sites l hnone hsome)
  have hstart : (dir.join n).route.startFrom t.workdir = dir.route.startFrom t.workdir := by
    rw [Route.startFrom, Route.startFrom, Path.route_join (Path.bytes_ne_nil hempty) hn]
  rw [hstart] at hnone ⊢
  rw [Path.route_join (Path.bytes_ne_nil hempty) hn, List.prefix_concat_iff] at hfront
  rcases hfront with rfl | hfront
  · rw [location_of_resolve h.linkFree h.resolve, spelled, List.foldl_append]
    rfl
  · -- On the way to the directory above there are directories already.
    rw [get?_of_mem_way h.linkFree h.resolve (Route.mem_way.mpr ⟨front, hfront, rfl⟩)] at hnone
    cases hnone

theorem Finds.finds_join_of_createDirAll (h : t.Finds dir loc) (hn : n.Plain)
    (hmade : t.createDirAll (dir.join n).route = (.ok (), u)) :
    u.Finds (dir.join n) (loc ++ [n]) := by
  have hgains := gainsDirectories_createDirAll t (dir.join n).route
  rw [hmade] at hgains
  have hu := Gains.finds hgains h
  have hempty : (dir.join n).route.isEmpty = false := by
    obtain ⟨⟨-, hempty, -⟩, -, -⟩ := resolve_eq_ok_iff.mp h.resolve
    rw [Path.route_join (Path.bytes_ne_nil hempty) hn]
    simp [Route.isEmpty]
  obtain ⟨loc', hfound⟩ := isDirectory_iff.mp (isDirectory_of_createDirAll hempty hmade)
  obtain ⟨-, hpresent⟩ := (hu.resolve_join_eq_ok_iff hn).mp hfound
  rcases hget : u.get? (loc ++ [n]) with _ | e
  · rw [hget] at hpresent
    cases hpresent
  · rw [hget] at hpresent
    obtain ⟨rfl, rfl⟩ := Target.present.inj hpresent
    exact ⟨hu.linkFree, hfound⟩

end Below

end FileTree

end PeerOverlay
