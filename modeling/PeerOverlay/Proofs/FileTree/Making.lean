/-
Making a directory with the missing ones above it.

The path is tried from its end: where its parent is missing, that is made first.  Without
steps up, a parent that had to be made is empty, so all that is made lies on the way to one
location, `FileTree.Made`.

* `FileTree.createDirAll_of_isDirectory` — nothing is made where a directory is found;
* `FileTree.provides_of_createDirAll` — else, without steps up, the directory is made with
  nothing but missing ones above it;
* `FileTree.createDirAll_detour` — with a step up from a missing directory, the path leads to
  a directory that was there but could not be found.
-/
import PeerOverlay.Proofs.FileTree.Entries

namespace PeerOverlay

namespace FileTree

variable {t u p : FileTree} {follow : Bool} {links : Nat} {r parent : Route} {loc l : Location}
  {n : Name} {e : Entry}

/-! ### Directories on the way to a location -/

/-- The second tree is the first with all missing directories on the way to a free
location, and with one there. -/
structure Made (t u : FileTree) (loc : Location) : Prop where
  workdir : u.workdir = t.workdir
  free : t.get? loc = none
  get?_eq : ∀ l, u.get? l =
    if t.get? l = none ∧ l <+: loc then some .directory else t.get? l

namespace Made

theorem get?_self (h : t.Made u loc) : u.get? loc = some .directory := by
  rw [h.get?_eq, if_pos ⟨h.free, List.prefix_rfl⟩]

theorem gains (h : t.Made u loc) : t.GainsDirectories u := by
  refine ⟨h.workdir, fun l => ?_⟩
  rw [h.get?_eq]
  split
  next hmissing => exact .inr ⟨hmissing.1, _, rfl, rfl⟩
  next => exact .inl rfl

/-- The directory that was made is empty. -/
theorem get?_child (h : t.Made u loc) (n : Name) : u.get? (loc ++ [n]) = none := by
  have hfree : t.get? (loc ++ [n]) = none := by
    refine Option.eq_none_iff_forall_not_mem.mpr fun e he => ?_
    have hparent := get?_parent he
    rw [h.free] at hparent
    cases hparent
  have hprefix : ¬loc ++ [n] <+: loc := fun hpre => by
    have hlength := hpre.length_le
    rw [List.length_append, List.length_singleton] at hlength
    omega
  rw [h.get?_eq, if_neg fun hmade => hprefix hmade.2, hfree]

theorem put (hfree : t.get? loc = none) (haccepts : t.Accepts loc .directory) :
    t.Made (t.put loc .directory) loc := by
  refine ⟨workdir_put t loc _, hfree, fun l => ?_⟩
  rw [get?_put haccepts]
  by_cases hl : l = loc
  · rw [if_pos hl, if_pos ⟨hl ▸ hfree, hl ▸ List.prefix_rfl⟩]
  · rw [if_neg hl, if_neg]
    -- What stands above the location are directories already.
    rintro ⟨hnone, hprefix⟩
    rw [get?_above haccepts.2.1 hprefix hl] at hnone
    cases hnone

/-- What is made next inside a directory that was made lies on the way as well. -/
theorem trans (h : t.Made p loc) (hnext : p.Made u (loc ++ [n])) : t.Made u (loc ++ [n]) := by
  refine ⟨hnext.workdir.trans h.workdir, h.gains.get?_of_none hnext.free, fun l => ?_⟩
  by_cases hfree : t.get? l = none
  · by_cases hl : l <+: loc
    · have hp : p.get? l = some .directory := by rw [h.get?_eq, if_pos ⟨hfree, hl⟩]
      rw [hnext.get?_eq, if_neg (by simp [hp]), hp,
        if_pos ⟨hfree, hl.trans (List.prefix_append _ _)⟩]
    · have hp : p.get? l = none := by rw [h.get?_eq, if_neg fun hmade => hl hmade.2, hfree]
      rw [hnext.get?_eq, hp, hfree]
  · have hp : p.get? l = t.get? l := by rw [h.get?_eq, if_neg fun hmade => hfree hmade.1]
    rw [hnext.get?_eq, hp]

end Made

/-! ### Making one directory -/

theorem createDir_eq_ok (h : t.createDir r = .ok u) :
    ∃ loc, t.Made u loc ∧ u.resolve true r = .ok (.present loc .directory) ∧
      ∃ directoryOnly,
        t.resolve false { r with trailing := false } = .ok (.absent loc directoryOnly) := by
  rw [createDir] at h
  rcases hresolve : t.resolve false { r with trailing := false } with _ | _ | ⟨loc, directoryOnly⟩
  all_goals rw [hresolve] at h
  case ok.absent =>
    obtain rfl := Except.ok.inj h
    have hmade := Made.put (get?_of_resolve_absent hresolve) (accepts_of_absent hresolve _)
    obtain ⟨hpath, hstart, hreaches⟩ := resolve_eq_ok_iff.mp hresolve
    refine ⟨loc, hmade, resolve_eq_ok_iff.mpr ⟨hpath, ?_, ?_⟩, directoryOnly, rfl⟩
    · rw [workdir_put]
      exact hmade.gains.get?_of_some hstart
    · rw [workdir_put]
      exact hreaches.fill hmade.gains.keeps hmade.get?_self r.trailing
  all_goals cases h

/-- How a directory comes to be at the end of a path: it was made, or it was there, or it was
there or made once its parent was. -/
theorem createWith_eq_ok {createParent : FileTree → Except IoError Unit × FileTree}
    (h : t.createWith r createParent = (.ok (), u)) :
    t.createDir r = .ok u ∨ (u = t ∧ t.isDirectory r = true) ∨
      ∃ p, createParent t = (.ok (), p) ∧
        (p.createDir r = .ok u ∨ (u = p ∧ p.isDirectory r = true)) := by
  rw [createWith] at h
  have hfound : ∀ {t : FileTree} {e : IoError},
      (if t.isDirectory r then Except.ok () else .error e, t) = (.ok (), u) →
        u = t ∧ t.isDirectory r = true := by
    intro t e hif
    obtain ⟨hif, rfl⟩ := Prod.mk.inj hif
    refine ⟨rfl, ?_⟩
    by_contra hno
    rw [if_neg hno] at hif
    cases hif
  rcases hdir : t.createDir r with e | made
  · rw [hdir] at h
    by_cases he : e = .notFound
    · subst he
      rcases hparent : createParent t with ⟨e | ⟨⟩, p⟩
      · simp only [hparent] at h
        cases (Prod.mk.inj h).1
      · refine .inr (.inr ⟨p, rfl, ?_⟩)
        simp only [hparent] at h
        rcases hagain : p.createDir r with e | made
        · rw [hagain] at h
          exact .inr (hfound h)
        · rw [hagain] at h
          exact .inl (congrArg Except.ok (Prod.mk.inj h).2)
    · refine .inr (.inl (hfound (e := e) ?_))
      cases e <;> first | exact absurd rfl he | exact h
  · rw [hdir] at h
    exact .inl (congrArg Except.ok (Prod.mk.inj h).2)

/-! ### Making the parent first -/

theorem made_or_found (h : t.createDir r = .ok u ∨ (u = t ∧ t.isDirectory r = true)) :
    (u = t ∧ t.isDirectory r = true) ∨
      ∃ loc, t.Made u loc ∧ u.resolve true r = .ok (.present loc .directory) := by
  rcases h with hdir | hfound
  · obtain ⟨loc, hmade, hresolve, -⟩ := createDir_eq_ok hdir
    exact .inr ⟨loc, hmade, hresolve⟩
  · exact .inl hfound

/-- A directory inside one that was made is made by itself. -/
theorem exists_made_below (hmade : t.Made p loc)
    (hparent : p.resolve true parent = .ok (.present loc .directory))
    (habsolute : r.absolute = parent.absolute) {front back : List Step}
    (hsteps : r.steps = front ++ .down n :: back) (hback : ∀ step ∈ back, step = .here)
    (hfront : front.filter (· ≠ .here) = parent.steps.filter (· ≠ .here))
    (h : p.createDir r = .ok u ∨ (u = p ∧ p.isDirectory r = true)) :
    ∃ loc, t.Made u loc ∧ u.resolve true r = .ok (.present loc .directory) := by
  have hstart : r.startFrom = parent.startFrom := by
    funext cur
    rw [Route.startFrom, Route.startFrom, habsolute]
  obtain ⟨-, -, hreaches⟩ := resolve_eq_ok_iff.mp hparent
  obtain ⟨links, hwalk⟩ := (hreaches.respell hfront false).walk_append
  rw [← hstart] at hwalk
  -- Nothing stands at the last name, for the parent was just made.
  have hlast : ∀ {follow trailing goal},
      p.Reaches follow linkLimit (r.startFrom p.workdir) r.steps trailing goal →
        goal = .absent (loc ++ [n]) trailing := by
    intro follow trailing goal hgoal
    rw [hsteps, ← walk_eq_ok_iff, hwalk _ (List.cons_ne_nil _ _), walk_eq_ok_iff] at hgoal
    cases hgoal with
    | missing => rfl
    | enter _ get | file _ get | link _ get | pass _ get =>
      rw [hmade.get?_child] at get
      cases get
  rcases h with hdir | ⟨rfl, hdir⟩
  · obtain ⟨loc', hnext, hresolve, directoryOnly, habsent⟩ := createDir_eq_ok hdir
    obtain ⟨-, -, hgoal⟩ := resolve_eq_ok_iff.mp habsent
    obtain ⟨rfl, -⟩ := Target.absent.inj (hlast hgoal)
    exact ⟨_, hmade.trans hnext, hresolve⟩
  · obtain ⟨loc', hpresent⟩ := isDirectory_iff.mp hdir
    obtain ⟨-, -, hgoal⟩ := resolve_eq_ok_iff.mp hpresent
    cases hlast hgoal

theorem createComponents_eq_ok {absolute : Bool} {reversed : List Step}
    (hup : .up ∉ reversed) (hhere : .here ∉ reversed.dropLast)
    (h : t.createComponents absolute reversed = (.ok (), u)) :
    u = t ∨ ∃ loc, t.Made u loc ∧
      u.resolve true (.ofComponents absolute reversed.reverse) =
        .ok (.present loc .directory) := by
  induction reversed generalizing u with
  | nil => exact .inl (Prod.mk.inj h).2.symm
  | cons step above ih =>
    rw [createComponents] at h
    rcases createWith_eq_ok h with hdir | ⟨rfl, -⟩ | ⟨p, habove, hnext⟩
    · exact (made_or_found (.inl hdir)).imp_left And.left
    · exact .inl rfl
    · by_cases hroot : above = []
      · subst hroot
        obtain ⟨-, rfl⟩ := Prod.mk.inj habove
        exact (made_or_found hnext).imp_left And.left
      · rw [List.dropLast_cons_of_ne_nil hroot] at hhere
        rcases ih (List.not_mem_of_not_mem_cons hup) (List.not_mem_of_not_mem_cons hhere) habove
          with rfl | ⟨loc, hmade, hresolve⟩
        · exact (made_or_found hnext).imp_left And.left
        · -- Neither stays nor goes up: the step goes down to a name.
          cases step with
          | here => exact absurd List.mem_cons_self hhere
          | up => exact absurd List.mem_cons_self hup
          | down n =>
            have hsteps : (.down n :: above).reverse = above.reverse ++ [.down n] :=
              List.reverse_cons
            exact .inr (exists_made_below hmade hresolve rfl hsteps (List.forall_mem_nil _) rfl
              hnext)

end FileTree

namespace Route

variable {r : Route}

theorem filter_components (r : Route) :
    r.components.filter (· ≠ .here) = r.steps.filter (· ≠ .here) := by
  rw [components]
  split
  next hsteps => simp [hsteps]
  next => simp

theorem here_notMem_tail_components : .here ∉ r.components.tail := by
  rw [components]
  split
  · simp
  · exact fun hmem => by simpa using List.mem_of_mem_tail hmem

theorem up_notMem_components (h : .up ∉ r.steps) : .up ∉ r.components := by
  intro hmem
  have hfilter : .up ∈ r.components.filter (· ≠ .here) := by simpa using hmem
  rw [filter_components] at hfilter
  exact h (List.mem_filter.mp hfilter).1

/-- Beside steps that stay, the steps of a route are its components. -/
theorem exists_steps_eq {front : List Step} {n : Name}
    (h : r.components = front ++ [.down n]) :
    ∃ front' back, r.steps = front' ++ .down n :: back ∧
      front'.filter (· ≠ .here) = front.filter (· ≠ .here) ∧ ∀ step ∈ back, step = .here := by
  have hfilter := filter_components r
  rw [h, List.filter_append, eq_comm, List.filter_eq_append_iff] at hfilter
  obtain ⟨steps, last, hsteps, hfront, hlast⟩ := hfilter
  rw [List.filter_cons_of_pos (by simp), List.filter_nil, List.filter_eq_cons_iff] at hlast
  obtain ⟨heres, back, rfl, hheres, -, hback⟩ := hlast
  refine ⟨steps ++ heres, back, by rw [hsteps, List.append_assoc], ?_, fun step hstep => ?_⟩
  · rw [List.filter_append, hfront, List.filter_eq_nil_iff.mpr hheres, List.append_nil]
  · simpa using List.filter_eq_nil_iff.mp hback step hstep

end Route

namespace FileTree

variable {t u : FileTree} {r : Route}

theorem createDirAll_eq_ok (hup : .up ∉ r.steps) (hempty : r.isEmpty = false)
    (h : t.createDirAll r = (.ok (), u)) :
    (u = t ∧ t.isDirectory r = true) ∨
      ∃ loc, t.Made u loc ∧ u.resolve true r = .ok (.present loc .directory) := by
  rw [createDirAll, hempty, if_neg Bool.false_ne_true] at h
  rcases createWith_eq_ok h with hdir | hfound | ⟨p, habove, hnext⟩
  · exact made_or_found (.inl hdir)
  · exact .inl hfound
  · rcases hcomponents : r.components.reverse with _ | ⟨last, above⟩
    · rw [hcomponents] at habove
      obtain ⟨-, rfl⟩ := Prod.mk.inj habove
      exact made_or_found hnext
    · rw [hcomponents, List.tail_cons] at habove
      have hcomponents : r.components = above.reverse ++ [last] := by
        simpa using congrArg List.reverse hcomponents
      by_cases hroot : above = []
      · subst hroot
        obtain ⟨-, rfl⟩ := Prod.mk.inj habove
        exact made_or_found hnext
      · have htail : r.components.tail = above.dropLast.reverse ++ [last] := by
          rw [hcomponents, List.tail_append_of_ne_nil (by simpa using hroot), List.tail_reverse]
        have hhere := Route.here_notMem_tail_components (r := r)
        have hup := Route.up_notMem_components hup
        rw [htail] at hhere
        rw [hcomponents] at hup
        simp only [List.mem_append, List.mem_reverse, List.mem_singleton, not_or] at hhere hup
        rcases createComponents_eq_ok hup.1 hhere.1 habove with rfl | ⟨loc, hmade, hresolve⟩
        · exact made_or_found hnext
        · cases last with
          | here => exact absurd rfl hhere.2
          | up => exact absurd rfl hup.2
          | down n =>
            obtain ⟨front, back, hsteps, hfront, hback⟩ := Route.exists_steps_eq hcomponents
            exact .inr (exists_made_below hmade hresolve rfl hsteps hback hfront hnext)

/-! ### Nothing but directories -/

theorem gainsDirectories_of_createDir (h : t.createDir r = .ok u) : t.GainsDirectories u := by
  rw [createDir] at h
  rcases hresolve : t.resolve false { r with trailing := false } with _ | _ | ⟨loc, directoryOnly⟩
  all_goals rw [hresolve] at h
  case ok.absent =>
    obtain rfl := Except.ok.inj h
    exact Gains.put (.refl t _) (get?_of_resolve_absent hresolve)
      (accepts_of_absent hresolve _) rfl
  all_goals cases h

theorem gainsDirectories_createWith {createParent : FileTree → Except IoError Unit × FileTree}
    (hparent : t.GainsDirectories (createParent t).2) :
    t.GainsDirectories (t.createWith r createParent).2 := by
  rw [createWith]
  split
  next made hdir => exact gainsDirectories_of_createDir hdir
  next hmissing =>
    split
    next e p hfailed => exact hfailed ▸ hparent
    next p hmade =>
      rw [hmade] at hparent
      split
      next made hdir => exact hparent.trans (gainsDirectories_of_createDir hdir)
      next => exact hparent
  next => exact .refl t _

theorem gainsDirectories_createComponents (absolute : Bool) (reversed : List Step) :
    t.GainsDirectories (t.createComponents absolute reversed).2 := by
  induction reversed with
  | nil => exact .refl t _
  | cons step above ih => exact gainsDirectories_createWith ih

/-- Whatever comes of making a directory, the tree gains directories at most. -/
theorem gainsDirectories_createDirAll (t : FileTree) (r : Route) :
    t.GainsDirectories (t.createDirAll r).2 := by
  rw [createDirAll]
  split
  · exact .refl t _
  · exact gainsDirectories_createWith (gainsDirectories_createComponents _ _)

theorem isDirectory_of_createDirAll (hempty : r.isEmpty = false)
    (h : t.createDirAll r = (.ok (), u)) : u.isDirectory r = true := by
  have hdone : ∀ {t : FileTree}, t.createDir r = .ok u ∨ (u = t ∧ t.isDirectory r = true) →
      u.isDirectory r = true := by
    intro t hdir
    rcases made_or_found hdir with ⟨rfl, hfound⟩ | ⟨loc, -, hresolve⟩
    · exact hfound
    · exact isDirectory_iff.mpr ⟨loc, hresolve⟩
  rw [createDirAll, hempty, if_neg Bool.false_ne_true] at h
  rcases createWith_eq_ok h with hdir | hfound | ⟨p, -, hnext⟩
  · exact hdone (.inl hdir)
  · exact hdone (.inr hfound)
  · exact hdone hnext

/-! ### Directories found or made -/

theorem createDir_of_isDirectory (h : t.isDirectory r = true) :
    t.createDir r = .error .alreadyExists := by
  obtain ⟨loc, hfound⟩ := isDirectory_iff.mp h
  obtain ⟨hpath, hstart, hreaches⟩ := resolve_eq_ok_iff.mp hfound
  obtain ⟨loc, e, hstay⟩ := hreaches.exists_present
  have hresolve : t.resolve false { r with trailing := false } = .ok (.present loc e) :=
    resolve_eq_ok_iff.mpr ⟨hpath, hstart, hstay⟩
  rw [createDir, hresolve]

/-- Nothing is made where a directory is found. -/
theorem createDirAll_of_isDirectory (h : t.isDirectory r = true) :
    t.createDirAll r = (.ok (), t) := by
  rw [createDirAll]
  split
  · rfl
  · rw [createWith, createDir_of_isDirectory h]
    simp [h]

/-- The second tree is the first with a directory at the end of a route: it was found there,
or it was made with the missing ones above it. -/
structure Provides (t u : FileTree) (r : Route) (loc : Location) : Prop where
  resolve : u.resolve true r = .ok (.present loc .directory)
  found_or_made : u = t ∨ t.Made u loc

namespace Provides

variable {loc : Location}

theorem of_isDirectory (h : t.resolve true r = .ok (.present loc .directory)) :
    t.Provides t r loc :=
  ⟨h, .inl rfl⟩

theorem gains (h : t.Provides u r loc) : t.GainsDirectories u := by
  rcases h.found_or_made with rfl | hmade
  · exact .refl u _
  · exact hmade.gains

/-- All that is new are directories on the way. -/
theorem get?_eq (h : t.Provides u r loc) (l : Location) :
    u.get? l = if t.get? l = none ∧ l <+: loc then some .directory else t.get? l := by
  rcases h.found_or_made with rfl | hmade
  · rw [if_neg]
    rintro ⟨hnone, hway⟩
    rw [get?_directory_above (get?_of_resolve h.resolve) hway] at hnone
    cases hnone
  · exact hmade.get?_eq l

/-- All that stands in the directory stood there before. -/
theorem get?_child (h : t.Provides u r loc) (n : Name) :
    u.get? (loc ++ [n]) = t.get? (loc ++ [n]) := by
  rcases h.found_or_made with rfl | hmade
  · rfl
  · rw [hmade.get?_child, hmade.gains.get?_of_none (hmade.get?_child n)]

/-- A directory that was there is the one that is found. -/
theorem eq_of_isDirectory (h : t.Provides u r loc) (hdir : t.isDirectory r = true) : u = t := by
  rcases h.found_or_made with hfound | hmade
  · exact hfound
  · obtain ⟨loc', hresolve⟩ := isDirectory_iff.mp hdir
    have hsame := (resolve_mono hmade.gains.keeps hresolve).symm.trans h.resolve
    obtain ⟨rfl, -⟩ := Target.present.inj (Except.ok.inj hsame)
    have hfree := hmade.free
    rw [get?_of_resolve hresolve] at hfree
    cases hfree

end Provides

/-- **Making a directory with all above it leaves a directory that was there, or one that was
made with nothing else but missing ones above it.**  A path with steps up may also lead to one
that was there but could not be found before. -/
theorem provides_of_createDirAll (hway : .up ∉ r.steps ∨ t.isDirectory r = true)
    (hempty : r.isEmpty = false) (h : t.createDirAll r = (.ok (), u)) :
    ∃ loc, t.Provides u r loc := by
  by_cases hdir : t.isDirectory r = true
  · obtain ⟨loc, hresolve⟩ := isDirectory_iff.mp hdir
    rw [createDirAll_of_isDirectory hdir] at h
    obtain ⟨-, rfl⟩ := Prod.mk.inj h
    exact ⟨loc, .of_isDirectory hresolve⟩
  · rcases createDirAll_eq_ok (hway.resolve_right hdir) hempty h with ⟨-, hfound⟩ | hmade
    · exact absurd hfound hdir
    · obtain ⟨loc, hmade, hresolve⟩ := hmade
      exact ⟨loc, hresolve, .inr hmade⟩

/-! ### Missing directories on the way -/

theorem createWith_of_absent {createParent : FileTree → Except IoError Unit × FileTree}
    {loc : Location} {directoryOnly : Bool}
    (h : t.resolve false { r with trailing := false } = .ok (.absent loc directoryOnly)) :
    t.createWith r createParent = (.ok (), t.put loc .directory) := by
  rw [createWith, createDir, h]

/-- A directory is made inside one that is there. -/
theorem createDirAll_of_absent {loc : Location} {directoryOnly : Bool}
    (hempty : r.isEmpty = false)
    (h : t.resolve false { r with trailing := false } = .ok (.absent loc directoryOnly)) :
    ∃ u, t.Made u loc ∧ t.createDirAll r = (.ok (), u) ∧
      u.resolve true r = .ok (.present loc .directory) := by
  have hdir : t.createDir r = .ok (t.put loc .directory) := by rw [createDir, h]
  obtain ⟨loc', hmade, hresolve, _, habsent⟩ := createDir_eq_ok hdir
  obtain ⟨rfl, -⟩ := Target.absent.inj (Except.ok.inj (h.symm.trans habsent))
  refine ⟨_, hmade, ?_, hresolve⟩
  rw [createDirAll, hempty, if_neg Bool.false_ne_true]
  exact createWith_of_absent h

/-- Nothing more is made at a path that leads to a directory once its parent was made. -/
theorem createWith_of_parent {createParent : FileTree → Except IoError Unit × FileTree}
    (hmissing : t.resolve false { r with trailing := false } = .error .notFound)
    (hparent : createParent t = (.ok (), u)) (hfound : u.isDirectory r = true) :
    t.createWith r createParent = (.ok (), u) := by
  have hdir : t.createDir r = .error .notFound := by rw [createDir, hmissing]
  rw [createWith, hdir]
  simp only [hparent, createDir_of_isDirectory hfound, hfound, if_true]

variable {x y : Name} {steps : List Step} {goal : Target}

/-- A path through a missing directory leads nowhere, even if it comes back from there. -/
theorem resolve_of_missing (hrelative : r.absolute = false) (hroute : r.steps = .down x :: steps)
    (hzero : r.holdsZero = false) (hlength : r.length ≤ pathLimit)
    (hshort : x.bytes.length ≤ nameLimit) (hdir : t.get? t.workdir = some .directory)
    (hx : t.get? (t.workdir ++ [x]) = none) (hsteps : steps ≠ []) :
    t.resolve follow r = .error .notFound := by
  have hempty : r.isEmpty = false := by simp [Route.isEmpty, hroute]
  rw [resolve, hzero, hempty, hrelative, hroute]
  simp only [Bool.false_eq_true, if_false, Nat.not_lt.mpr hlength, hdir]
  rw [walk, if_neg (Nat.not_lt.mpr hshort), hx]
  exact if_neg hsteps

/-- A path into a directory and up again goes on from where it started. -/
theorem resolve_down_up (hrelative : r.absolute = false)
    (hroute : r.steps = .down x :: .up :: steps) (hzero : r.holdsZero = false)
    (hlength : r.length ≤ pathLimit) (hshort : x.bytes.length ≤ nameLimit)
    (hx : t.get? (t.workdir ++ [x]) = some .directory)
    (h : t.Reaches follow linkLimit t.workdir steps r.trailing goal) :
    t.resolve follow r = .ok goal := by
  have hempty : r.isEmpty = false := by simp [Route.isEmpty, hroute]
  have hstart : r.startFrom t.workdir = t.workdir := by simp [Route.startFrom, hrelative]
  have hback : (t.workdir ++ [x]).dropLast = t.workdir := List.dropLast_concat
  rw [← hback] at h
  refine resolve_eq_ok_iff.mpr ⟨⟨hzero, hempty, hlength⟩, ?_, ?_⟩
  · rw [hstart]
    exact get?_parent hx
  · rw [hstart, hroute]
    exact .enter hshort hx (.up h)

/-- A missing directory is made for the sake of a step up from it. -/
theorem createComponents_down_up (hzero : x.bytes.contains 0 = false)
    (hshort : x.bytes.length ≤ nameLimit) (hdir : t.get? t.workdir = some .directory)
    (hx : t.get? (t.workdir ++ [x]) = none) :
    ∃ u, t.Made u (t.workdir ++ [x]) ∧
      t.createComponents false [.up, .down x] = (.ok (), u) := by
  have hzero₁ : (Route.ofComponents false [.down x]).holdsZero = false := by
    simpa [Route.holdsZero, Route.ofComponents] using hzero
  have hzero₂ : (Route.ofComponents false [.down x, .up]).holdsZero = false := by
    simpa [Route.holdsZero, Route.ofComponents] using hzero
  have hlength₁ : (Route.ofComponents false [.down x]).length ≤ pathLimit := by
    have hsum : (Route.ofComponents false [.down x]).length = x.bytes.length := by
      simp [Route.ofComponents, Route.stepText]
    rw [hsum]
    exact Nat.le_trans hshort (by decide)
  have hlength₂ : (Route.ofComponents false [.down x, .up]).length ≤ pathLimit := by
    have hsum : (Route.ofComponents false [.down x, .up]).length = x.bytes.length + 3 := by
      simp [Route.ofComponents, Route.stepText]
    rw [hsum]
    exact Nat.le_trans (Nat.add_le_add_right hshort 3) (by decide)
  have habsent : t.resolve false (.ofComponents false [.down x]) =
      .ok (.absent (t.workdir ++ [x]) false) :=
    resolve_eq_ok_iff.mpr ⟨⟨hzero₁, rfl, hlength₁⟩, hdir, .missing hshort hx⟩
  obtain ⟨u, hu⟩ : ∃ u, u = t.put (t.workdir ++ [x]) .directory := ⟨_, rfl⟩
  have hmade : t.Made u (t.workdir ++ [x]) := hu ▸ Made.put hx (accepts_of_absent habsent _)
  have hstart : u.get? (u.workdir ++ [x]) = some .directory := by
    rw [hmade.workdir]
    exact hmade.get?_self
  refine ⟨u, hmade, createWith_of_parent ?_ (hu ▸ createWith_of_absent habsent) ?_⟩
  · exact resolve_of_missing rfl rfl hzero₂ hlength₂ hshort hdir hx (List.cons_ne_nil _ _)
  · exact isDirectory_iff.mpr ⟨_, resolve_down_up rfl rfl hzero₂ hlength₂ hshort hstart .stop⟩

/-- **A step up from a missing directory leads somewhere once that directory is made.**  A path
with such a step is not found, and then leads to a directory that was there all along. -/
theorem createDirAll_detour (hrelative : r.absolute = false)
    (hroute : r.steps = [.down x, .up, .down y]) (hzero : r.holdsZero = false)
    (hlength : r.length ≤ pathLimit) (hxs : x.bytes.length ≤ nameLimit)
    (hys : y.bytes.length ≤ nameLimit) (hdir : t.get? t.workdir = some .directory)
    (hx : t.get? (t.workdir ++ [x]) = none) (hy : t.get? (t.workdir ++ [y]) = some .directory) :
    t.isDirectory r = false ∧ ∃ u, t.Made u (t.workdir ++ [x]) ∧
      t.createDirAll r = (.ok (), u) ∧
        u.resolve true r = .ok (.present (t.workdir ++ [y]) .directory) := by
  have hmissing : t.isDirectory r = false := by
    rw [isDirectory,
      resolve_of_missing hrelative hroute hzero hlength hxs hdir hx (List.cons_ne_nil _ _)]
  have hmissing' : t.resolve false { r with trailing := false } = .error .notFound :=
    resolve_of_missing hrelative hroute hzero hlength hxs hdir hx (List.cons_ne_nil _ _)
  have hzero' : x.bytes.contains 0 = false := by
    rw [Route.holdsZero, hroute] at hzero
    exact (Bool.or_eq_false_iff.mp hzero).1
  obtain ⟨u, hmade, hparent⟩ := createComponents_down_up hzero' hxs hdir hx
  have hfound : u.resolve true r = .ok (.present (t.workdir ++ [y]) .directory) := by
    have hstart : u.get? (u.workdir ++ [x]) = some .directory := by
      rw [hmade.workdir]
      exact hmade.get?_self
    have hend : u.get? (u.workdir ++ [y]) = some .directory := by
      rw [hmade.workdir]
      exact hmade.gains.get?_of_some hy
    rw [← hmade.workdir]
    exact resolve_down_up hrelative hroute hzero hlength hxs hstart (.enter hys hend .stop)
  have habove : r.components.reverse.tail = [.up, .down x] := by
    rw [Route.components, hrelative, hroute]
    rfl
  have hempty : r.isEmpty = false := by simp [Route.isEmpty, hroute]
  refine ⟨hmissing, u, hmade, ?_, hfound⟩
  rw [createDirAll, hempty, if_neg Bool.false_ne_true, hrelative, habove]
  exact createWith_of_parent hmissing' hparent (isDirectory_iff.mpr ⟨_, hfound⟩)

end FileTree

end PeerOverlay
