/-
Removing what stands at the end of a path, with all that is below it.

A tree that has lost entries sends a path where it led before, or nowhere:
`FileTree.resolve_of_gains`.  So nothing comes into sight when something is removed.

* `FileTree.Sheds` — all below a location goes, and nothing that is not at or below it;
* `FileTree.resolveParent_of_resolve` — an entry is found in the directory that its last name is
  taken from;
* `FileTree.removeTree_of_isMissing`, `FileTree.removeTree_of_error`,
  `FileTree.removeTree_of_present`, `FileTree.removeTree_cases` — what removing does, by what the
  path leads to.
-/
import PeerOverlay.Proofs.FileTree.Entries

namespace PeerOverlay

namespace FileTree

variable {t u v : FileTree} {kind : Entry → Prop} {follow trailing : Bool} {links : Nat}
  {cur loc parent l : Location} {front steps : List Step} {r : Route} {n : Name} {e : Entry}
  {x : Except IoError Target}

/-! ### Paths after a loss -/

/-- Nothing was found, for want of the last entry or of one on the way to it. -/
def IsMissing : Except IoError Target → Prop
  | .error .notFound | .ok (.absent _ _) => True
  | _ => False

theorem isMissing_iff :
    IsMissing x ↔
      x = .error .notFound ∨ ∃ loc directoryOnly, x = .ok (.absent loc directoryOnly) := by
  rcases x with e | _ | _
  · cases e <;> simp [IsMissing]
  · simp [IsMissing]
  · simp [IsMissing]

/-- A walk passes what it passed before, or comes to something that is lost. -/
theorem walk_of_gains (h : u.Gains t kind) :
    u.walk follow links cur steps trailing = t.walk follow links cur steps trailing ∨
      IsMissing (u.walk follow links cur steps trailing) := by
  fun_induction walk u follow links cur steps trailing with
  | case1 links cur trailing =>
    left
    rw [walk]
  | case2 links cur trailing rest ih => rwa [walk]
  | case3 links cur trailing rest ih => rwa [walk]
  | case4 links cur trailing name rest long =>
    left
    rw [walk, if_pos long]
  | case5 => exact .inr trivial
  | case6 => exact .inr trivial
  | case7 links cur trailing name rest loc short get ih =>
    rwa [walk_enter (Nat.not_lt.mp short) (h.get?_of_some get)]
  | case8 links cur trailing name rest loc short content get last =>
    left
    rw [walk, if_neg short, h.get?_of_some get]
    exact (if_pos last).symm
  | case9 links cur trailing name rest loc short content get more =>
    left
    rw [walk, if_neg short, h.get?_of_some get]
    exact (if_neg more).symm
  | case10 links cur trailing name rest loc short target get last =>
    left
    rw [walk, if_neg short, h.get?_of_some get]
    exact (if_pos last).symm
  | case11 cur trailing name rest loc short target get go =>
    left
    rw [walk, if_neg short, h.get?_of_some get]
    exact (if_neg go).symm
  | case12 => exact .inr trivial
  | case13 cur trailing name rest loc short target get go links route leads ih =>
    rw [walk_pass (Nat.not_lt.mp short) (h.get?_of_some get) go (by simpa using leads)]
    simp only [dite_eq_ite] at ih
    exact ih

/-- What a path leads to, if it is one, is what its walk comes to. -/
theorem resolve_eq_walk (hzero : r.holdsZero = false) (hempty : r.isEmpty = false)
    (hlength : r.length ≤ pathLimit) :
    t.resolve follow r =
      if t.get? (r.startFrom t.workdir) = some .directory then
        t.walk follow linkLimit (r.startFrom t.workdir) r.steps r.trailing
      else .error .notFound := by
  rw [resolve, hzero, hempty]
  simp only [Bool.false_eq_true, if_false, Nat.not_lt.mpr hlength, ← Route.startFrom.eq_def]
  rcases t.get? (r.startFrom t.workdir) with _ | ⟨_ | _ | _⟩ <;> rfl

/-- **A path leads where it led before, or nowhere.** -/
theorem resolve_of_gains (h : u.Gains t kind) (follow : Bool) (r : Route) :
    u.resolve follow r = t.resolve follow r ∨ IsMissing (u.resolve follow r) := by
  by_cases hzero : r.holdsZero = true
  · exact .inl (by rw [resolve, resolve, if_pos hzero, if_pos hzero])
  by_cases hempty : r.isEmpty = true
  · exact .inl (by rw [resolve, resolve, if_neg hzero, if_neg hzero, if_pos hempty, if_pos hempty])
  by_cases hlong : pathLimit < r.length
  · left
    rw [resolve, resolve, if_neg hzero, if_neg hzero, if_neg hempty, if_neg hempty, if_pos hlong,
      if_pos hlong]
  rw [Bool.not_eq_true] at hzero hempty
  rw [resolve_eq_walk hzero hempty (Nat.not_lt.mp hlong),
    resolve_eq_walk hzero hempty (Nat.not_lt.mp hlong), h.workdir]
  by_cases hstart : u.get? (r.startFrom u.workdir) = some .directory
  · rw [if_pos hstart, if_pos (h.get?_of_some hstart)]
    exact walk_of_gains h
  · rw [if_neg hstart]
    exact .inr trivial

theorem IsMissing.of_gains (h : u.Gains t kind) (hmissing : IsMissing (t.resolve follow r)) :
    IsMissing (u.resolve follow r) := by
  rcases resolve_of_gains h follow r with hsame | hmissing'
  · rwa [hsame]
  · exact hmissing'

/-! ### The directory of the last name -/

/-- A walk whose last step goes down to an entry, not followed, comes to the directory of this
entry first. -/
theorem Reaches.exists_parent
    (h : t.Reaches follow links cur steps trailing (.present loc e)) (hfollow : follow = false)
    (htrailing : trailing = false) (hsteps : front ++ [.down n] = steps) :
    ∃ parent, (∀ trailing, t.Reaches true links cur front trailing (.present parent .directory)) ∧
      loc = parent ++ [n] := by
  generalize hgoal : Target.present loc e = goal at h
  -- The last step is the one that is left when the front is used up.
  induction h generalizing front with
  | stop => simp at hsteps
  | here next ih =>
    rcases List.append_eq_cons_iff.mp hsteps with ⟨-, hlast⟩ | ⟨front, rfl, rfl⟩
    · cases hlast
    · obtain ⟨parent, hparent, hloc⟩ := ih htrailing rfl hgoal
      exact ⟨parent, fun trailing => .here (hparent trailing), hloc⟩
  | up next ih =>
    rcases List.append_eq_cons_iff.mp hsteps with ⟨-, hlast⟩ | ⟨front, rfl, rfl⟩
    · cases hlast
    · obtain ⟨parent, hparent, hloc⟩ := ih htrailing rfl hgoal
      exact ⟨parent, fun trailing => .up (hparent trailing), hloc⟩
  | enter short get next ih =>
    rcases List.append_eq_cons_iff.mp hsteps with ⟨rfl, hlast⟩ | ⟨front, rfl, rfl⟩
    · cases hlast
      cases next
      exact ⟨_, fun _ => .stop, (Target.present.inj hgoal).1⟩
    · obtain ⟨parent, hparent, hloc⟩ := ih htrailing rfl hgoal
      exact ⟨parent, fun trailing => .enter short get (hparent trailing), hloc⟩
  | missing => cases hgoal
  | file | link =>
    rcases List.append_eq_cons_iff.mp hsteps with ⟨rfl, hlast⟩ | ⟨front, -, hlast⟩
    · cases hlast
      exact ⟨_, fun _ => .stop, (Target.present.inj hgoal).1⟩
    · simp at hlast
  | pass short get go leads next ih =>
    rcases List.append_eq_cons_iff.mp hsteps with ⟨-, hlast⟩ | ⟨front, rfl, rfl⟩
    · cases hlast
      exact absurd ⟨rfl, htrailing, hfollow⟩ go
    · obtain ⟨parent, hparent, hloc⟩ :=
        ih (by simp [htrailing]) (List.append_assoc _ front _) hgoal
      exact ⟨parent, fun trailing => .pass short get (by simp) leads (hparent _), hloc⟩

/-- The last step of a route goes down to an entry of this name. -/
structure EndsIn (r : Route) (n : Name) : Prop where
  last : r.steps.getLast? = some (.down n)
  trailing : r.trailing = false

theorem endsIn_join (dir : Path) (hn : n.Plain) : EndsIn (dir.join n).route n := by
  by_cases hdir : dir.bytes = []
  · have hbytes : dir.join n = ⟨n.bytes⟩ := by rw [Path.join, if_pos hdir]
    refine ⟨?_, ?_⟩
    · rw [Path.route_steps, hbytes, Path.pieces_eq_singleton hn.ne_nil hn.slash_notMem,
        List.map_singleton, hn.ofPiece_bytes, List.getLast?_singleton]
    · rw [hbytes]
      exact decide_eq_false fun hslash => hn.slash_notMem (List.mem_of_getLast? hslash)
  · rw [Path.route_join hdir hn]
    exact ⟨List.getLast?_concat, rfl⟩

/-- **An entry is found in the directory that its last name is taken from.** -/
theorem resolveParent_of_resolve (hend : EndsIn r n)
    (h : t.resolve false r = .ok (.present loc e)) :
    ∃ parent, t.resolveParent r = .ok parent ∧ loc = parent ++ [n] := by
  obtain ⟨⟨hzero, -, hlength⟩, hstart, hreaches⟩ := resolve_eq_ok_iff.mp h
  obtain ⟨front, hfront⟩ := List.getLast?_eq_some_iff.mp hend.last
  obtain ⟨parent, hparent, hloc⟩ := hreaches.exists_parent rfl hend.trailing hfront.symm
  have hbefore : r.beforeLast.steps = front := by simp [Route.beforeLast, hfront]
  refine ⟨parent, ?_, hloc⟩
  rw [resolveParent]
  split
  next hempty =>
    -- Nothing stands before the name, so it is taken from where the walk starts.
    obtain ⟨habsolute, rfl⟩ : r.beforeLast.absolute = false ∧ front = [] := by
      simpa [Route.isEmpty, hbefore] using hempty
    have habsolute : r.absolute = false := habsolute
    rw [Route.startFrom, habsolute] at hstart hparent
    cases hparent false
    exact if_pos hstart
  next hempty =>
    have hzero' : r.beforeLast.holdsZero = false := by
      rw [Route.holdsZero, hfront, List.any_append] at hzero
      rw [Route.holdsZero, hbefore]
      exact (Bool.or_eq_false_iff.mp hzero).1
    have hresolve : t.resolve true r.beforeLast = .ok (.present parent .directory) := by
      refine resolve_eq_ok_iff.mpr ⟨⟨hzero', by simpa using hempty, hlength⟩, hstart, ?_⟩
      rw [hbefore]
      exact hparent _
    rw [hresolve]

/-- So is it where entries are lost, unless that directory cannot be found any more. -/
theorem resolveParent_of_gains (h : u.Gains t kind) (r : Route) :
    u.resolveParent r = t.resolveParent r ∨ u.resolveParent r = .error .notFound := by
  rw [resolveParent, resolveParent, h.workdir]
  split
  · by_cases hdir : u.get? u.workdir = some .directory
    · rw [if_pos hdir, if_pos (h.get?_of_some hdir)]
      exact .inl rfl
    · rw [if_neg hdir]
      exact .inr rfl
  · rcases resolve_of_gains h true r.beforeLast with hsame | hmissing
    · rw [hsame]
      exact .inl rfl
    · right
      rcases isMissing_iff.mp hmissing with hnone | ⟨loc, directoryOnly, habsent⟩
      · rw [hnone]
      · rw [habsent]

/-! ### Removing a tree -/

/-- All that is below a location is gone, and nothing that is not at it or below it. -/
structure Sheds (t u : FileTree) (loc : Location) : Prop where
  gains : u.Gains t fun _ => True
  stays : ∀ l, ¬loc <+: l → u.get? l = t.get? l
  below : ∀ l, loc <+: l → l ≠ loc → u.get? l = none

theorem get?_prune_of_ne_nil (hroot : loc ≠ []) (l : Location) :
    (t.prune loc).get? l = if loc <+: l then none else t.get? l := by
  by_cases hl : l = []
  · subst hl
    rw [if_neg (by simpa using hroot), get?_nil, get?_nil]
  · rw [get?_prune hl]
    simp only [List.isPrefixOf_iff_prefix]

theorem get?_emptyDir (hroot : loc ≠ []) (hdir : t.get? loc = some .directory) (l : Location) :
    (t.emptyDir loc).get? l =
      if l = loc then some .directory else if loc <+: l then none else t.get? l := by
  have hnot : ¬loc <+: loc.dropLast := fun hsub =>
    dropLast_ne_self hroot (hsub.eq_of_length_le (by simp)).symm
  have haccepts : (t.prune loc).Accepts loc .directory := by
    refine ⟨hroot, ?_, fun _ => rfl⟩
    rw [get?_prune_of_ne_nil hroot, if_neg hnot]
    exact get?_dropLast hdir
  rw [emptyDir, get?_put haccepts, get?_prune_of_ne_nil hroot]

theorem Sheds.of_get? (hworkdir : u.workdir = t.workdir)
    (hstays : ∀ l, ¬loc <+: l → u.get? l = t.get? l)
    (hbelow : ∀ l, loc <+: l → l ≠ loc → u.get? l = none)
    (hsite : u.get? loc = none ∨ u.get? loc = t.get? loc) : t.Sheds u loc := by
  have hlost : ∀ {l}, u.get? l = none → t.get? l = u.get? l ∨
      u.get? l = none ∧ ∃ e, t.get? l = some e ∧ True := by
    intro l hnone
    rcases hl : t.get? l with _ | e
    · exact .inl hnone.symm
    · exact .inr ⟨hnone, e, rfl, trivial⟩
  refine ⟨⟨hworkdir.symm, fun l => ?_⟩, hstays, hbelow⟩
  by_cases hsub : loc <+: l
  · by_cases hl : l = loc
    · subst hl
      rcases hsite with hnone | hsame
      · exact hlost hnone
      · exact .inl hsame.symm
    · exact hlost (hbelow l hsub hl)
  · exact .inl (hstays l hsub).symm

theorem sheds_prune (hroot : loc ≠ []) : t.Sheds (t.prune loc) loc := by
  have hget := get?_prune_of_ne_nil (t := t) hroot
  refine .of_get? rfl (fun l hl => ?_) (fun l hl _ => ?_) (.inl ?_)
  · rw [hget, if_neg hl]
  · rw [hget, if_pos hl]
  · rw [hget, if_pos List.prefix_rfl]

theorem sheds_emptyDir (hroot : loc ≠ []) (hdir : t.get? loc = some .directory) :
    t.Sheds (t.emptyDir loc) loc := by
  have hget := get?_emptyDir hroot hdir
  refine .of_get? (workdir_put _ loc _) (fun l hl => ?_) (fun l hl hne => ?_) (.inr ?_)
  · rw [hget, if_neg, if_neg hl]
    rintro rfl
    exact hl List.prefix_rfl
  · rw [hget, if_neg hne, if_pos hl]
  · rw [hget, if_pos rfl, hdir]

theorem Sheds.trans (h : t.Sheds u loc) (hnext : u.Sheds v loc) : t.Sheds v loc :=
  ⟨hnext.gains.trans h.gains, fun l hl => (hnext.stays l hl).trans (h.stays l hl), hnext.below⟩

/-- A path leads nowhere once that is gone which it led to. -/
theorem isMissing_of_gone (hgains : u.Gains t kind)
    (h : t.resolve follow r = .ok (.present loc e)) (hgone : u.get? loc = none) :
    IsMissing (u.resolve follow r) := by
  refine (resolve_of_gains hgains follow r).resolve_left fun hsame => ?_
  rw [h] at hsame
  cases hgone.symm.trans (get?_of_resolve hsame)

theorem removeTree_of_isMissing (h : IsMissing (t.resolve false r)) :
    t.removeTree r = (.ok false, t) := by
  rw [removeTree]
  rcases isMissing_iff.mp h with hnone | ⟨loc, directoryOnly, habsent⟩
  · rw [hnone]
  · rw [habsent]

theorem removeTree_of_error {x : IoError} (h : t.resolve false r = .error x)
    (hx : x ≠ .notFound) : t.removeTree r = (.error x, t) := by
  rw [removeTree, h]
  cases x with
  | notFound => exact absurd rfl hx
  | _ => rfl

/-- **What a path leads to is removed with all that is below it,** and the path leads nowhere
afterwards.  A directory that its own path leads through is emptied, and left. -/
theorem removeTree_of_present (hend : EndsIn r n)
    (h : t.resolve false r = .ok (.present loc e)) :
    ∃ u, t.removeTree r = (.ok true, u) ∧ t.Sheds u loc ∧ IsMissing (u.resolve false r) := by
  obtain ⟨parent, hparent, rfl⟩ := resolveParent_of_resolve hend h
  have hroot : parent ++ [n] ≠ [] := List.append_ne_nil_of_right_ne_nil _ (List.cons_ne_nil _ _)
  by_cases hdir : e = .directory
  · subst hdir
    have hemptied := sheds_emptyDir hroot (get?_of_resolve h)
    have hget := get?_emptyDir hroot (get?_of_resolve h)
    have hchildren : (t.emptyDir (parent ++ [n])).children (parent ++ [n]) = [] := by
      refine List.eq_nil_iff_forall_not_mem.mpr fun m hm => ?_
      obtain ⟨e, he⟩ := mem_children.mp hm
      cases (hemptied.below _ (List.prefix_append _ _) (by simp)).symm.trans he
    rcases resolveParent_of_gains hemptied.gains r with hsame | hnone
    · -- The directory is found again by its path, empty.
      have hremove : (t.emptyDir (parent ++ [n])).removeDir r =
          .ok ((t.emptyDir (parent ++ [n])).prune (parent ++ [n])) := by
        rw [removeDir, hsame, hparent, hend.last]
        simp only [hget, if_true, hchildren]
      have hsheds := hemptied.trans (sheds_prune hroot)
      refine ⟨_, ?_, hsheds, isMissing_of_gone hsheds.gains h ?_⟩
      · rw [removeTree, h]
        simp only [hremove]
      · rw [get?_prune_of_ne_nil hroot, if_pos List.prefix_rfl]
    · -- Its path led through it.
      have hremove : (t.emptyDir (parent ++ [n])).removeDir r = .error .notFound := by
        rw [removeDir, hnone]
      refine ⟨_, ?_, hemptied, ?_⟩
      · rw [removeTree, h]
        simp only [hremove]
      · refine (resolve_of_gains hemptied.gains false r).resolve_left fun hsame => ?_
        obtain ⟨parent', hparent', -⟩ := resolveParent_of_resolve hend (hsame.trans h)
        cases hnone.symm.trans hparent'
  · have hsheds := sheds_prune (t := t) hroot
    refine ⟨_, ?_, hsheds, isMissing_of_gone hsheds.gains h ?_⟩
    · rw [removeTree, h]
      cases e with
      | directory => exact absurd rfl hdir
      | _ => rfl
    · rw [get?_prune_of_ne_nil hroot, if_pos List.prefix_rfl]

/-- **Removing takes away what the path leads to, finds nothing, or passes on why that cannot be
told;** it gives up on nothing else. -/
theorem removeTree_cases (hend : EndsIn r n) (t : FileTree) :
    (∃ loc e u, t.resolve false r = .ok (.present loc e) ∧ t.removeTree r = (.ok true, u) ∧
      t.Sheds u loc ∧ IsMissing (u.resolve false r)) ∨
    (IsMissing (t.resolve false r) ∧ t.removeTree r = (.ok false, t)) ∨
    (∃ x, t.resolve false r = .error x ∧ x ≠ .notFound ∧ t.removeTree r = (.error x, t)) := by
  by_cases hmissing : IsMissing (t.resolve false r)
  · exact .inr (.inl ⟨hmissing, removeTree_of_isMissing hmissing⟩)
  · rcases h : t.resolve false r with x | ⟨loc, e⟩ | ⟨loc, directoryOnly⟩
    · have hx : x ≠ .notFound := by
        rintro rfl
        exact hmissing (isMissing_iff.mpr (.inl h))
      exact .inr (.inr ⟨x, rfl, hx, removeTree_of_error h hx⟩)
    · obtain ⟨u, hremove, hsheds, hgone⟩ := removeTree_of_present hend h
      exact .inl ⟨loc, e, u, rfl, hremove, hsheds, hgone⟩
    · exact absurd (isMissing_iff.mpr (.inr ⟨loc, directoryOnly, h⟩)) hmissing

end FileTree

end PeerOverlay
