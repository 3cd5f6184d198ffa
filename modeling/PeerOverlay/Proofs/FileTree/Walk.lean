/-
Walks through a file tree.

`FileTree.Reaches` lists the steps of a walk that ends at something.  What holds of such
walks goes by induction on it:

* `FileTree.walk_eq_ok_iff` — a walk has an answer exactly if it reaches it;
* `FileTree.Reaches.get?_eq`, `Reaches.absent_inv` — what stands where a walk ends;
* `FileTree.Reaches.walk_append` — a walk that comes to a directory goes on from there;
* `FileTree.Reaches.mono_directory` — it comes there again after changes that leave all
  directories and links alone;
* `FileTree.Reaches.location_eq` — without links and steps up the steps spell the location.
-/
import Mathlib.Data.List.Induction
import PeerOverlay.FileTree.Access

namespace PeerOverlay

/-- The name that a step goes down to. -/
def Step.name? : Step → Option Name
  | .down name => some name
  | _ => none

/-- Where a walk ended. -/
def Target.location : Target → Location
  | .present loc _ => loc
  | .absent loc _ => loc

/-- Where the walk of a route starts that is met in a given directory. -/
def Route.startFrom (r : Route) (cur : Location) : Location :=
  if r.absolute then [] else cur

namespace FileTree

/-- The steps of a walk that ends at something.  A link at the end is followed unless the
walk may stop at it. -/
inductive Reaches (t : FileTree) (follow : Bool) :
    Nat → Location → List Step → Bool → Target → Prop
  | stop {links cur trailing} :
    Reaches t follow links cur [] trailing (.present cur .directory)
  | here {links cur rest trailing goal}
    (next : Reaches t follow links cur rest trailing goal) :
    Reaches t follow links cur (.here :: rest) trailing goal
  | up {links cur rest trailing goal}
    (next : Reaches t follow links cur.dropLast rest trailing goal) :
    Reaches t follow links cur (.up :: rest) trailing goal
  | enter {links cur name rest trailing goal} (short : name.bytes.length ≤ nameLimit)
    (get : t.get? (cur ++ [name]) = some .directory)
    (next : Reaches t follow links (cur ++ [name]) rest trailing goal) :
    Reaches t follow links cur (.down name :: rest) trailing goal
  | missing {links cur name trailing} (short : name.bytes.length ≤ nameLimit)
    (get : t.get? (cur ++ [name]) = none) :
    Reaches t follow links cur [.down name] trailing (.absent (cur ++ [name]) trailing)
  | file {links cur name content} (short : name.bytes.length ≤ nameLimit)
    (get : t.get? (cur ++ [name]) = some (.file content)) :
    Reaches t follow links cur [.down name] false (.present (cur ++ [name]) (.file content))
  | link {links cur name target} (short : name.bytes.length ≤ nameLimit)
    (get : t.get? (cur ++ [name]) = some (.link target)) (stay : follow = false) :
    Reaches t follow links cur [.down name] false (.present (cur ++ [name]) (.link target))
  | pass {links cur name rest trailing target goal} (short : name.bytes.length ≤ nameLimit)
    (get : t.get? (cur ++ [name]) = some (.link target))
    (go : ¬(rest = [] ∧ trailing = false ∧ follow = false))
    (leads : target.route.isEmpty = false)
    (next : Reaches t follow links (target.route.startFrom cur) (target.route.steps ++ rest)
      (trailing || (target.route.trailing && rest.isEmpty)) goal) :
    Reaches t follow (links + 1) cur (.down name :: rest) trailing goal

variable {t u : FileTree} {follow trailing : Bool} {links : Nat} {cur loc : Location}
  {steps rest : List Step} {name : Name} {e : Entry} {goal : Target}

/-! ### Locations -/

/-- Only a directory holds entries. -/
theorem get?_dropLast (h : t.get? loc = some e) : t.get? loc.dropLast = some .directory := by
  by_cases hroot : loc = []
  · subst hroot
    exact t.get?_nil
  · rw [get?, entryAt, if_neg hroot, Option.map_eq_some_iff] at h
    obtain ⟨a, hfind, -⟩ := h
    have hloc : a.1 = loc := by simpa using List.find?_some hfind
    exact hloc ▸ (t.rooted a (List.mem_of_find?_eq_some hfind)).2

theorem get?_parent (h : t.get? (loc ++ [name]) = some e) : t.get? loc = some .directory := by
  simpa using get?_dropLast h

/-- All that stands above a directory are directories. -/
theorem get?_directory_above {above : Location} (h : t.get? loc = some .directory)
    (habove : above <+: loc) : t.get? above = some .directory := by
  induction loc using List.reverseRecOn with
  | nil => rwa [List.prefix_nil.mp habove]
  | append_singleton loc name ih =>
    rcases List.prefix_concat_iff.mp habove with rfl | habove
    · exact h
    · exact ih (get?_parent h) habove

/-- What stands properly above a location is above the directory that the location is in. -/
theorem get?_above {above : Location} (h : t.get? loc.dropLast = some .directory)
    (habove : above <+: loc) (hne : above ≠ loc) : t.get? above = some .directory := by
  obtain ⟨below, rfl⟩ := habove
  have hbelow : below ≠ [] := by
    rintro rfl
    exact hne (List.append_nil above).symm
  rw [List.dropLast_append_of_ne_nil hbelow] at h
  exact get?_directory_above h (List.prefix_append above _)

theorem get?_startFrom (h : t.get? cur = some .directory) (r : Route) :
    t.get? (r.startFrom cur) = some .directory := by
  rw [Route.startFrom]
  split
  · exact t.get?_nil
  · exact h

/-! ### Walks step by step -/

theorem walk_enter (short : name.bytes.length ≤ nameLimit)
    (get : t.get? (cur ++ [name]) = some .directory) :
    t.walk follow links cur (.down name :: rest) trailing =
      t.walk follow links (cur ++ [name]) rest trailing := by
  rw [walk, if_neg (Nat.not_lt.mpr short), get]

theorem walk_pass {target : Path} (short : name.bytes.length ≤ nameLimit)
    (get : t.get? (cur ++ [name]) = some (.link target))
    (go : ¬(rest = [] ∧ trailing = false ∧ follow = false))
    (leads : target.route.isEmpty = false) :
    t.walk follow (links + 1) cur (.down name :: rest) trailing =
      t.walk follow links (target.route.startFrom cur) (target.route.steps ++ rest)
        (trailing || (target.route.trailing && rest.isEmpty)) := by
  rw [walk, if_neg (Nat.not_lt.mpr short), get]
  simp only [if_neg go, leads, Bool.false_eq_true, if_false]
  rfl

theorem Reaches.walk_eq (h : t.Reaches follow links cur steps trailing goal) :
    t.walk follow links cur steps trailing = .ok goal := by
  induction h with
  | stop => rw [walk]
  | here _ ih => rwa [walk]
  | up _ ih => rwa [walk]
  | enter short get _ ih => rwa [walk_enter short get]
  | missing short get => rw [walk, if_neg (Nat.not_lt.mpr short), get, if_pos rfl]
  | file short get =>
    rw [walk, if_neg (Nat.not_lt.mpr short), get]
    exact if_pos ⟨rfl, rfl⟩
  | link short get stay =>
    rw [walk, if_neg (Nat.not_lt.mpr short), get]
    exact if_pos ⟨rfl, rfl, stay⟩
  | pass short get go leads _ ih => rwa [walk_pass short get go leads]

theorem reaches_of_walk (h : t.walk follow links cur steps trailing = .ok goal) :
    t.Reaches follow links cur steps trailing goal := by
  fun_induction walk t follow links cur steps trailing with
  | case1 =>
    obtain rfl := Except.ok.inj h
    exact .stop
  | case2 links cur trailing rest ih => exact .here (ih h)
  | case3 links cur trailing rest ih => exact .up (ih h)
  | case5 links cur trailing name loc short get =>
    obtain rfl := Except.ok.inj h
    exact .missing (Nat.not_lt.mp short) get
  | case7 links cur trailing name rest loc short get ih =>
    exact .enter (Nat.not_lt.mp short) get (ih h)
  | case8 links cur trailing name rest loc short content get last =>
    obtain rfl := Except.ok.inj h
    obtain ⟨rfl, rfl⟩ := last
    exact .file (Nat.not_lt.mp short) get
  | case10 links cur trailing name rest loc short target get last =>
    obtain rfl := Except.ok.inj h
    obtain ⟨rfl, rfl, stay⟩ := last
    exact .link (Nat.not_lt.mp short) get stay
  | case13 cur trailing name rest loc short target get go links route leads ih =>
    refine .pass (Nat.not_lt.mp short) get go (by simpa using leads) ?_
    simp only [dite_eq_ite] at ih
    exact ih h
  | _ => cases h

theorem walk_eq_ok_iff :
    t.walk follow links cur steps trailing = .ok goal ↔
      t.Reaches follow links cur steps trailing goal :=
  ⟨reaches_of_walk, Reaches.walk_eq⟩

namespace Reaches

/-! ### Where a walk ends -/

theorem get?_eq (h : t.Reaches follow links cur steps trailing (.present loc e))
    (hcur : t.get? cur = some .directory) : t.get? loc = some e := by
  generalize hgoal : Target.present loc e = goal at h
  induction h with
  | stop =>
    obtain ⟨rfl, rfl⟩ := Target.present.inj hgoal
    exact hcur
  | here _ ih => exact ih hcur hgoal
  | up _ ih => exact ih (get?_dropLast hcur) hgoal
  | enter _ get _ ih => exact ih get hgoal
  | missing => cases hgoal
  | file _ get | link _ get _ =>
    obtain ⟨rfl, rfl⟩ := Target.present.inj hgoal
    exact get
  | pass _ _ _ _ _ ih => exact ih (get?_startFrom hcur _) hgoal

/-- Nothing stands where a walk ends in nothing, and it stands in a directory there. -/
theorem absent_inv {directoryOnly : Bool}
    (h : t.Reaches follow links cur steps trailing (.absent loc directoryOnly))
    (hcur : t.get? cur = some .directory) :
    t.get? loc = none ∧ ∃ dir name, loc = dir ++ [name] ∧ t.get? dir = some .directory := by
  generalize hgoal : Target.absent loc directoryOnly = goal at h
  induction h with
  | stop => cases hgoal
  | here _ ih => exact ih hcur hgoal
  | up _ ih => exact ih (get?_dropLast hcur) hgoal
  | enter _ get _ ih => exact ih get hgoal
  | @missing links cur name trailing _ get =>
    obtain ⟨rfl, -⟩ := Target.absent.inj hgoal
    exact ⟨get, cur, name, rfl, hcur⟩
  | file | link => cases hgoal
  | pass _ _ _ _ _ ih => exact ih (get?_startFrom hcur _) hgoal

/-! ### Walks in stages -/

/-- **A walk that comes to a directory goes on from there.**  What follows does not see the
way that led there, but for the links passed on it. -/
theorem walk_append (h : t.Reaches true links cur steps trailing (.present loc .directory)) :
    ∃ links', ∀ rest ≠ [], ∀ follow trailing',
      t.walk follow links cur (steps ++ rest) trailing' =
        t.walk follow links' loc rest trailing' := by
  generalize hgoal : Target.present loc .directory = goal at h
  induction h with
  | @stop links cur =>
    obtain ⟨rfl, -⟩ := Target.present.inj hgoal
    exact ⟨links, fun rest _ follow trailing' => rfl⟩
  | here _ ih =>
    obtain ⟨links', hrest⟩ := ih hgoal
    refine ⟨links', fun rest hne follow trailing' => ?_⟩
    rw [List.cons_append, walk, hrest rest hne]
  | up _ ih =>
    obtain ⟨links', hrest⟩ := ih hgoal
    refine ⟨links', fun rest hne follow trailing' => ?_⟩
    rw [List.cons_append, walk, hrest rest hne]
  | enter short get _ ih =>
    obtain ⟨links', hrest⟩ := ih hgoal
    refine ⟨links', fun rest hne follow trailing' => ?_⟩
    rw [List.cons_append, walk_enter short get, hrest rest hne]
  | missing | file | link => cases hgoal
  | @pass links cur name front trailing target goal short get _ leads _ ih =>
    obtain ⟨links', hrest⟩ := ih hgoal
    refine ⟨links', fun rest hne follow trailing' => ?_⟩
    -- The link is not the last step any more, so it is passed in any case.
    have hlast : front ++ rest ≠ [] := List.append_ne_nil_of_right_ne_nil _ hne
    have hlast' : (front ++ rest).isEmpty = false := by simpa using fun _ => hne
    rw [List.cons_append, walk_pass short get (fun hstay => hlast hstay.1) leads, hlast',
      Bool.and_false, Bool.or_false, ← List.append_assoc, hrest rest hne]

theorem heres_append {front : List Step} (hfront : ∀ step ∈ front, step = .here)
    (h : t.Reaches follow links cur rest trailing goal) :
    t.Reaches follow links cur (front ++ rest) trailing goal := by
  induction front with
  | nil => exact h
  | cons step front ih =>
    obtain ⟨rfl, hrest⟩ := List.forall_mem_cons.mp hfront
    exact .here (ih hrest)

/-- **Steps that stay make no difference to a walk that comes to a directory,** and neither
does a slash at the end. -/
theorem respell (h : t.Reaches true links cur steps trailing (.present loc .directory))
    {other : List Step} (hother : other.filter (· ≠ .here) = steps.filter (· ≠ .here))
    (trailing' : Bool) :
    t.Reaches true links cur other trailing' (.present loc .directory) := by
  generalize hgoal : Target.present loc .directory = goal at h
  -- All steps of the other spelling up to the next one that counts stay.
  have hskip : ∀ {front : List Step}, (∀ step ∈ front, ¬(decide (step ≠ .here) = true)) →
      ∀ step ∈ front, step = .here := by
    intro front hfront step hstep
    simpa using hfront step hstep
  induction h generalizing other trailing' with
  | stop =>
    have hheres := hskip (List.filter_eq_nil_iff.mp hother)
    rw [← other.append_nil]
    obtain ⟨rfl, -⟩ := Target.present.inj hgoal
    exact heres_append hheres .stop
  | here _ ih => exact ih (by simpa using hother) trailing' hgoal
  | up _ ih =>
    rw [List.filter_cons_of_pos (by simp)] at hother
    obtain ⟨front, back, rfl, hfront, -, hback⟩ := List.filter_eq_cons_iff.mp hother
    exact heres_append (hskip hfront) (.up (ih hback trailing' hgoal))
  | enter short get _ ih =>
    rw [List.filter_cons_of_pos (by simp)] at hother
    obtain ⟨front, back, rfl, hfront, -, hback⟩ := List.filter_eq_cons_iff.mp hother
    exact heres_append (hskip hfront) (.enter short get (ih hback trailing' hgoal))
  | missing | file | link => cases hgoal
  | pass short get _ leads _ ih =>
    rw [List.filter_cons_of_pos (by simp)] at hother
    obtain ⟨front, back, rfl, hfront, -, hback⟩ := List.filter_eq_cons_iff.mp hother
    refine heres_append (hskip hfront) (.pass short get (by simp) leads (ih ?_ _ hgoal))
    rw [List.filter_append, List.filter_append, hback]

/-- Where a directory is found something stands also if a link at the end is not followed. -/
theorem exists_present (h : t.Reaches true links cur steps trailing (.present loc .directory)) :
    ∃ loc e, t.Reaches false links cur steps false (.present loc e) := by
  generalize hgoal : Target.present loc .directory = goal at h
  induction h with
  | stop => exact ⟨_, _, .stop⟩
  | here _ ih =>
    obtain ⟨loc, e, hstay⟩ := ih hgoal
    exact ⟨loc, e, .here hstay⟩
  | up _ ih =>
    obtain ⟨loc, e, hstay⟩ := ih hgoal
    exact ⟨loc, e, .up hstay⟩
  | enter short get _ ih =>
    obtain ⟨loc, e, hstay⟩ := ih hgoal
    exact ⟨loc, e, .enter short get hstay⟩
  | missing | file | link => cases hgoal
  | @pass links cur name rest trailing target goal short get _ leads _ ih =>
    by_cases hlast : rest = []
    · subst hlast
      exact ⟨_, _, .link short get rfl⟩
    · obtain ⟨loc, e, hstay⟩ := ih hgoal
      refine ⟨loc, e, .pass short get (fun hend => hlast hend.1) leads ?_⟩
      have hmore : rest.isEmpty = false := by simpa using hlast
      rwa [hmore, Bool.and_false, Bool.or_false]

end Reaches

/-! ### Walks after a change -/

/-- All that a walk can pass in the first tree stands in the second as well. -/
structure Keeps (t u : FileTree) : Prop where
  workdir : u.workdir = t.workdir
  directory : ∀ {loc}, t.get? loc = some .directory → u.get? loc = some .directory
  link : ∀ {loc target}, t.get? loc = some (.link target) → u.get? loc = some (.link target)

/-- The second tree holds all that the first holds, and more entries of one kind at most. -/
structure Gains (t u : FileTree) (kind : Entry → Prop) : Prop where
  workdir : u.workdir = t.workdir
  get? : ∀ loc, u.get? loc = t.get? loc ∨
    t.get? loc = none ∧ ∃ e, u.get? loc = some e ∧ kind e

/-- The second tree holds all that the first holds, and more directories at most. -/
abbrev GainsDirectories (t u : FileTree) : Prop :=
  t.Gains u fun e => e = .directory

/-- The second tree holds all that the first holds, and more files at most. -/
abbrev GainsFiles (t u : FileTree) : Prop :=
  t.Gains u fun e => ∃ content, e = .file content

theorem Keeps.refl (t : FileTree) : t.Keeps t :=
  ⟨rfl, id, id⟩

theorem Keeps.trans {v : FileTree} (h : t.Keeps u) (hnext : u.Keeps v) : t.Keeps v :=
  ⟨hnext.workdir.trans h.workdir, fun hl => hnext.directory (h.directory hl),
    fun hl => hnext.link (h.link hl)⟩

namespace Gains

variable {kind : Entry → Prop} {v : FileTree}

theorem refl (t : FileTree) (kind : Entry → Prop) : t.Gains t kind :=
  ⟨rfl, fun _ => .inl rfl⟩

theorem get?_of_some (h : t.Gains u kind) (hl : t.get? loc = some e) : u.get? loc = some e := by
  rcases h.get? loc with hsame | ⟨hnone, -⟩
  · rw [hsame, hl]
  · cases hl.symm.trans hnone

theorem get?_of_none (h : t.Gains u kind) (hl : u.get? loc = none) : t.get? loc = none := by
  rcases h.get? loc with hsame | ⟨hnone, -⟩
  · rw [← hsame, hl]
  · exact hnone

/-- An entry of another kind is not new. -/
theorem get?_of_not (h : t.Gains u kind) (hl : u.get? loc = some e) (he : ¬kind e) :
    t.get? loc = some e := by
  rcases h.get? loc with hsame | ⟨-, e', he', hkind⟩
  · rw [← hsame, hl]
  · obtain rfl := Option.some.inj (hl.symm.trans he')
    exact absurd hkind he

theorem keeps (h : t.Gains u kind) : t.Keeps u :=
  ⟨h.workdir, h.get?_of_some, h.get?_of_some⟩

theorem trans (h : t.Gains u kind) (hnext : u.Gains v kind) : t.Gains v kind := by
  refine ⟨hnext.workdir.trans h.workdir, fun loc => ?_⟩
  rcases hnext.get? loc with hsame | ⟨hnone, hmade⟩
  · rw [hsame]
    exact h.get? loc
  · exact .inr ⟨h.get?_of_none hnone, hmade⟩

end Gains

namespace Reaches

theorem mono_directory (hkeeps : t.Keeps u)
    (h : t.Reaches follow links cur steps trailing (.present loc .directory)) :
    u.Reaches follow links cur steps trailing (.present loc .directory) := by
  generalize hgoal : Target.present loc .directory = goal at h ⊢
  induction h with
  | stop => exact .stop
  | here _ ih => exact .here (ih hgoal)
  | up _ ih => exact .up (ih hgoal)
  | enter short get _ ih => exact .enter short (hkeeps.directory get) (ih hgoal)
  | missing | file | link => cases hgoal
  | pass short get go leads _ ih => exact .pass short (hkeeps.link get) go leads (ih hgoal)

/-- A file is come to again, whatever it holds by then. -/
theorem mono_file (hkeeps : t.Keeps u) {content content' : String}
    (hfile : u.get? loc = some (.file content'))
    (h : t.Reaches follow links cur steps trailing (.present loc (.file content))) :
    u.Reaches follow links cur steps trailing (.present loc (.file content')) := by
  generalize hgoal : Target.present loc (.file content) = goal at h
  induction h with
  | stop | missing | link => cases hgoal
  | here _ ih => exact .here (ih hgoal)
  | up _ ih => exact .up (ih hgoal)
  | enter short get _ ih => exact .enter short (hkeeps.directory get) (ih hgoal)
  | file short get =>
    obtain ⟨rfl, -⟩ := Target.present.inj hgoal
    exact .file short hfile
  | pass short get go leads _ ih => exact .pass short (hkeeps.link get) go leads (ih hgoal)

/-- A directory made where a walk ended in nothing is come to. -/
theorem fill (hkeeps : t.Keeps u) {directoryOnly : Bool} (hmade : u.get? loc = some .directory)
    (h : t.Reaches follow links cur steps trailing (.absent loc directoryOnly))
    (trailing' : Bool) :
    u.Reaches true links cur steps trailing' (.present loc .directory) := by
  generalize hgoal : Target.absent loc directoryOnly = goal at h
  induction h generalizing trailing' with
  | stop | file | link => cases hgoal
  | here _ ih => exact .here (ih trailing' hgoal)
  | up _ ih => exact .up (ih trailing' hgoal)
  | enter short get _ ih => exact .enter short (hkeeps.directory get) (ih trailing' hgoal)
  | missing short get =>
    obtain ⟨rfl, -⟩ := Target.absent.inj hgoal
    exact .enter short hmade .stop
  | pass short get _ leads _ ih =>
    exact .pass short (hkeeps.link get) (by simp) leads (ih _ hgoal)

/-- What a walk comes to is come to again where there is more. -/
theorem mono {kind : Entry → Prop} (hgains : t.Gains u kind)
    (h : t.Reaches follow links cur steps trailing (.present loc e)) :
    u.Reaches follow links cur steps trailing (.present loc e) := by
  generalize hgoal : Target.present loc e = goal at h ⊢
  induction h with
  | stop => exact .stop
  | here _ ih => exact .here (ih hgoal)
  | up _ ih => exact .up (ih hgoal)
  | enter short get _ ih => exact .enter short (hgains.get?_of_some get) (ih hgoal)
  | missing => cases hgoal
  | file short get => exact .file short (hgains.get?_of_some get)
  | link short get stay => exact .link short (hgains.get?_of_some get) stay
  | pass short get go leads _ ih =>
    exact .pass short (hgains.get?_of_some get) go leads (ih hgoal)

/-- More files lead a walk nowhere but to themselves. -/
theorem of_gainsFiles (hgains : t.GainsFiles u)
    (h : u.Reaches follow links cur steps trailing (.present loc e)) :
    t.Reaches follow links cur steps trailing (.present loc e) ∨ t.get? loc = none := by
  generalize hgoal : Target.present loc e = goal at h ⊢
  induction h with
  | stop => exact .inl .stop
  | here _ ih => exact (ih hgoal).imp_left .here
  | up _ ih => exact (ih hgoal).imp_left .up
  | enter short get _ ih =>
    exact (ih hgoal).imp_left (.enter short (hgains.get?_of_not get (by simp)))
  | missing => cases hgoal
  | @file _ cur name _ short get =>
    obtain ⟨rfl, -⟩ := Target.present.inj hgoal
    rcases hgains.get? (cur ++ [name]) with hsame | ⟨hnone, -⟩
    · exact .inl (.file short (hsame ▸ get))
    · exact .inr hnone
  | link short get stay => exact .inl (.link short (hgains.get?_of_not get (by simp)) stay)
  | pass short get go leads _ ih =>
    exact (ih hgoal).imp_left (.pass short (hgains.get?_of_not get (by simp)) go leads)

end Reaches

/-! ### Trees without links -/

/-- No symbolic link stands anywhere in the tree. -/
def LinkFree (t : FileTree) : Prop :=
  ∀ loc target, t.get? loc ≠ some (.link target)

theorem directory_ne_link (target : Path) : Entry.directory ≠ .link target :=
  nofun

theorem file_ne_link (content : String) (target : Path) : Entry.file content ≠ .link target :=
  nofun

instance (e : Entry) : Decidable (∀ target, e ≠ .link target) :=
  match e with
  | .directory => isTrue directory_ne_link
  | .file content => isTrue (file_ne_link content)
  | .link target => isFalse fun h => h target rfl

theorem mem_entries_of_get? {loc : Location} {e : Entry} (hroot : loc ≠ [])
    (h : t.get? loc = some e) : (loc, e) ∈ t.entries := by
  rw [get?, entryAt, if_neg hroot] at h
  obtain ⟨a, hfind, rfl⟩ := Option.map_eq_some_iff.mp h
  have hloc : a.1 = loc := by simpa using List.find?_some hfind
  exact hloc ▸ List.mem_of_find?_eq_some hfind

theorem linkFree_of_entries (h : ∀ e ∈ t.entries, ∀ target, e.2 ≠ .link target) :
    t.LinkFree := by
  intro loc target hget
  have hroot : loc ≠ [] := by
    rintro rfl
    cases hget
  exact h _ (mem_entries_of_get? hroot hget) target rfl

theorem Gains.linkFree (h : t.GainsDirectories u) (hlinks : t.LinkFree) : u.LinkFree :=
  fun l target hl => hlinks l target (h.get?_of_not hl (by simp))

/-- **Without links and steps up the steps spell the location.** -/
theorem Reaches.location_eq (hlinks : t.LinkFree) (hup : .up ∉ steps)
    (h : t.Reaches follow links cur steps trailing goal) :
    goal.location = cur ++ steps.filterMap Step.name? := by
  induction h with
  | stop => simp [Target.location]
  | here _ ih =>
    rw [ih (List.not_mem_of_not_mem_cons hup)]
    rfl
  | up => exact absurd List.mem_cons_self hup
  | enter _ _ _ ih =>
    rw [ih (List.not_mem_of_not_mem_cons hup), List.append_assoc]
    rfl
  | missing | file => rfl
  | link _ get _ => exact absurd get (hlinks _ _)
  | pass _ get _ _ _ _ => exact absurd get (hlinks _ _)

end FileTree

end PeerOverlay
