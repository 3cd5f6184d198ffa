/-
What a tree loses, and trees in which nothing but files changes.

* `FileTree.Loses` — the second tree is the first without what some paths lead to;
* `FileTree.ChangesFiles` — files are made, written over and removed, and nothing else changes;
* `FileTree.FindsUnlinked.of_changesFiles` — a directory without links stays where it is then;
* `FileTree.FindsUnlinked.leads_join_iff`, `FileTree.FindsUnlinked.changesFiles_of_loses` — the
  names in such a directory lead to its own files, so that nothing but files is lost by them.
-/
import PeerOverlay.Proofs.FileTree.Entries

namespace PeerOverlay

namespace FileTree

variable {t u : FileTree} {dir p : Path} {paths : List Path} {loc l l' : Location} {n : Name}
  {e : Entry}

/-! ### What a tree loses -/

/-- A path leads to a file or to a link, which is not followed. -/
def Leads (t : FileTree) (p : Path) (l : Location) : Prop :=
  ∃ e, t.resolve false p.route = .ok (.present l e) ∧ e ≠ .directory

theorem Leads.unique (h : t.Leads p l) (h' : t.Leads p l') : l = l' := by
  obtain ⟨e, hresolve, -⟩ := h
  obtain ⟨e', hresolve', -⟩ := h'
  exact (Target.present.inj (Except.ok.inj (hresolve.symm.trans hresolve'))).1

/-- The second tree is the first without what some paths lead to. -/
structure Loses (t u : FileTree) (paths : List Path) : Prop where
  workdir : u.workdir = t.workdir
  leads : ∀ p ∈ paths, ∃ l, t.Leads p l
  gone : ∀ {p l}, p ∈ paths → t.Leads p l → u.get? l = none
  stays : ∀ {l}, (∀ p ∈ paths, ¬t.Leads p l) → u.get? l = t.get? l

theorem Loses.refl (t : FileTree) : t.Loses t [] :=
  ⟨rfl, List.forall_mem_nil _, fun hp => absurd hp List.not_mem_nil, fun _ => rfl⟩

theorem Loses.get?_of_none (h : t.Loses u paths) (hl : t.get? l = none) : u.get? l = none := by
  by_cases hgone : ∃ p ∈ paths, t.Leads p l
  · obtain ⟨p, hp, hleads⟩ := hgone
    exact h.gone hp hleads
  · rw [h.stays fun p hp hleads => hgone ⟨p, hp, hleads⟩, hl]

theorem leads_of_removeFile (h : t.removeFile p.route = .ok u) :
    ∃ l, t.Leads p l ∧ u = t.prune l ∧
      ∀ l', u.get? l' = if l' = l then none else t.get? l' := by
  obtain ⟨l, e, hresolve, he, rfl⟩ := removeFile_eq_ok_iff.mp h
  exact ⟨l, ⟨e, hresolve, he⟩, rfl, get?_prune_of_ne_directory (get?_of_resolve hresolve) he⟩

/-- Where one thing is gone, a path leads only where it led before. -/
theorem Leads.of_prune (h : (t.prune l').Leads p l) : t.Leads p l := by
  obtain ⟨e, hresolve, he⟩ := h
  exact ⟨e, (gains_prune t l').resolve hresolve, he⟩

/-- What is lost in two goes is lost. -/
theorem Loses.cons (hleads : t.Leads p l) (hget : ∀ l', (t.prune l).get? l' =
    if l' = l then none else t.get? l') (h : (t.prune l).Loses u paths) :
    t.Loses u (p :: paths) := by
  refine ⟨h.workdir, ?_, ?_, ?_⟩
  · intro p' hp'
    rcases List.mem_cons.mp hp' with rfl | hp'
    · exact ⟨l, hleads⟩
    · exact (h.leads p' hp').imp fun _ => .of_prune
  · intro p' l' hp' hleads'
    rcases List.mem_cons.mp hp' with rfl | hp'
    · obtain rfl := hleads.unique hleads'
      exact h.get?_of_none (by rw [hget, if_pos rfl])
    · -- What the other paths lead to now they led to before the first was removed.
      obtain ⟨l₁, hleads₁⟩ := h.leads p' hp'
      obtain rfl := hleads₁.of_prune.unique hleads'
      exact h.gone hp' hleads₁
  · intro l' hno
    have hne : l' ≠ l := by
      rintro rfl
      exact hno p List.mem_cons_self hleads
    rw [h.stays fun p' hp' hleads' => hno p' (List.mem_cons_of_mem p hp') hleads'.of_prune, hget,
      if_neg hne]

/-! ### Files that change -/

/-- Nothing but files changes: they are made, written over and removed. -/
structure ChangesFiles (t u : FileTree) : Prop where
  workdir : u.workdir = t.workdir
  get? : ∀ l, u.get? l = t.get? l ∨ t.TakesFile l ∧ u.TakesFile l

theorem not_takesFile (h : t.get? l = some e) (he : ∀ content, e ≠ .file content) :
    ¬t.TakesFile l := by
  rintro (⟨content, hfile⟩ | hnone)
  · exact he content (Option.some.inj (h.symm.trans hfile))
  · cases h.symm.trans hnone

namespace ChangesFiles

theorem refl (t : FileTree) : t.ChangesFiles t :=
  ⟨rfl, fun _ => .inl rfl⟩

theorem get?_of_not (h : t.ChangesFiles u) (hl : ¬t.TakesFile l) : u.get? l = t.get? l :=
  (h.get? l).resolve_right fun hfiles => hl hfiles.1

theorem get?_eq_of_not (h : t.ChangesFiles u) (hl : ¬u.TakesFile l) : u.get? l = t.get? l :=
  (h.get? l).resolve_right fun hfiles => hl hfiles.2

theorem keeps (h : t.ChangesFiles u) : t.Keeps u :=
  ⟨h.workdir, fun hl => (h.get?_of_not (not_takesFile hl (by simp))).trans hl,
    fun hl => (h.get?_of_not (not_takesFile hl (by simp))).trans hl⟩

theorem put {content : String} (htakes : t.TakesFile l) (haccepts : t.Accepts l (.file content)) :
    t.ChangesFiles (t.put l (.file content)) := by
  refine ⟨workdir_put t l _, fun l' => ?_⟩
  have hget : (t.put l (.file content)).get? l' = _ := get?_put haccepts
  split at hget
  next hl => exact .inr ⟨hl ▸ htakes, .inl ⟨_, hget⟩⟩
  next => exact .inl hget

theorem prune {content : String} (h : t.get? l = some (.file content)) :
    t.ChangesFiles (t.prune l) := by
  refine ⟨rfl, fun l' => ?_⟩
  have hget := get?_prune_file h l'
  split at hget
  next hl => exact .inr ⟨hl ▸ .inl ⟨content, h⟩, .inr hget⟩
  next => exact .inl hget

end ChangesFiles

/-- A path leads to a directory that holds no links. -/
structure FindsUnlinked (t : FileTree) (dir : Path) (loc : Location) : Prop where
  resolve : t.resolve true dir.route = .ok (.present loc .directory)
  noLink : ∀ n target, t.get? (loc ++ [n]) ≠ some (.link target)

theorem Finds.unlinked (h : t.Finds dir loc) : t.FindsUnlinked dir loc :=
  ⟨h.resolve, fun _ => h.linkFree _⟩

namespace FindsUnlinked

theorem of_changesFiles (h : t.FindsUnlinked dir loc) (hchanges : t.ChangesFiles u) :
    u.FindsUnlinked dir loc := by
  refine ⟨resolve_mono hchanges.keeps h.resolve, fun n target hlink => ?_⟩
  have hsame := hchanges.get?_eq_of_not (not_takesFile hlink (by simp))
  exact h.noLink n target (hsame.symm.trans hlink)

/-- A name in the directory leads to the file of this name. -/
theorem leads_join_iff (h : t.FindsUnlinked dir loc) (hn : n.Plain) :
    t.Leads (dir.join n) l ↔
      dir.Admits n ∧ l = loc ++ [n] ∧ ∃ content, t.get? (loc ++ [n]) = some (.file content) := by
  rw [Leads]
  simp only [resolve_join_eq_ok_iff h.resolve hn (.inl rfl)]
  rcases hget : t.get? (loc ++ [n]) with _ | ⟨_ | content | target⟩
  · simp
  · simp
  · simp [eq_comm]
  · exact absurd hget (h.noLink n target)

theorem changesFiles_of_loses {paths : List Path} (h : t.FindsUnlinked dir loc)
    (hpaths : ∀ p ∈ paths, ∃ n, Name.Plain n ∧ p = dir.join n) (hloses : t.Loses u paths) :
    t.ChangesFiles u := by
  refine ⟨hloses.workdir, fun l => ?_⟩
  by_cases hgone : ∃ p ∈ paths, t.Leads p l
  · obtain ⟨p, hp, hleads⟩ := hgone
    have hnone := hloses.gone hp hleads
    obtain ⟨n, hn, rfl⟩ := hpaths p hp
    obtain ⟨-, rfl, hfile⟩ := (h.leads_join_iff hn).mp hleads
    exact .inr ⟨.inl hfile, .inr hnone⟩
  · exact .inl (hloses.stays fun p hp hleads => hgone ⟨p, hp, hleads⟩)

end FindsUnlinked

end FileTree

end PeerOverlay
