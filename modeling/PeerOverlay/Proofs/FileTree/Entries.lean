/-
Setting and removing single entries.

* `FileTree.writeFile_eq_ok_iff`, `FileTree.removeFile_eq_ok` — writing sets the entry that a
  path leads to, and removing takes it away;
* `FileTree.get?_put`, `FileTree.get?_prune_file` — no other entry changes;
* `FileTree.Keeps.put_file`, `FileTree.Keeps.prune_file` — all directories are still found
  by the same paths, `FileTree.resolve_mono`.
-/
import PeerOverlay.Proofs.FileTree.Lookup

namespace PeerOverlay

namespace FileTree

variable {t u : FileTree} {follow directoryOnly : Bool} {r : Route} {loc l : Location}
  {e : Entry} {content old : String}

@[simp] theorem workdir_put (t : FileTree) (loc : Location) (e : Entry) :
    (t.put loc e).workdir = t.workdir := by
  rw [put]
  split <;> rfl

/-! ### Where an entry may be set -/

theorem get?_of_resolve_absent (h : t.resolve follow r = .ok (.absent loc directoryOnly)) :
    t.get? loc = none := by
  obtain ⟨-, hstart, hreaches⟩ := resolve_eq_ok_iff.mp h
  exact (hreaches.absent_inv hstart).1

theorem accepts_of_absent (h : t.resolve follow r = .ok (.absent loc directoryOnly))
    (e : Entry) : t.Accepts loc e := by
  obtain ⟨-, hstart, hreaches⟩ := resolve_eq_ok_iff.mp h
  obtain ⟨hfree, dir, name, rfl, hdir⟩ := hreaches.absent_inv hstart
  refine ⟨List.append_ne_nil_of_right_ne_nil _ (List.cons_ne_nil _ _), ?_, ?_⟩
  · rwa [List.dropLast_concat]
  · intro hdirectory
    rw [hfree] at hdirectory
    cases hdirectory

theorem ne_nil_of_file (h : t.get? loc = some (.file content)) : loc ≠ [] := by
  rintro rfl
  rw [get?_nil] at h
  cases h

theorem accepts_of_file (h : t.get? loc = some (.file old)) (e : Entry) :
    t.Accepts loc e := by
  refine ⟨ne_nil_of_file h, get?_dropLast h, fun hdirectory => ?_⟩
  rw [h] at hdirectory
  cases hdirectory

/-! ### Writing and removing a file -/

/-- Where a file may be written: over a file, or where nothing is. -/
def TakesFile (t : FileTree) (loc : Location) : Prop :=
  (∃ old, t.get? loc = some (.file old)) ∨ t.get? loc = none

instance (t : FileTree) (loc : Location) : Decidable (t.TakesFile loc) :=
  match h : t.get? loc with
  | none => isTrue (.inr h)
  | some (.file old) => isTrue (.inl ⟨old, h⟩)
  | some .directory => isFalse (by simp [TakesFile, h])
  | some (.link _) => isFalse (by simp [TakesFile, h])

/-- A path at whose end a file is written. -/
def WritesAt (t : FileTree) (r : Route) (loc : Location) : Prop :=
  (∃ old, t.resolve true r = .ok (.present loc (.file old))) ∨
    t.resolve true r = .ok (.absent loc false)

theorem WritesAt.takesFile (h : t.WritesAt r loc) : t.TakesFile loc :=
  h.imp (fun ⟨old, hold⟩ => ⟨old, get?_of_resolve hold⟩) get?_of_resolve_absent

theorem WritesAt.accepts (h : t.WritesAt r loc) (e : Entry) : t.Accepts loc e := by
  rcases h with ⟨old, hold⟩ | habsent
  · exact accepts_of_file (get?_of_resolve hold) e
  · exact accepts_of_absent habsent e

theorem TakesFile.accepts {n : Name} (h : t.TakesFile (loc ++ [n]))
    (hdir : t.get? loc = some .directory) (e : Entry) : t.Accepts (loc ++ [n]) e := by
  refine ⟨List.append_ne_nil_of_right_ne_nil _ (List.cons_ne_nil _ _), ?_, fun hdirectory => ?_⟩
  · rwa [List.dropLast_concat]
  · rcases h with ⟨old, hold⟩ | hnone
    · cases hold.symm.trans hdirectory
    · cases hnone.symm.trans hdirectory

/-- A file in a directory is written under its own name, unless a link stands there. -/
theorem writesAt_join_iff {dir : Path} {n : Name}
    (h : t.resolve true dir.route = .ok (.present loc .directory)) (hn : n.Plain)
    (hlink : ∀ target, t.get? (loc ++ [n]) ≠ some (.link target)) :
    t.WritesAt (dir.join n).route l ↔
      dir.Admits n ∧ l = loc ++ [n] ∧ t.TakesFile (loc ++ [n]) := by
  rw [WritesAt, TakesFile]
  simp only [resolve_join_eq_ok_iff h hn (.inr hlink)]
  rcases hget : t.get? (loc ++ [n]) with _ | e <;> simp [eq_comm]

/-- In a tree without links a file in a directory is written under its own name. -/
theorem Finds.writesAt_join_iff {dir : Path} {n : Name} (h : t.Finds dir loc) (hn : n.Plain) :
    t.WritesAt (dir.join n).route l ↔
      dir.Admits n ∧ l = loc ++ [n] ∧ t.TakesFile (loc ++ [n]) :=
  FileTree.writesAt_join_iff h.resolve hn (h.linkFree _)

theorem writeFile_eq_ok_iff :
    t.writeFile r content = .ok u ↔ ∃ loc, t.WritesAt r loc ∧ u = t.put loc (.file content) := by
  rw [writeFile]
  simp only [WritesAt]
  rcases t.resolve true r with _ | ⟨loc, _ | _ | _⟩ | ⟨loc, _ | _⟩ <;> simp [eq_comm]

theorem isFile_iff_exists_readFile : t.isFile r = true ↔ ∃ content, t.readFile r = .ok content := by
  rw [isFile, readFile]
  rcases t.resolve true r with _ | ⟨l, _ | _ | _⟩ | _ <;> simp

theorem Finds.readFile_join_eq_ok_iff {dir : Path} {n : Name} (h : t.Finds dir loc)
    (hn : n.Plain) :
    t.readFile (dir.join n).route = .ok content ↔
      dir.Admits n ∧ t.get? (loc ++ [n]) = some (.file content) := by
  have hresolve : t.readFile (dir.join n).route = .ok content ↔
      ∃ l, t.resolve true (dir.join n).route = .ok (.present l (.file content)) := by
    rw [readFile]
    rcases t.resolve true (dir.join n).route with _ | ⟨l, _ | _ | _⟩ | _ <;> simp
  rw [hresolve]
  simp only [h.resolve_join_eq_ok_iff hn]
  rcases hget : t.get? (loc ++ [n]) with _ | e <;> simp [eq_comm]

theorem Finds.readFile_join {dir : Path} {n : Name} (h : t.Finds dir loc) (hn : n.Plain)
    (hadmits : dir.Admits n) (hfile : t.get? (loc ++ [n]) = some (.file content)) :
    t.readFile (dir.join n).route = .ok content :=
  (h.readFile_join_eq_ok_iff hn).mpr ⟨hadmits, hfile⟩

theorem removeFile_eq_ok_iff :
    t.removeFile r = .ok u ↔
      ∃ loc e, t.resolve false r = .ok (.present loc e) ∧ e ≠ .directory ∧ u = t.prune loc := by
  rw [removeFile]
  rcases t.resolve false r with _ | ⟨loc, _ | _ | _⟩ | _ <;> simp [eq_comm]

theorem removeFile_eq_ok (h : t.resolve false r = .ok (.present loc (.file content))) :
    t.removeFile r = .ok (t.prune loc) :=
  removeFile_eq_ok_iff.mpr ⟨loc, _, h, by simp, rfl⟩

/-- Nothing stands below what is no directory, so it alone goes. -/
theorem get?_prune_of_ne_directory (h : t.get? loc = some e) (he : e ≠ .directory)
    (l : Location) : (t.prune loc).get? l = if l = loc then none else t.get? l := by
  by_cases hroot : l = []
  · subst hroot
    have hne : loc ≠ [] := by
      rintro rfl
      rw [get?_nil] at h
      exact he (Option.some.inj h).symm
    rw [get?_nil, get?_nil, if_neg hne.symm]
  · rw [get?_prune hroot]
    by_cases hl : l = loc
    · subst hl
      simp
    · rw [if_neg hl]
      split
      next hprefix =>
        refine (Option.eq_none_iff_forall_not_mem.mpr fun e' he' => ?_).symm
        rw [get?_above (get?_dropLast he') (List.isPrefixOf_iff_prefix.mp hprefix) (Ne.symm hl)]
          at h
        exact he (Option.some.inj h).symm
      next => rfl

theorem get?_prune_file (h : t.get? loc = some (.file content)) (l : Location) :
    (t.prune loc).get? l = if l = loc then none else t.get? l :=
  get?_prune_of_ne_directory h (by simp) l

theorem gains_prune (t : FileTree) (loc : Location) : (t.prune loc).Gains t fun _ => True := by
  refine ⟨rfl, fun l => ?_⟩
  by_cases hroot : l = []
  · subst hroot
    exact .inl (by rw [get?_nil, get?_nil])
  · rw [get?_prune hroot]
    split
    · rcases hl : t.get? l with _ | e
      · exact .inl rfl
      · exact .inr ⟨rfl, e, rfl, trivial⟩
    · exact .inl rfl

/-! ### What stays the same -/

theorem resolve_mono (hkeeps : t.Keeps u)
    (h : t.resolve true r = .ok (.present loc .directory)) :
    u.resolve true r = .ok (.present loc .directory) := by
  obtain ⟨hpath, hstart, hreaches⟩ := resolve_eq_ok_iff.mp h
  refine resolve_eq_ok_iff.mpr ⟨hpath, ?_, ?_⟩
  · rw [hkeeps.workdir]
    exact hkeeps.directory hstart
  · rw [hkeeps.workdir]
    exact hreaches.mono_directory hkeeps

theorem resolve_mono_file (hkeeps : t.Keeps u) {content' : String}
    (hfile : u.get? loc = some (.file content'))
    (h : t.resolve true r = .ok (.present loc (.file content))) :
    u.resolve true r = .ok (.present loc (.file content')) := by
  obtain ⟨hpath, hstart, hreaches⟩ := resolve_eq_ok_iff.mp h
  refine resolve_eq_ok_iff.mpr ⟨hpath, ?_, ?_⟩
  · rw [hkeeps.workdir]
    exact hkeeps.directory hstart
  · rw [hkeeps.workdir]
    exact hreaches.mono_file hkeeps hfile

/-- What a path leads to is led to again where there is more. -/
theorem Gains.resolve {kind : Entry → Prop} (hgains : t.Gains u kind)
    (h : t.resolve follow r = .ok (.present loc e)) :
    u.resolve follow r = .ok (.present loc e) := by
  obtain ⟨hpath, hstart, hreaches⟩ := resolve_eq_ok_iff.mp h
  rw [← hgains.workdir] at hstart hreaches
  exact resolve_eq_ok_iff.mpr ⟨hpath, hgains.get?_of_some hstart, hreaches.mono hgains⟩

/-- In a tree that gained files, a path leads where it led, or to what is new. -/
theorem resolve_of_gainsFiles (hgains : t.GainsFiles u)
    (h : u.resolve follow r = .ok (.present loc e)) :
    t.resolve follow r = .ok (.present loc e) ∨ t.get? loc = none := by
  obtain ⟨hpath, hstart, hreaches⟩ := resolve_eq_ok_iff.mp h
  rw [hgains.workdir] at hstart hreaches
  have hstart' := hgains.get?_of_not hstart (by simp)
  exact (hreaches.of_gainsFiles hgains).imp_left fun hsame =>
    resolve_eq_ok_iff.mpr ⟨hpath, hstart', hsame⟩

theorem Gains.put {kind : Entry → Prop} (h : t.Gains u kind) (hfree : t.get? loc = none)
    (haccepts : u.Accepts loc e) (hkind : kind e) : t.Gains (u.put loc e) kind := by
  refine ⟨(workdir_put u loc _).trans h.workdir, fun l => ?_⟩
  rw [get?_put haccepts]
  split
  next hl => exact .inr ⟨hl ▸ hfree, e, rfl, hkind⟩
  next => exact h.get? l

theorem Keeps.put_file (htakes : t.TakesFile loc) (haccepts : t.Accepts loc (.file content)) :
    t.Keeps (t.put loc (.file content)) := by
  have hother : ∀ {l e}, t.get? l = some e → (∀ old, e ≠ .file old) →
      (t.put loc (.file content)).get? l = some e := by
    intro l e hl he
    rw [get?_put haccepts, if_neg, hl]
    rintro rfl
    rcases htakes with ⟨old, hold⟩ | hnone
    · exact he old (Option.some.inj (hl.symm.trans hold))
    · rw [hl] at hnone
      cases hnone
  exact ⟨workdir_put t loc _, fun hl => hother hl (by simp), fun hl => hother hl (by simp)⟩

theorem Keeps.prune_file (h : t.get? loc = some (.file content)) : t.Keeps (t.prune loc) := by
  have hother : ∀ {l e}, t.get? l = some e → e ≠ .file content →
      (t.prune loc).get? l = some e := by
    intro l e hl he
    rw [get?_prune_file h, if_neg, hl]
    rintro rfl
    exact he (Option.some.inj (hl.symm.trans h))
  exact ⟨rfl, fun hl => hother hl (by simp), fun hl => hother hl (by simp)⟩

theorem LinkFree.put_file (hlinks : t.LinkFree) (haccepts : t.Accepts loc (.file content)) :
    (t.put loc (.file content)).LinkFree := by
  intro l target hl
  rw [get?_put haccepts] at hl
  split at hl
  · cases hl
  · exact hlinks l target hl

theorem LinkFree.prune_file (hlinks : t.LinkFree) (h : t.get? loc = some (.file content)) :
    (t.prune loc).LinkFree := by
  intro l target hl
  rw [get?_prune_file h] at hl
  split at hl
  · cases hl
  · exact hlinks l target hl

theorem Finds.put_file {dir : Path} (h : t.Finds dir loc) (htakes : t.TakesFile l)
    (haccepts : t.Accepts l (.file content)) : (t.put l (.file content)).Finds dir loc :=
  ⟨h.linkFree.put_file haccepts, resolve_mono (.put_file htakes haccepts) h.resolve⟩

theorem Finds.prune_file {dir : Path} (h : t.Finds dir loc)
    (hfile : t.get? l = some (.file content)) : (t.prune l).Finds dir loc :=
  ⟨h.linkFree.prune_file hfile, resolve_mono (.prune_file hfile) h.resolve⟩

end FileTree

end PeerOverlay
