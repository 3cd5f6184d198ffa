/-
Moving a file.

* `FileTree.moveFile_eq_ok_iff` — a move takes the file that the first path leads to, to where
  the second path leads;
* `FileTree.Finds.moveFile_join_eq_ok_iff` — when a file is moved to another directory;
* `FileTree.Moves` — the file is at its new place, in place of one that was there, and gone
  from its old one, and all else is as it was.
-/
import PeerOverlay.Proofs.FileTree.Entries

namespace PeerOverlay

namespace FileTree

variable {t u : FileTree} {source target : Route} {dir newDir : Path} {loc new l : Location}
  {n : Name} {e : Entry} {content : String}

/-- The second tree is the first with a file at a new place. -/
structure Moves (t u : FileTree) (loc new : Location) (content : String) : Prop where
  workdir : u.workdir = t.workdir
  source : t.get? loc = some (.file content)
  takes : t.TakesFile new
  get?_eq : ∀ l, u.get? l =
    if l = new then some (.file content) else if l = loc then none else t.get? l

theorem Accepts.prune_file (haccepts : t.Accepts new e)
    (hfile : t.get? loc = some (.file content)) : (t.prune loc).Accepts new e := by
  obtain ⟨hroot, hparent, hdirectory⟩ := haccepts
  refine ⟨hroot, ?_, fun hnew => hdirectory ?_⟩
  · rw [get?_prune_file hfile, if_neg, hparent]
    rintro rfl
    cases hparent.symm.trans hfile
  · rw [get?_prune_file hfile] at hnew
    split at hnew
    · cases hnew
    · exact hnew

theorem Moves.of_put (hfile : t.get? loc = some (.file content)) (htakes : t.TakesFile new)
    (haccepts : t.Accepts new (.file content)) :
    t.Moves ((t.prune loc).put new (.file content)) loc new content := by
  refine ⟨workdir_put _ new _, hfile, htakes, fun l => ?_⟩
  rw [get?_put (haccepts.prune_file hfile), get?_prune_file hfile]

/-- Where a path leads to a file that may be replaced, or to nothing. -/
def Receives (t : FileTree) (r : Route) (loc : Location) : Prop :=
  (∃ old, t.resolve false r = .ok (.present loc (.file old))) ∨
    t.resolve false r = .ok (.absent loc false)

theorem moveFile_eq_ok_iff (hlinks : t.LinkFree) :
    t.moveFile source target = .ok u ↔
      ∃ loc new content, t.resolve false source = .ok (.present loc (.file content)) ∧
        t.Receives target new ∧ u = (t.prune loc).put new (.file content) := by
  have hlink : ∀ {r : Route} {loc link}, t.resolve false r ≠ .ok (.present loc (.link link)) :=
    fun h => hlinks _ _ (get?_of_resolve h)
  rw [moveFile]
  simp only [Receives]
  rcases hsource : t.resolve false source with _ | ⟨loc, _ | content | link⟩ | _
  case ok.present.link => exact absurd hsource hlink
  case ok.present.file =>
    rcases htarget : t.resolve false target with _ | ⟨new, _ | old | link⟩ | ⟨new, _ | _⟩
    case ok.present.link => exact absurd htarget hlink
    all_goals simp [eq_comm]
  all_goals simp

theorem Finds.receives_join_iff (h : t.Finds dir loc) (hn : n.Plain) :
    t.Receives (dir.join n).route l ↔
      dir.Admits n ∧ l = loc ++ [n] ∧ t.TakesFile (loc ++ [n]) := by
  rw [Receives, TakesFile]
  simp only [h.resolve_join_eq_ok_iff hn]
  rcases hget : t.get? (loc ++ [n]) with _ | e <;> simp [eq_comm]

/-- **A file is moved from one directory to another under its name,** unless a path gets too
long or something else than a file is in its way. -/
theorem Finds.moveFile_join_eq_ok_iff (h : t.Finds dir loc) (hnew : t.Finds newDir new)
    (hn : n.Plain) :
    t.moveFile (dir.join n).route (newDir.join n).route = .ok u ↔
      dir.Admits n ∧ newDir.Admits n ∧ t.TakesFile (new ++ [n]) ∧
        ∃ content, t.get? (loc ++ [n]) = some (.file content) ∧
          u = (t.prune (loc ++ [n])).put (new ++ [n]) (.file content) := by
  rw [moveFile_eq_ok_iff h.linkFree]
  simp only [h.resolve_join_eq_ok_iff hn, hnew.receives_join_iff hn]
  constructor
  · rintro ⟨l, l', content, ⟨hadmits, hsource⟩, ⟨hadmits', rfl, htakes⟩, rfl⟩
    rcases hget : t.get? (loc ++ [n]) with _ | e
    · rw [hget] at hsource
      cases hsource
    · rw [hget] at hsource
      obtain ⟨rfl, rfl⟩ := Target.present.inj hsource
      exact ⟨hadmits, hadmits', htakes, content, rfl, rfl⟩
  · rintro ⟨hadmits, hadmits', htakes, content, hfile, rfl⟩
    refine ⟨_, _, content, ⟨hadmits, ?_⟩, ⟨hadmits', rfl, htakes⟩, rfl⟩
    rw [hfile]
    rfl

end FileTree

end PeerOverlay
