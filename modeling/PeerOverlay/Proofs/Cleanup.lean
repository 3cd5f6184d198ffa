/-
What cleaning a node directory removes, and what it leaves.

A target is removed, is missing, or cannot be told: `FileTree.removeTree_cases`.  Each of the
three adds to what the rest of the run does, so the whole run follows by induction on the
targets.

Main statements:
* `CleanupReport.Covers`, `Cleans` — what a run reports, and what it does;
* `removeTargets_cleans` — a run over any list of targets;
* `removeTargets_of_isMissing` — a run that finds nothing;
* `cleanNodeState_cleans` — cleaning, and cleaning again.
-/
import PeerOverlay.Cleanup
import PeerOverlay.Proofs.FileTree.NameText
import PeerOverlay.Proofs.FileTree.Removing

namespace PeerOverlay

open FileTree

variable {t u v : FileTree} {dir p : Path} {loc l : Location} {e : Entry} {x : IoError}
  {report : CleanupReport} {paths : List Path} {targets : List String}

/-! ### Reports -/

/-- A report names each of these paths once, under one heading and in this order. -/
structure CleanupReport.Covers (report : CleanupReport) (paths : List Path) : Prop where
  nodup : paths.Nodup
  removed : report.removed.Sublist paths
  missing : report.missing.Sublist paths
  failed : (report.failed.map Prod.fst).Sublist paths
  perm : (report.removed ++ report.missing ++ report.failed.map Prod.fst).Perm paths

namespace CleanupReport.Covers

theorem nil : Covers {} [] :=
  ⟨.nil, .slnil, .slnil, .slnil, .nil⟩

theorem cons_removed (h : report.Covers paths) (hp : p ∉ paths) :
    Covers { report with removed := p :: report.removed } (p :: paths) :=
  ⟨h.nodup.cons hp, h.removed.cons_cons p, h.missing.cons p, h.failed.cons p, h.perm.cons p⟩

theorem cons_missing (h : report.Covers paths) (hp : p ∉ paths) :
    Covers { report with missing := p :: report.missing } (p :: paths) := by
  refine ⟨h.nodup.cons hp, h.removed.cons p, h.missing.cons_cons p, h.failed.cons p, ?_⟩
  rw [List.append_assoc, List.cons_append]
  refine List.perm_middle.trans (List.Perm.cons p ?_)
  rw [← List.append_assoc]
  exact h.perm

theorem cons_failed (h : report.Covers paths) (hp : p ∉ paths) (x : IoError) :
    Covers { report with failed := (p, x) :: report.failed } (p :: paths) :=
  ⟨h.nodup.cons hp, h.removed.cons p, h.missing.cons p, h.failed.cons_cons p,
    List.perm_middle.trans (h.perm.cons p)⟩

theorem mem_of_isClean (h : report.Covers paths) (hclean : report.isClean = true)
    (hp : p ∈ paths) : p ∈ report.removed ++ report.missing := by
  have hnone : report.failed = [] := List.isEmpty_iff.mp hclean
  simpa [hnone] using h.perm.mem_iff.mpr hp

end CleanupReport.Covers

/-! ### Locations of targets -/

/-- Something stands where a path leads; if it is a link it is not followed. -/
def FileTree.Locates (t : FileTree) (p : Path) (l : Location) : Prop :=
  ∃ e, t.resolve false p.route = .ok (.present l e)

theorem FileTree.Locates.unique {l' : Location} (h : t.Locates p l) (h' : t.Locates p l') :
    l = l' := by
  obtain ⟨e, hresolve⟩ := h
  obtain ⟨e', hresolve'⟩ := h'
  exact (Target.present.inj (Except.ok.inj (hresolve.symm.trans hresolve'))).1

/-- What stands somewhere after a loss stood there before. -/
theorem FileTree.Locates.of_gains {kind : Entry → Prop} (hgains : u.Gains t kind)
    (h : u.Locates p l) : t.Locates p l :=
  h.imp fun _ => hgains.resolve

/-! ### One target after the other -/

/-- What is removed is gone with all that was below it, what is missing is not there, and what
has failed cannot be told from the start.  All else stays. -/
structure Cleans (t u : FileTree) (report : CleanupReport) : Prop where
  gains : u.Gains t fun _ => True
  located : ∀ p ∈ report.removed, ∃ loc, t.Locates p loc
  stays : ∀ l, (∀ p ∈ report.removed, ∀ loc, t.Locates p loc → ¬loc <+: l) →
    u.get? l = t.get? l
  below : ∀ p ∈ report.removed, ∀ loc, t.Locates p loc →
    ∀ l, loc <+: l → l ≠ loc → u.get? l = none
  missing : ∀ p ∈ report.removed ++ report.missing, IsMissing (u.resolve false p.route)
  failed : ∀ f ∈ report.failed, t.resolve false f.1.route = .error f.2 ∧ f.2 ≠ .notFound

namespace Cleans

theorem nil (t : FileTree) : Cleans t t {} :=
  ⟨.refl t _, by simp, fun _ _ => rfl, by simp, by simp, by simp⟩

theorem cons_missing (h : Cleans t u report) (hmissing : IsMissing (t.resolve false p.route)) :
    Cleans t u { report with missing := p :: report.missing } := by
  refine ⟨h.gains, h.located, h.stays, h.below, fun p' hp' => ?_, h.failed⟩
  rcases List.mem_append.mp hp' with hp' | hp'
  · exact h.missing p' (List.mem_append_left _ hp')
  · rcases List.mem_cons.mp hp' with rfl | hp'
    · exact hmissing.of_gains h.gains
    · exact h.missing p' (List.mem_append_right _ hp')

theorem cons_failed (h : Cleans t u report) (herror : t.resolve false p.route = .error x)
    (hx : x ≠ .notFound) : Cleans t u { report with failed := (p, x) :: report.failed } :=
  ⟨h.gains, h.located, h.stays, h.below, h.missing,
    List.forall_mem_cons.mpr ⟨⟨herror, hx⟩, h.failed⟩⟩

/-- What the rest of the run finds after the loss was in the same place before it. -/
theorem cons_removed (hlocates : t.Locates p loc) (hsheds : t.Sheds v loc)
    (hgone : IsMissing (v.resolve false p.route)) (h : Cleans v u report) :
    Cleans t u { report with removed := p :: report.removed } where
  gains := h.gains.trans hsheds.gains
  located := List.forall_mem_cons.mpr
    ⟨⟨loc, hlocates⟩, fun p' hp' => (h.located p' hp').imp fun _ => .of_gains hsheds.gains⟩
  stays l hno := by
    rw [h.stays l fun p' hp' loc' hloc' =>
      hno p' (List.mem_cons_of_mem p hp') loc' (hloc'.of_gains hsheds.gains)]
    exact hsheds.stays l (hno p List.mem_cons_self loc hlocates)
  below p' hp' loc' hloc' l hsub hne := by
    rcases List.mem_cons.mp hp' with rfl | hp'
    · obtain rfl := hlocates.unique hloc'
      exact h.gains.get?_of_none (hsheds.below l hsub hne)
    · obtain ⟨loc₁, hloc₁⟩ := h.located p' hp'
      obtain rfl := (hloc₁.of_gains hsheds.gains).unique hloc'
      exact h.below p' hp' loc₁ hloc₁ l hsub hne
  missing := List.forall_mem_cons.mpr ⟨hgone.of_gains h.gains, h.missing⟩
  failed f hf := by
    obtain ⟨herror, hx⟩ := h.failed f hf
    rcases resolve_of_gains hsheds.gains false f.1.route with hsame | hmissing
    · exact ⟨hsame.symm.trans herror, hx⟩
    · rw [herror, isMissing_iff] at hmissing
      simp [hx] at hmissing

end Cleans

/-! ### A run -/

/-- The paths of these targets in a directory. -/
def pathsOf (dir : Path) (targets : List String) : List Path :=
  targets.map fun target => dir.join (.ofText target)

theorem nodup_pathsOf (dir : Path) (h : targets.Nodup) : (pathsOf dir targets).Nodup := by
  refine h.map fun s s' hsame => ?_
  exact Text.Utf8.encode_injective (Name.mk.inj (Path.join_injective dir hsame))

/-- **A run puts each target under one heading, and does to the tree what it says.** -/
theorem removeTargets_cleans (dir : Path) (hnodup : targets.Nodup)
    (hplain : ∀ target ∈ targets, (Name.ofText target).Plain) (t : FileTree) :
    ∃ report u, removeTargets dir targets t = (report, u) ∧
      report.Covers (pathsOf dir targets) ∧ Cleans t u report := by
  induction targets generalizing t with
  | nil => exact ⟨_, _, rfl, .nil, .nil t⟩
  | cons target rest ih =>
    obtain ⟨hn, hrest⟩ := List.forall_mem_cons.mp hplain
    obtain ⟨hnot, -⟩ := List.nodup_cons.mp (nodup_pathsOf dir hnodup)
    rcases removeTree_cases (endsIn_join dir hn) t with
      ⟨loc, e, v, hresolve, hremove, hsheds, hgone⟩ | ⟨hmissing, hremove⟩ | ⟨x, herror, hx, hremove⟩
    · obtain ⟨report, u, hrun, hcovers, hcleans⟩ := ih hnodup.of_cons hrest v
      refine ⟨_, u, ?_, hcovers.cons_removed hnot, .cons_removed ⟨e, hresolve⟩ hsheds hgone hcleans⟩
      simp only [removeTargets, hremove, hrun]
    · obtain ⟨report, u, hrun, hcovers, hcleans⟩ := ih hnodup.of_cons hrest t
      refine ⟨_, u, ?_, hcovers.cons_missing hnot, hcleans.cons_missing hmissing⟩
      simp only [removeTargets, hremove, hrun]
    · obtain ⟨report, u, hrun, hcovers, hcleans⟩ := ih hnodup.of_cons hrest t
      refine ⟨_, u, ?_, hcovers.cons_failed hnot x, hcleans.cons_failed herror hx⟩
      simp only [removeTargets, hremove, hrun]

/-- A run that finds nothing changes nothing. -/
theorem removeTargets_of_isMissing
    (h : ∀ p ∈ pathsOf dir targets, IsMissing (t.resolve false p.route)) :
    removeTargets dir targets t = ({ missing := pathsOf dir targets }, t) := by
  induction targets with
  | nil => rfl
  | cons target rest ih =>
    obtain ⟨hmissing, hrest⟩ := List.forall_mem_cons.mp h
    simp only [removeTargets, removeTree_of_isMissing hmissing, ih hrest]
    rfl

/-! ### Targets of a directory -/

theorem FileTree.Locates.eq_of_join {n : Name} (hn : n.Plain)
    (hdir : t.resolve true dir.route = .ok (.present loc .directory))
    (h : t.Locates (dir.join n) l) : l = loc ++ [n] := by
  obtain ⟨e, hresolve⟩ := h
  obtain ⟨-, hgoal⟩ := (resolve_join_eq_ok_iff hdir hn (.inl rfl)).mp hresolve
  rcases hget : t.get? (loc ++ [n]) with _ | e' <;> rw [hget] at hgoal <;> cases hgoal
  rfl

theorem get?_of_isMissing_join {n : Name} (hn : n.Plain) (hadmits : dir.Admits n)
    (hdir : t.resolve true dir.route = .ok (.present loc .directory))
    (h : IsMissing (t.resolve false (dir.join n).route)) : t.get? (loc ++ [n]) = none := by
  rw [(resolve_join_eq_ok_iff hdir hn (.inl rfl)).mpr ⟨hadmits, rfl⟩] at h
  rcases hget : t.get? (loc ++ [n]) with _ | e
  · rfl
  · rw [hget] at h
    exact absurd h id

/-- **In a directory that keeps its place,** exactly those targets are removed that something
stands at, and nothing stands at any of them afterwards. -/
theorem Cleans.get?_join {target : String} (h : Cleans t u report)
    (hcovers : report.Covers (pathsOf dir targets))
    (hplain : ∀ target ∈ targets, (Name.ofText target).Plain)
    (hdir : t.resolve true dir.route = .ok (.present loc .directory))
    (hstays : u.resolve true dir.route = t.resolve true dir.route)
    (htarget : target ∈ targets) (hadmits : dir.Admits (.ofText target)) :
    u.get? (loc ++ [.ofText target]) = none ∧
      (dir.join (.ofText target) ∈ report.removed ↔ t.get? (loc ++ [.ofText target]) ≠ none) := by
  have hn := hplain target htarget
  have hresolve := (resolve_join_eq_ok_iff hdir hn (.inl rfl)).mpr ⟨hadmits, rfl⟩
  have hmissing : dir.join (.ofText target) ∈ report.removed ++ report.missing := by
    have hmem := hcovers.perm.mem_iff.mpr (List.mem_map.mpr ⟨target, htarget, rfl⟩)
    refine (List.mem_append.mp hmem).resolve_right fun hfailed => ?_
    obtain ⟨f, hf, hpath⟩ := List.mem_map.mp hfailed
    have herror := (h.failed f hf).1
    rw [hpath, hresolve] at herror
    cases herror
  have hgone := get?_of_isMissing_join hn hadmits (hstays.trans hdir) (h.missing _ hmissing)
  refine ⟨hgone, fun hremoved => ?_, fun hthere => ?_⟩
  · obtain ⟨l, e, hlocates⟩ := h.located _ hremoved
    obtain rfl := Locates.eq_of_join hn hdir ⟨e, hlocates⟩
    rw [get?_of_resolve hlocates]
    exact Option.some_ne_none e
  · -- What is not removed stays, and is not missing then.
    by_contra hnot
    refine hthere ((h.stays _ fun p hp l hl hsub => hnot ?_).symm.trans hgone)
    obtain ⟨target', htarget', rfl⟩ := List.mem_map.mp (hcovers.removed.subset hp)
    obtain rfl := hl.eq_of_join (hplain target' htarget') hdir
    have hname := List.append_cancel_left (hsub.eq_of_length (by simp))
    rwa [← List.singleton_inj.mp hname]

/-- Nothing fails in a directory whose path leaves room for the names of the targets. -/
theorem Cleans.isClean_of_admits (h : Cleans t u report)
    (hcovers : report.Covers (pathsOf dir targets))
    (hplain : ∀ target ∈ targets, (Name.ofText target).Plain)
    (hdir : t.resolve true dir.route = .ok (.present loc .directory))
    (hadmits : ∀ target ∈ targets, dir.Admits (.ofText target)) : report.isClean = true := by
  refine List.isEmpty_iff.mpr (List.eq_nil_iff_forall_not_mem.mpr fun f hf => ?_)
  obtain ⟨target, htarget, hpath⟩ :=
    List.mem_map.mp (hcovers.failed.subset (List.mem_map_of_mem hf))
  have herror := (h.failed f hf).1
  rw [← hpath, (resolve_join_eq_ok_iff hdir (hplain target htarget) (.inl rfl)).mpr
    ⟨hadmits target htarget, rfl⟩] at herror
  cases herror

/-! ### Cleaning -/

theorem nodup_cleanupTargets : cleanupTargets.Nodup := by
  decide

theorem plain_of_mem_cleanupTargets :
    ∀ target ∈ cleanupTargets, (Name.ofText target).Plain := by
  decide

/-- **Cleaning puts each target under one heading.  What it removed is gone and what it reports
as missing is not there; what is not at or below a removed target stays.  Cleaning again after a
clean report finds nothing, and changes nothing.** -/
theorem cleanNodeState_cleans (dir : Path) (t : FileTree) :
    ∃ report u, cleanNodeState dir t = (report, u) ∧
      report.Covers (pathsOf dir cleanupTargets) ∧ Cleans t u report ∧
      (∀ loc, t.resolve true dir.route = .ok (.present loc .directory) →
        ∀ target ∈ cleanupTargets,
          (∀ l, t.Locates (dir.join (.ofText target)) l → l = loc ++ [.ofText target]) ∧
          (u.resolve true dir.route = t.resolve true dir.route → dir.Admits (.ofText target) →
            u.get? (loc ++ [.ofText target]) = none ∧
              (dir.join (.ofText target) ∈ report.removed ↔
                t.get? (loc ++ [.ofText target]) ≠ none))) ∧
      (report.isClean = true →
        cleanNodeState dir u = ({ missing := pathsOf dir cleanupTargets }, u)) := by
  obtain ⟨report, u, hrun, hcovers, hcleans⟩ :=
    removeTargets_cleans dir nodup_cleanupTargets plain_of_mem_cleanupTargets t
  refine ⟨report, u, hrun, hcovers, hcleans, fun loc hdir target htarget => ⟨fun l hl => ?_,
    fun hstays hadmits => ?_⟩, fun hclean => ?_⟩
  · exact hl.eq_of_join (plain_of_mem_cleanupTargets target htarget) hdir
  · exact hcleans.get?_join hcovers plain_of_mem_cleanupTargets hdir hstays htarget hadmits
  · exact removeTargets_of_isMissing fun p hp =>
      hcleans.missing p (hcovers.mem_of_isClean hclean hp)

/-- A node directory with one target that is a link and one that holds a link, both to the
outside. -/
def linkedState : FileTree :=
  FileTree.empty.put [.ofText "data"] .directory
    |>.put [.ofText "data", .ofText "ledger"] (.file "kept")
    |>.put [.ofText "node"] .directory
    |>.put [.ofText "node", .ofText "db"] (.link (.ofText "../data"))
    |>.put [.ofText "node", .ofText "mainnetdb"] .directory
    |>.put [.ofText "node", .ofText "mainnetdb", .ofText "away"] (.link (.ofText "../../data"))

theorem resolve_node (h : t.workdir = []) (hdir : t.get? [.ofText "node"] = some .directory) :
    t.resolve true (Path.ofText "node").route =
      .ok (.present [.ofText "node"] .directory) := by
  have hroute : (Path.ofText "node").route = ⟨false, [.down (.ofText "node")], false, 4⟩ := by
    decide
  rw [hroute, resolve_eq_ok_iff, Route.startFrom, h]
  exact ⟨by decide, t.get?_nil, .enter (by decide) hdir .stop⟩

theorem cleanNodeState_cleans_linked :
    ∃ report u, cleanNodeState (.ofText "node") linkedState = (report, u) ∧
      report.isClean = true ∧ Path.ofText "node/db" ∈ report.removed ∧
      Path.ofText "node/mainnetdb" ∈ report.removed ∧
      u.get? [.ofText "data", .ofText "ledger"] = some (.file "kept") ∧
      cleanNodeState (.ofText "node") u =
        ({ missing := pathsOf (.ofText "node") cleanupTargets }, u) := by
  obtain ⟨report, u, hrun, hcovers, hcleans, hdirectory, hagain⟩ :=
    cleanNodeState_cleans (.ofText "node") linkedState
  have hdir : linkedState.resolve true (Path.ofText "node").route =
      .ok (.present [.ofText "node"] .directory) := resolve_node (by decide) (by decide)
  have hadmits : ∀ target ∈ cleanupTargets, (Path.ofText "node").Admits (.ofText target) := by
    decide
  have houtside : ∀ l : Location,
      (∀ target ∈ cleanupTargets, ¬[.ofText "node", .ofText target] <+: l) →
        u.get? l = linkedState.get? l := by
    refine fun l hno => hcleans.stays l fun p hp loc hloc => ?_
    obtain ⟨target, htarget, rfl⟩ := List.mem_map.mp (hcovers.removed.subset hp)
    rw [(hdirectory _ hdir target htarget).1 loc hloc]
    exact hno target htarget
  have hstays : u.resolve true (Path.ofText "node").route =
      linkedState.resolve true (Path.ofText "node").route := by
    rw [hdir]
    refine resolve_node (hcleans.gains.workdir.symm.trans (by decide)) ?_
    rw [houtside _ (by decide)]
    decide
  have hclean := hcleans.isClean_of_admits hcovers plain_of_mem_cleanupTargets hdir hadmits
  have hdb : "db" ∈ cleanupTargets := by decide
  have hmain : "mainnetdb" ∈ cleanupTargets := by decide
  refine ⟨report, u, hrun, hclean, ?_, ?_, ?_, hagain hclean⟩
  · exact ((hdirectory _ hdir _ hdb).2 hstays (hadmits _ hdb)).2.mpr (by decide)
  · exact ((hdirectory _ hdir _ hmain).2 hstays (hadmits _ hmain)).2.mpr (by decide)
  · rw [houtside _ (by decide)]
    decide

end PeerOverlay
