/-
Which files survive sorting a directory of logs.

`KeepsLogs t u loc` gives every file below a directory a place of its own after the run: where
it was, or in the directory of the date in its name.

Main statements:
* `keepsLogs_of_free`, `free_of_keepsLogs` — all files survive exactly if each log is moved to
  a free place;
* `organizeLogs_keepsLogs_iff` — the same for a whole run, and what else may be lost;
* `not_forall_keepsLogs` — a log that was sorted before is lost to one of its name.
-/
import Mathlib.Data.Set.Finite.Lemmas
import PeerOverlay.Proofs.LogArchive.Filing

namespace PeerOverlay

variable {t u : FileTree} {dir : Path} {loc l : Location} {n : Name} {d : Date}
  {moved : List Name}

/-! ### Files below a directory -/

/-- The places of the files in a directory and below it. -/
def FileTree.filesBelow (t : FileTree) (loc : Location) : Set Location :=
  {l | loc <+: l ∧ ∃ content, t.get? l = some (.file content)}

theorem FileTree.finite_filesBelow (t : FileTree) (loc : Location) :
    (t.filesBelow loc).Finite := by
  refine (List.finite_toSet (t.entries.map Prod.fst)).subset ?_
  rintro l ⟨-, content, hfile⟩
  exact List.mem_map.mpr ⟨_, mem_entries_of_get? (ne_nil_of_file hfile) hfile, rfl⟩

/-- The places of the files below a directory that have a name. -/
def FileTree.filesNamed (t : FileTree) (loc : Location) (n : Name) : Set Location :=
  {l ∈ t.filesBelow loc | ∃ front, l = front ++ [n]}

/-- Every file below a directory has a place afterwards, where it was or in the directory of
the date in its name, and no two have one. -/
def KeepsLogs (t u : FileTree) (loc : Location) : Prop :=
  ∃ place : Location → Location, Set.InjOn place (t.filesBelow loc) ∧
    ∀ l ∈ t.filesBelow loc, u.get? (place l) = t.get? l ∧
      (place l = l ∨ ∃ front n d, l = front ++ [n] ∧ n.logDate? = some d ∧
        place l = loc ++ [d.bucket, n])

/-- Each log that was moved came to a place where nothing was. -/
def FreelyFiled (t u : FileTree) (loc : Location) : Prop :=
  ∀ n d, n.logDate? = some d → t.get? (loc ++ [n]) ≠ none → u.get? (loc ++ [n]) = none →
    t.get? (loc ++ [d.bucket, n]) = none

/-- Where a file is after some logs were moved. -/
def filedPlace (loc : Location) (moved : List Name) (l : Location) : Location :=
  match l.getLast? with
  | some n =>
    if l = loc ++ [n] ∧ n ∈ moved then
      (n.logDate?.map fun d => loc ++ [d.bucket, n]).getD l
    else l
  | none => l

theorem filedPlace_log (hn : n ∈ moved) (hdate : n.logDate? = some d) :
    filedPlace loc moved (loc ++ [n]) = loc ++ [d.bucket, n] := by
  simp [filedPlace, hn, hdate]

theorem filedPlace_of_not (h : ∀ n ∈ moved, l ≠ loc ++ [n]) : filedPlace loc moved l = l := by
  unfold filedPlace
  split
  next n hlast =>
    rw [if_neg]
    rintro ⟨hl, hn⟩
    exact h n hn hl
  next => rfl

/-- A log that was moved to a free place is there. -/
theorem Filed.exists_filedPlace (hfiled : Filed t u loc moved) (hfree : FreelyFiled t u loc)
    (hn : n ∈ moved) :
    ∃ d, n.logDate? = some d ∧ filedPlace loc moved (loc ++ [n]) = loc ++ [d.bucket, n] ∧
      u.get? (loc ++ [d.bucket, n]) = t.get? (loc ++ [n]) ∧
        t.get? (loc ++ [d.bucket, n]) = none := by
  obtain ⟨d, content, hdate, hfile, hgone, -, hnew⟩ := hfiled.log n hn
  exact ⟨d, hdate, filedPlace_log hn hdate, hnew.trans hfile.symm,
    hfree n d hdate (by simp [hfile]) hgone⟩

theorem Filed.injOn_filedPlace (hfiled : Filed t u loc moved) (hfree : FreelyFiled t u loc) :
    Set.InjOn (filedPlace loc moved) (t.filesBelow loc) := by
  -- The place of a log that was moved was free, so no file that stays has it.
  have hstays : ∀ n ∈ moved, ∀ l ∈ t.filesBelow loc, filedPlace loc moved (loc ++ [n]) ≠ l := by
    rintro n hn l ⟨-, content, hfile⟩ hsame
    obtain ⟨d, -, hplace, -, hnone⟩ := hfiled.exists_filedPlace hfree hn
    rw [← hsame, hplace, hnone] at hfile
    cases hfile
  intro l hl l' hl' hsame
  by_cases hmoved : ∃ n ∈ moved, l = loc ++ [n] <;>
    by_cases hmoved' : ∃ n ∈ moved, l' = loc ++ [n]
  · obtain ⟨n, hn, rfl⟩ := hmoved
    obtain ⟨n', hn', rfl⟩ := hmoved'
    obtain ⟨d, -, hplace, -⟩ := hfiled.exists_filedPlace hfree hn
    obtain ⟨d', -, hplace', -⟩ := hfiled.exists_filedPlace hfree hn'
    rw [hplace, hplace'] at hsame
    obtain ⟨-, rfl⟩ : d.bucket = d'.bucket ∧ n = n' := by simpa using hsame
    rfl
  · obtain ⟨n, hn, rfl⟩ := hmoved
    have hplace' := filedPlace_of_not (l := l') (by simpa using hmoved')
    exact absurd (hsame.trans hplace') (hstays n hn l' hl')
  · obtain ⟨n', hn', rfl⟩ := hmoved'
    have hplace := filedPlace_of_not (l := l) (by simpa using hmoved)
    exact absurd (hsame.symm.trans hplace) (hstays n' hn' l hl)
  · rwa [filedPlace_of_not (by simpa using hmoved),
      filedPlace_of_not (by simpa using hmoved')] at hsame

/-- **Where each log is moved to a free place, all files survive.** -/
theorem keepsLogs_of_free (hfiled : Filed t u loc moved) (hfree : FreelyFiled t u loc) :
    KeepsLogs t u loc := by
  refine ⟨filedPlace loc moved, hfiled.injOn_filedPlace hfree, ?_⟩
  rintro l ⟨-, content, hfile⟩
  by_cases hmoved : ∃ n ∈ moved, l = loc ++ [n]
  · obtain ⟨n, hn, rfl⟩ := hmoved
    obtain ⟨d, hdate, hplace, hnew, -⟩ := hfiled.exists_filedPlace hfree hn
    rw [hplace]
    exact ⟨hnew, .inr ⟨loc, n, d, rfl, hdate, rfl⟩⟩
  · rw [filedPlace_of_not (by simpa using hmoved), hfile]
    refine ⟨hfiled.get?_of_some ?_ hfile, .inl rfl⟩
    rintro ⟨n, hn, hl | ⟨d, hdate, rfl⟩⟩
    · exact hmoved ⟨n, hn, hl⟩
    · obtain ⟨d', hdate', -, -, hnone⟩ := hfiled.exists_filedPlace hfree hn
      obtain rfl := Option.some.inj (hdate.symm.trans hdate')
      cases hnone.symm.trans hfile

/-- **A file that a log is moved over is one too many for the places of its name.** -/
theorem free_of_keepsLogs (hfiled : Filed t u loc moved) (hkeeps : KeepsLogs t u loc) :
    FreelyFiled t u loc := by
  intro n d hdate hthere hgone
  by_contra htaken
  obtain ⟨place, hinj, hplace⟩ := hkeeps
  have hmoved : n ∈ moved := by
    by_contra hn
    obtain ⟨e, he⟩ := Option.ne_none_iff_exists'.mp hthere
    cases hgone.symm.trans (hfiled.get?_of_some (not_touches_log hn) he)
  obtain ⟨d', content, hdate', hfile, -, htakes, -⟩ := hfiled.log n hmoved
  obtain rfl := Option.some.inj (hdate.symm.trans hdate')
  obtain ⟨old, hold⟩ := htakes.resolve_right htaken
  -- The places lead the files of this name into themselves, but none of them to the old place.
  have hfinite : (t.filesNamed loc n).Finite :=
    (t.finite_filesBelow loc).subset fun l hl => hl.1
  have hmaps : Set.MapsTo place (t.filesNamed loc n) (t.filesNamed loc n) := by
    rintro l ⟨hl, front, rfl⟩
    obtain ⟨-, hsite | ⟨front', n', d', hl', hdate', hsite⟩⟩ := hplace _ hl
    · rw [hsite]
      exact ⟨hl, front, rfl⟩
    · obtain rfl : n = n' := by simpa using (List.append_inj' hl' rfl).2
      obtain rfl := Option.some.inj (hdate.symm.trans hdate')
      rw [hsite]
      exact ⟨⟨List.prefix_append _ _, old, hold⟩, loc ++ [d.bucket], by simp⟩
  have hbij := (hfinite.injOn_iff_bijOn_of_mapsTo hmaps).mp (hinj.mono fun l hl => hl.1)
  have hlog : loc ++ [n] ∈ t.filesNamed loc n := ⟨⟨List.prefix_append _ _, content, hfile⟩, loc, rfl⟩
  obtain ⟨l, ⟨hl, -⟩, hlast⟩ := hbij.surjOn hlog
  obtain ⟨hsame, -⟩ := hplace l hl
  obtain ⟨-, content', hfile'⟩ := hl
  rw [hlast, hgone, hfile'] at hsame
  cases hsame

/-! ### Sorting a directory -/

/-- A file that is lost was in the directory of a date, where a log of its name was moved. -/
theorem Filed.survives_or (hfiled : Filed t u loc moved) {content : String}
    (hfile : t.get? l = some (.file content)) :
    u.get? l = some (.file content) ∨
      (∃ n d, l = loc ++ [n] ∧ n.logDate? = some d ∧
        u.get? (loc ++ [d.bucket, n]) = some (.file content)) ∨
      ∃ n d, l = loc ++ [d.bucket, n] ∧ n.logDate? = some d ∧ t.get? (loc ++ [n]) = u.get? l ∧
        u.get? (loc ++ [n]) = none := by
  by_cases hl : Touches loc moved l
  · obtain ⟨n, hn, hl⟩ := hl
    obtain ⟨d, content', hdate, hold, hgone, -, hnew⟩ := hfiled.log n hn
    rcases hl with rfl | ⟨d', hdate', rfl⟩
    · obtain rfl : content' = content := by simpa [hold] using hfile
      exact .inr (.inl ⟨n, d, rfl, hdate, hnew⟩)
    · obtain rfl := Option.some.inj (hdate.symm.trans hdate')
      exact .inr (.inr ⟨n, d, rfl, hdate, hold.trans hnew.symm, hgone⟩)
  · exact .inl (hfiled.get?_of_some hl hfile)

/-- **Sorting a directory keeps every log,** exactly if each one is moved to a place where
nothing was.  A file is lost only in the directory of a date, to a log of its name and date
that is moved over it; nothing changes if there is no directory to sort. -/
theorem organizeLogs_keepsLogs_iff (hlinks : t.LinkFree) (hnames : t.PlainNames) :
    (∀ loc, t.resolve true dir.route = .ok (.present loc .directory) →
      (KeepsLogs t (organizeLogs dir t).2 loc ↔ FreelyFiled t (organizeLogs dir t).2 loc) ∧
      ∀ l content, t.get? l = some (.file content) →
        (organizeLogs dir t).2.get? l = some (.file content) ∨
          (∃ n d, l = loc ++ [n] ∧ n.logDate? = some d ∧
            (organizeLogs dir t).2.get? (loc ++ [d.bucket, n]) = some (.file content)) ∨
          ∃ n d, l = loc ++ [d.bucket, n] ∧ n.logDate? = some d ∧
            t.get? (loc ++ [n]) = (organizeLogs dir t).2.get? l ∧
              (organizeLogs dir t).2.get? (loc ++ [n]) = none) ∧
    ((∀ loc, t.resolve true dir.route ≠ .ok (.present loc .directory)) →
      (organizeLogs dir t).2 = t) := by
  refine ⟨fun loc hresolve => ?_, organizeLogs_of_not_directory⟩
  obtain ⟨moved, -, hfiled⟩ := filed_organizeLogs ⟨hlinks, hresolve⟩ hnames
  refine ⟨⟨free_of_keepsLogs hfiled, keepsLogs_of_free hfiled⟩, fun l content hfile => ?_⟩
  exact hfiled.survives_or hfile

/-! ### Two directories of logs -/

theorem FileTree.plainNames_of_entries (h : ∀ e ∈ t.entries, ∀ n ∈ e.1, n.Plain) :
    t.PlainNames := by
  intro loc n e he
  have hroot : loc ++ [n] ≠ [] := by simp
  exact h _ (mem_entries_of_get? hroot he) n (by simp)

theorem finds_logs (hlinks : t.LinkFree) (hworkdir : t.workdir = [])
    (hlogs : t.get? [.ofText "logs"] = some .directory) :
    t.Finds (.ofText "logs") [.ofText "logs"] := by
  have hroute : (Path.ofText "logs").route = ⟨false, [.down (.ofText "logs")], false, 4⟩ := by
    decide
  have hfinds := FileTree.Finds.of_route (t := t) hlinks hroute (by decide) (by decide) (by decide)
  rw [hworkdir] at hfinds
  exact hfinds t.get?_nil hlogs

/-- The date of a log. -/
def sampleDate : Date :=
  ⟨2019, 5, 3, by decide⟩

/-- The name of a log of that date. -/
def sampleLog : Name :=
  .ofText "node0__2019-05-03_1200.log"

/-- A directory with a log that was not sorted yet. -/
def unsorted : FileTree :=
  FileTree.empty.put [.ofText "logs"] .directory
    |>.put [.ofText "logs", sampleLog] (.file "later")

/-- A directory with a log that was sorted before, and a later one of its name. -/
def resorted : FileTree :=
  unsorted.put [.ofText "logs", .ofText "2019-05-03"] .directory
    |>.put [.ofText "logs", .ofText "2019-05-03", sampleLog] (.file "earlier")

theorem organizeLogs_keepsLogs_iff_unsorted :
    unsorted.LinkFree ∧ unsorted.PlainNames ∧
      KeepsLogs unsorted (organizeLogs (.ofText "logs") unsorted).2 [.ofText "logs"] := by
  have hlinks : unsorted.LinkFree := FileTree.linkFree_of_entries (by decide)
  have hnames : unsorted.PlainNames := FileTree.plainNames_of_entries (by decide)
  have hfinds := finds_logs hlinks rfl (by decide)
  obtain ⟨hdir, -⟩ := @organizeLogs_keepsLogs_iff unsorted (.ofText "logs") hlinks hnames
  refine ⟨hlinks, hnames, (hdir _ hfinds.resolve).1.mpr fun n d _ _ _ => ?_⟩
  -- Nothing stands deeper than the logs.
  have hdepth : ∀ e ∈ unsorted.entries, e.1.length ≤ 2 := by decide
  refine Option.eq_none_iff_forall_not_mem.mpr fun e he => ?_
  exact absurd (hdepth _ (FileTree.mem_entries_of_get? (by simp) he)) (by simp)

/-- A log that was sorted before is lost to a later one of its name. -/
theorem not_forall_keepsLogs :
    ¬∀ (t : FileTree) (dir : Path) (loc : Location), t.LinkFree → t.PlainNames →
      t.resolve true dir.route = .ok (.present loc .directory) →
        KeepsLogs t (organizeLogs dir t).2 loc := by
  intro hall
  have hlinks : resorted.LinkFree := FileTree.linkFree_of_entries (by decide)
  have hnames : resorted.PlainNames := FileTree.plainNames_of_entries (by decide)
  have hfinds := finds_logs hlinks rfl (by decide)
  have hdate : sampleLog.logDate? = some sampleDate := by decide +kernel
  have hbucket : resorted.Finds ((Path.ofText "logs").join sampleDate.bucket)
      ([.ofText "logs"] ++ [sampleDate.bucket]) := by
    refine ⟨hlinks, (hfinds.resolve_join_eq_ok_iff sampleDate.plain_bucket).mpr ?_⟩
    exact ⟨by decide, by decide⟩
  have honly : ∀ m, resorted.get? ([.ofText "logs"] ++ [m]) ≠ none → m ≠ sampleLog →
      m.logDate? = none := by
    intro m hm hne
    obtain ⟨e, he⟩ := Option.ne_none_iff_exists'.mp hm
    have hentries : ∀ e ∈ resorted.entries, ∀ m ∈ e.1, m ≠ sampleLog → m.logDate? = none := by
      decide
    exact hentries _ (FileTree.mem_entries_of_get? (by simp) he) m (by simp) hne
  have hlater : resorted.get? ([.ofText "logs"] ++ [sampleLog]) = some (.file "later") := by
    decide
  obtain ⟨moved, hmoved, hfiled⟩ := exists_filed_of_only hfinds hnames hbucket hdate honly
    (by decide) (by decide) (by decide) hlater
  obtain ⟨-, -, -, -, hgone, -⟩ := hfiled.log sampleLog hmoved
  -- The earlier log is in the place that the later one was moved to.
  have hfree := free_of_keepsLogs hfiled (hall _ _ _ hlinks hnames hfinds.resolve)
    sampleLog sampleDate hdate (hlater ▸ by simp) hgone
  exact absurd hfree (by decide)

end PeerOverlay
