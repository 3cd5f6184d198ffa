/-
What a run over a directory of logs reports, and what a second run finds.

A run takes up each log that it can look up by its path, files those with a date and skips the
others.  Filing one log makes and takes away no other, so what a run takes up is settled before
it starts: `archives_fileLogs`.

Main statements:
* `Archives` — what a run does to the tree, by the logs that it takes up;
* `organizeLogs_archives` — a run over a directory, and a second run after it;
* `not_forall_listed` — a log whose path is too long is neither moved nor skipped.
-/
import PeerOverlay.Proofs.FileTree.Removing
import PeerOverlay.Proofs.LogArchive.Keeping
import PeerOverlay.Proofs.Outcome

namespace PeerOverlay

variable {t u v : FileTree} {dir : Path} {loc : Location} {n : Name} {d : Date}
  {logs moved names : List Name} {report : ArchiveReport}

/-! ### Reports -/

/-- The old and the new path of a log that has a date. -/
def newPath? (dir : Path) (n : Name) : Option (Path × Path) :=
  n.logDate?.map fun d => (dir.join n, (dir.join d.bucket).join n)

/-- The report on logs, in their order. -/
def ArchiveReport.ofLogs (dir : Path) (logs : List Name) : ArchiveReport where
  moved := logs.filterMap (newPath? dir)
  skipped := (logs.filter (·.logDate? = none)).map dir.join

namespace ArchiveReport

theorem ofLogs_cons_of_some (hdate : n.logDate? = some d) :
    ofLogs dir (n :: logs) = { ofLogs dir logs with
      moved := (dir.join n, (dir.join d.bucket).join n) :: (ofLogs dir logs).moved } := by
  rw [ofLogs, List.filterMap_cons_some (by rw [newPath?, hdate]; rfl),
    List.filter_cons_of_neg (by simp [hdate])]
  rfl

theorem ofLogs_cons_of_none (hdate : n.logDate? = none) :
    ofLogs dir (n :: logs) = { ofLogs dir logs with
      skipped := dir.join n :: (ofLogs dir logs).skipped } := by
  rw [ofLogs, List.filterMap_cons_none (by rw [newPath?, hdate]; rfl),
    List.filter_cons_of_pos (by simp [hdate])]
  rfl

/-- The report on the logs without a date is what the report on all logs says is skipped. -/
theorem ofLogs_filter :
    ofLogs dir (logs.filter (·.logDate? = none)) = { skipped := (ofLogs dir logs).skipped } := by
  have hmoved : (logs.filter (·.logDate? = none)).filterMap (newPath? dir) = [] := by
    refine List.filterMap_eq_nil_iff.mpr fun n hn => ?_
    rw [newPath?, of_decide_eq_true (List.mem_filter.mp hn).2]
    rfl
  rw [ofLogs, hmoved, List.filter_filter, ofLogs]
  simp only [Bool.and_self]

end ArchiveReport

/-! ### What a run does -/

/-- Filing some logs leaves each of the others in its place, and makes no log. -/
theorem Filed.isLog_iff (h : Filed t u loc moved) (hn : n ∉ moved) :
    IsLog u loc n ↔ IsLog t loc n := by
  refine ⟨fun ⟨hname, content, hfile⟩ => ⟨hname, content, ?_⟩,
    fun ⟨hname, content, hfile⟩ => ⟨hname, content, h.get?_of_some (not_touches_log hn) hfile⟩⟩
  rw [← h.get?_of_not_directory (not_touches_log hn) (by simp [hfile]), hfile]

theorem Filed.not_isLog (h : Filed t u loc moved) (hn : n ∈ moved) : ¬IsLog u loc n := by
  rintro ⟨-, content, hfile⟩
  obtain ⟨-, -, -, -, hgone, -⟩ := h.log n hn
  cases hgone.symm.trans hfile

/-- Names stay plain, for no other than those of dates are new. -/
theorem Filed.plainNames (h : Filed t u loc moved) (hnames : t.PlainNames) : u.PlainNames := by
  intro front n e he
  by_cases hl : Touches loc moved (front ++ [n])
  · obtain ⟨m, hm, hl⟩ := hl
    obtain ⟨d, content, -, hfile, -⟩ := h.log m hm
    have hlast : n = m := by
      rcases hl with hl | ⟨d', -, hl⟩ <;> simpa using congrArg List.getLast? hl
    exact hlast ▸ hnames loc m _ hfile
  · rcases h.elsewhere _ hl with hsame | ⟨-, -, d, hbucket⟩
    · exact hnames front n e (hsame ▸ he)
    · rw [List.singleton_inj.mp (List.append_inj' hbucket rfl).2]
      exact d.plain_bucket

/-- The dated ones of these logs were filed, and no directory was made but for their dates.  The
paths that they were moved between are short enough. -/
structure Archives (t u : FileTree) (dir : Path) (loc : Location) (logs : List Name) : Prop where
  filed : Filed t u loc (logs.filter (·.logDate?.isSome))
  made : ∀ l, t.get? l = none → u.get? l = some .directory →
    ∃ n ∈ logs, ∃ d, n.logDate? = some d ∧ l = loc ++ [d.bucket]
  admits : ∀ n ∈ logs, ∀ d, n.logDate? = some d →
    dir.Admits n ∧ dir.Admits d.bucket ∧ (dir.join d.bucket).Admits n

namespace Archives

theorem refl (t : FileTree) (dir : Path) (loc : Location) : Archives t t dir loc [] :=
  ⟨.refl t loc, fun _ hnone hdirectory => (nomatch hnone.symm.trans hdirectory),
    fun _ hn => absurd hn List.not_mem_nil⟩

theorem of_none (hdate : n.logDate? = none) : Archives t t dir loc [n] := by
  refine ⟨?_, fun l hnone hdirectory => (nomatch hnone.symm.trans hdirectory), ?_⟩
  · rw [List.filter_cons_of_neg (by simp [hdate])]
    exact .refl t loc
  · rintro m hm d hdate'
    obtain rfl := List.mem_singleton.mp hm
    cases hdate.symm.trans hdate'

/-- One log comes first, and other logs after it. -/
theorem cons (hn : n ∉ logs) (hfirst : Archives t v dir loc [n])
    (h : Archives v u dir loc logs) : Archives t u dir loc (n :: logs) := by
  refine ⟨?_, fun l hnone hdirectory => ?_, List.forall_mem_cons.mpr
    ⟨hfirst.admits n (List.mem_singleton_self n), h.admits⟩⟩
  · rw [← List.singleton_append, List.filter_append]
    refine hfirst.filed.trans h.filed fun m hm hmem => hn ?_
    rw [← List.mem_singleton.mp (List.mem_filter.mp hmem).1]
    exact (List.mem_filter.mp hm).1
  · rcases hmiddle : v.get? l with _ | e
    · obtain ⟨m, hm, hbucket⟩ := h.made l hmiddle hdirectory
      exact ⟨m, List.mem_cons_of_mem n hm, hbucket⟩
    · -- What is a directory at the end and was there already was one before.
      have hl : ¬Touches loc (logs.filter (·.logDate?.isSome)) l := by
        rintro ⟨m, hm, hl⟩
        obtain ⟨d', content, hdate', -, hgone, -, hnew⟩ := h.filed.log m hm
        rcases hl with rfl | ⟨d'', hdate'', rfl⟩
        · cases hgone.symm.trans hdirectory
        · obtain rfl := Option.some.inj (hdate'.symm.trans hdate'')
          cases hnew.symm.trans hdirectory
      obtain rfl := Option.some.inj ((h.filed.get?_of_some hl hmiddle).symm.trans hdirectory)
      obtain ⟨m, hm, hbucket⟩ := hfirst.made l hnone hmiddle
      exact ⟨m, List.mem_singleton.mp hm ▸ List.mem_cons_self, hbucket⟩

/-- A dated log is gone from its old path, and its content is at the new one. -/
theorem readFile_newPath (h : Archives t u dir loc logs) (hfinds : t.Finds dir loc)
    (hplain : n.Plain) (hn : n ∈ logs) (hdate : n.logDate? = some d) :
    ∃ content, t.readFile (dir.join n).route = .ok content ∧
      u.readFile ((dir.join d.bucket).join n).route = .ok content ∧
      FileTree.IsMissing (u.resolve false (dir.join n).route) := by
  obtain ⟨hadmits, hbucket, hadmits'⟩ := h.admits n hn d hdate
  obtain ⟨d', content, hdate', hold, hgone, -, hnew⟩ :=
    h.filed.log n (List.mem_filter.mpr ⟨hn, by simp [hdate]⟩)
  obtain rfl := Option.some.inj (hdate.symm.trans hdate')
  have hu := h.filed.finds hfinds
  rw [← List.singleton_append, ← List.append_assoc] at hnew
  have hbucketFinds : u.Finds (dir.join d.bucket) (loc ++ [d.bucket]) := by
    refine ⟨hu.linkFree, (hu.resolve_join_eq_ok_iff d.plain_bucket).mpr ⟨hbucket, ?_⟩⟩
    rw [FileTree.get?_parent hnew]
    rfl
  refine ⟨content, hfinds.readFile_join hplain hadmits hold,
    hbucketFinds.readFile_join hplain hadmits' hnew, ?_⟩
  rw [(hu.resolve_join_eq_ok_iff hplain).mpr ⟨hadmits, rfl⟩, hgone]
  trivial

end Archives

/-! ### Runs -/

/-- A log is moved into the directory of its date, and no other directory is made for it. -/
theorem archives_of_fileLog_eq_ok (hfinds : t.Finds dir loc) (hn : n.Plain)
    (hdate : n.logDate? = some d) {target : Path} (h : fileLog dir n d t = (.ok target, u)) :
    Archives t u dir loc [n] := by
  have hfiled : Filed t u loc ([n].filter (·.logDate?.isSome)) := by
    rw [List.filter_cons_of_pos (by simp [hdate])]
    exact filed_of_fileLog_eq_ok hfinds hn hdate h
  obtain ⟨-, p, hcreate, hmove⟩ := exists_of_fileLog_eq_ok h
  have hbuilds : t.Builds p (· = loc ++ [d.bucket]) := by
    simpa only [hcreate] using hfinds.builds_createDirAll_join d.plain_bucket
  have hp := hbuilds.gains.finds hfinds
  have hbucket := hfinds.finds_join_of_createDirAll d.plain_bucket hcreate
  obtain ⟨hadmits, hadmits', htakes, content, hfile, rfl⟩ :=
    (hp.moveFile_join_eq_ok_iff hbucket hn).mp hmove
  refine ⟨hfiled, fun l hnone hdirectory => ?_, fun m hm d' hdate' => ?_⟩
  · refine ⟨n, List.mem_singleton_self n, d, hdate, hbuilds.mem_sites l hnone fun hmiddle => ?_⟩
    -- The move itself makes no directory.
    have hmoves := FileTree.Moves.of_put hfile htakes (htakes.accepts hbucket.get?_eq _)
    rw [hmoves.get?_eq, hmiddle, ite_self] at hdirectory
    split_ifs at hdirectory
    cases hdirectory
  · obtain rfl := List.mem_singleton.mp hm
    obtain rfl := Option.some.inj (hdate.symm.trans hdate')
    exact ⟨hadmits, ((hp.resolve_join_eq_ok_iff d.plain_bucket).mp hbucket.resolve).1, hadmits'⟩

/-- **A run takes up the logs that are there when it starts.**  What it reports and what it does
goes by these. -/
theorem archives_fileLogs (hfinds : t.Finds dir loc) (hnames : names.Nodup)
    (hplain : ∀ n ∈ names, n.Plain) (hrun : fileLogs dir names t = (.ok report, u)) :
    report = .ofLogs dir (names.filter (takesUp t dir)) ∧
      Archives t u dir loc (names.filter (takesUp t dir)) := by
  induction names generalizing t report with
  | nil =>
    obtain ⟨hreport, rfl⟩ := Prod.mk.inj hrun
    exact ⟨(Except.ok.inj hreport).symm, .refl t dir loc⟩
  | cons n rest ih =>
    obtain ⟨hnot, hrest⟩ := List.nodup_cons.mp hnames
    obtain ⟨hn, hplain⟩ := List.forall_mem_cons.mp hplain
    rcases htakes : takesUp t dir n
    case false =>
      rw [fileLogs_cons_of_not htakes] at hrun
      rw [List.filter_cons_of_neg (by simp [htakes])]
      exact ih hfinds hrest hplain hrun
    rw [List.filter_cons_of_pos htakes]
    rcases hdate : n.logDate? with _ | d
    · rw [fileLogs_cons_of_none htakes hdate] at hrun
      obtain ⟨hreport, rfl⟩ := Prod.mk.inj hrun
      obtain ⟨report', hreport', rfl⟩ := map_eq_ok_iff.mp hreport
      obtain ⟨rfl, harchives⟩ := ih hfinds hrest hplain (Prod.ext hreport' rfl)
      rw [ArchiveReport.ofLogs_cons_of_none hdate]
      exact ⟨rfl, .cons (fun hmem => hnot (List.mem_filter.mp hmem).1) (.of_none hdate) harchives⟩
    rcases hfile : fileLog dir n d t with ⟨e | target, v⟩
    · rw [fileLogs_cons_of_error htakes hdate hfile] at hrun
      cases (Prod.mk.inj hrun).1
    · rw [fileLogs_cons_of_ok htakes hdate hfile] at hrun
      obtain ⟨hreport, rfl⟩ := Prod.mk.inj hrun
      obtain ⟨report', hreport', rfl⟩ := map_eq_ok_iff.mp hreport
      have hfirst := archives_of_fileLog_eq_ok hfinds hn hdate hfile
      have hfiled := filed_of_fileLog_eq_ok hfinds hn hdate hfile
      have hv := hfiled.finds hfinds
      -- Filing one log leaves it to the rest of the run to take up the others.
      have hothers : rest.filter (takesUp v dir) = rest.filter (takesUp t dir) := by
        refine List.filter_congr fun m hm => Bool.eq_iff_iff.mpr ?_
        have hne : m ∉ [n] := fun hmem => hnot (List.mem_singleton.mp hmem ▸ hm)
        rw [takesUp_iff hv (hplain m hm), takesUp_iff hfinds (hplain m hm), hfiled.isLog_iff hne]
      obtain ⟨rfl, harchives⟩ := ih hv hrest hplain (Prod.ext hreport' rfl)
      rw [hothers] at harchives ⊢
      rw [(exists_of_fileLog_eq_ok hfile).1, ArchiveReport.ofLogs_cons_of_some hdate]
      exact ⟨rfl, .cons (fun hmem => hnot (List.mem_filter.mp hmem).1) hfirst harchives⟩

/-- A run that comes to no dated log skips what it takes up. -/
theorem fileLogs_of_none (h : ∀ n ∈ names, takesUp t dir n = true → n.logDate? = none) :
    fileLogs dir names t = (.ok (.ofLogs dir (names.filter (takesUp t dir))), t) := by
  induction names with
  | nil => rfl
  | cons n rest ih =>
    obtain ⟨hn, hrest⟩ := List.forall_mem_cons.mp h
    rcases htakes : takesUp t dir n
    · rw [fileLogs_cons_of_not htakes, List.filter_cons_of_neg (by simp [htakes]), ih hrest]
    · rw [fileLogs_cons_of_none htakes (hn htakes), List.filter_cons_of_pos htakes, ih hrest,
        ArchiveReport.ofLogs_cons_of_none (hn htakes)]
      rfl

/-! ### Runs that succeed -/

/-- Nothing is in the way of filing a log under a date. -/
structure Fits (t : FileTree) (dir : Path) (loc : Location) (n : Name) (d : Date) : Prop where
  bucket : t.get? (loc ++ [d.bucket]) = none ∨ t.get? (loc ++ [d.bucket]) = some .directory
  place : t.TakesFile (loc ++ [d.bucket, n])
  admits : dir.Admits d.bucket ∧ (dir.join d.bucket).Admits n

/-- It does not matter whether the directory of the date is made first. -/
theorem fileLog_of_createDirAll (hfinds : t.Finds dir loc)
    (hcreate : t.createDirAll (dir.join d.bucket).route = (.ok (), v)) :
    fileLog dir n d t = fileLog dir n d v := by
  have hbucket := hfinds.finds_join_of_createDirAll d.plain_bucket hcreate
  have hagain := FileTree.createDirAll_of_isDirectory
    (FileTree.isDirectory_iff.mpr ⟨_, hbucket.resolve⟩)
  simp only [fileLog, ← Date.bucket.eq_def, hcreate, hagain]

theorem Fits.exists_fileLog_eq_ok (h : Fits t dir loc n d) (hfinds : t.Finds dir loc)
    (hn : n.Plain) (hadmits : dir.Admits n) {content : String}
    (hfile : t.get? (loc ++ [n]) = some (.file content)) :
    ∃ target u, fileLog dir n d t = (.ok target, u) := by
  have hresolve : ∀ follow, t.resolve follow (dir.join d.bucket).route =
      .ok ((t.get? (loc ++ [d.bucket])).elim (.absent (loc ++ [d.bucket]) false)
        (.present (loc ++ [d.bucket]))) := fun follow =>
    (hfinds.resolve_join_eq_ok_iff d.plain_bucket).mpr ⟨h.admits.1, rfl⟩
  rcases h.bucket with hnone | hdirectory
  · rw [hnone] at hresolve
    obtain ⟨⟨-, hempty, -⟩, -, -⟩ := FileTree.resolve_eq_ok_iff.mp hfinds.resolve
    have hroute := Path.route_join (Path.bytes_ne_nil hempty) d.plain_bucket
    have hnonempty : (dir.join d.bucket).route.isEmpty = false := by
      rw [hroute]
      simp [Route.isEmpty]
    have habsent : t.resolve false { (dir.join d.bucket).route with trailing := false } =
        .ok (.absent (loc ++ [d.bucket]) false) := by
      have hfalse := hresolve false
      rw [hroute] at hfalse ⊢
      exact hfalse
    obtain ⟨v, hmade, hcreate, -⟩ := FileTree.createDirAll_of_absent hnonempty habsent
    have hplace : v.TakesFile (loc ++ [d.bucket, n]) := by
      rw [← List.singleton_append, ← List.append_assoc]
      exact .inr (hmade.get?_child n)
    rw [fileLog_of_createDirAll hfinds hcreate]
    exact fileLog_eq_ok (hmade.gains.finds hfinds)
      (hfinds.finds_join_of_createDirAll d.plain_bucket hcreate) hn hadmits h.admits.2 hplace
      (hmade.gains.get?_of_some hfile)
  · rw [hdirectory] at hresolve
    exact fileLog_eq_ok hfinds ⟨hfinds.linkFree, hresolve true⟩ hn hadmits h.admits.2 h.place hfile

/-- Filing other logs gets in no log's way. -/
theorem Fits.of_filed (h : Fits t dir loc n d) (hfiled : Filed t v loc moved) (hn : n ∉ moved) :
    Fits v dir loc n d := by
  refine ⟨?_, ?_, h.admits⟩
  · have hl : ¬Touches loc moved (loc ++ [d.bucket]) := by
      refine not_touches_log fun hbucket => ?_
      obtain ⟨d', -, hdate, -⟩ := hfiled.log _ hbucket
      exact Name.ne_bucket hdate d rfl
    rcases hfiled.elsewhere _ hl with hsame | ⟨-, hmade, -⟩
    · rw [hsame]
      exact h.bucket
    · exact .inr hmade
  · rcases hfiled.elsewhere _ (not_touches_filed hn d.bucket) with hsame | ⟨-, -, d', hl⟩
    · rw [FileTree.TakesFile, hsame]
      exact h.place
    · simp at hl

/-- **A run succeeds if nothing is in the way of any dated log.** -/
theorem exists_fileLogs_eq_ok (hfinds : t.Finds dir loc) (hnames : names.Nodup)
    (hplain : ∀ n ∈ names, n.Plain)
    (hfits : ∀ n ∈ names, IsLog t loc n → ∀ d, n.logDate? = some d → Fits t dir loc n d) :
    ∃ report u, fileLogs dir names t = (.ok report, u) := by
  induction names generalizing t with
  | nil => exact ⟨_, _, rfl⟩
  | cons n rest ih =>
    obtain ⟨hnot, hrest⟩ := List.nodup_cons.mp hnames
    obtain ⟨hn, hplain⟩ := List.forall_mem_cons.mp hplain
    obtain ⟨hfits_n, hfits⟩ := List.forall_mem_cons.mp hfits
    rcases htakes : takesUp t dir n
    case false =>
      rw [fileLogs_cons_of_not htakes]
      exact ih hfinds hrest hplain hfits
    rcases hdate : n.logDate? with _ | d
    · obtain ⟨report, u, hrun⟩ := ih hfinds hrest hplain hfits
      rw [fileLogs_cons_of_none htakes hdate, hrun]
      exact ⟨_, u, rfl⟩
    · obtain ⟨hlog, hadmits⟩ := (takesUp_iff hfinds hn).mp htakes
      obtain ⟨content, hfile⟩ := hlog.file
      obtain ⟨target, v, hok⟩ :=
        (hfits_n hlog d hdate).exists_fileLog_eq_ok hfinds hn hadmits hfile
      have hfiled := filed_of_fileLog_eq_ok hfinds hn hdate hok
      have hothers : ∀ m ∈ rest, IsLog v loc m →
          ∀ d', m.logDate? = some d' → Fits v dir loc m d' := by
        intro m hm hlog' d' hdate'
        have hne : m ∉ [n] := fun hmem => hnot (List.mem_singleton.mp hmem ▸ hm)
        exact (hfits m hm ((hfiled.isLog_iff hne).mp hlog') d' hdate').of_filed hfiled hne
      obtain ⟨report, u, hrun⟩ := ih (hfiled.finds hfinds) hrest hplain hothers
      rw [fileLogs_cons_of_ok htakes hdate hok, hrun]
      exact ⟨_, u, rfl⟩

/-! ### Sorting a directory -/

theorem mem_filter_takesUp (hfinds : t.Finds dir loc) (hnames : t.PlainNames) :
    n ∈ (t.children loc).filter (takesUp t dir) ↔ IsLog t loc n ∧ dir.Admits n := by
  rw [List.mem_filter]
  constructor
  · rintro ⟨hn, htakes⟩
    exact (takesUp_iff hfinds (hnames.of_mem_children hn)).mp htakes
  · intro hlog
    have hn : n ∈ t.children loc :=
      FileTree.mem_children.mpr (hlog.1.file.elim fun _ hfile => ⟨_, hfile⟩)
    exact ⟨hn, (takesUp_iff hfinds (hnames.of_mem_children hn)).mpr hlog⟩

/-- Of the logs that were taken up, those are left that have no date. -/
theorem Archives.isLog_iff (h : Archives t u dir loc logs)
    (hlogs : ∀ n, n ∈ logs ↔ IsLog t loc n ∧ dir.Admits n) :
    IsLog u loc n ∧ dir.Admits n ↔ n ∈ logs.filter (·.logDate? = none) := by
  rw [List.mem_filter, decide_eq_true_eq]
  constructor
  · rintro ⟨hlog, hadmits⟩
    have hfiled : n ∉ logs.filter (·.logDate?.isSome) := fun hn => h.filed.not_isLog hn hlog
    have hn := (hlogs n).mpr ⟨(h.filed.isLog_iff hfiled).mp hlog, hadmits⟩
    refine ⟨hn, Option.not_isSome_iff_eq_none.mp fun hdate => ?_⟩
    exact hfiled (List.mem_filter.mpr ⟨hn, hdate⟩)
  · rintro ⟨hn, hdate⟩
    obtain ⟨hlog, hadmits⟩ := (hlogs n).mp hn
    refine ⟨(h.filed.isLog_iff fun hfiled => ?_).mpr hlog, hadmits⟩
    simp [hdate] at hfiled

/-- So a second run takes up these. -/
theorem filter_takesUp_again (hfinds : t.Finds dir loc) (hnames : t.PlainNames)
    (h : Archives t u dir loc ((t.children loc).filter (takesUp t dir))) :
    (u.children loc).filter (takesUp u dir) =
      ((t.children loc).filter (takesUp t dir)).filter (·.logDate? = none) := by
  refine List.Perm.eq_of_pairwise (fun m n _ _ => Name.le_antisymm)
    (FileTree.pairwise_children.filter _) ((FileTree.pairwise_children.filter _).filter _) ?_
  refine (List.perm_ext_iff_of_nodup (FileTree.nodup_children.filter _)
    ((FileTree.nodup_children.filter _).filter _)).mpr fun n => ?_
  rw [mem_filter_takesUp (h.filed.finds hfinds) (h.filed.plainNames hnames)]
  exact h.isLog_iff fun n => mem_filter_takesUp hfinds hnames

/-- **A run lists each log of the directory once and in order,** but those that cannot be looked
up; the dated ones are moved into the directories of their dates, the others are skipped, and
nothing else changes.  A second run skips the same logs, and changes nothing. -/
theorem organizeLogs_archives (hlinks : t.LinkFree) (hnames : t.PlainNames)
    (hrun : organizeLogs dir t = (.ok report, u)) :
    ∃ loc logs, t.resolve true dir.route = .ok (.present loc .directory) ∧
      logs.Nodup ∧ (logs.Pairwise fun m n => m.le n = true) ∧
      (∀ n, n ∈ logs ↔ IsLog t loc n ∧ dir.Admits n) ∧
      report = .ofLogs dir logs ∧ Archives t u dir loc logs ∧
      (∀ n ∈ logs, ∀ d, n.logDate? = some d →
        ∃ content, t.readFile (dir.join n).route = .ok content ∧
          u.readFile ((dir.join d.bucket).join n).route = .ok content ∧
          FileTree.IsMissing (u.resolve false (dir.join n).route)) ∧
      organizeLogs dir u = (.ok { skipped := report.skipped }, u) := by
  obtain ⟨loc, hdir⟩ : ∃ loc, t.resolve true dir.route = .ok (.present loc .directory) := by
    by_contra hno
    obtain ⟨e, herror⟩ := exists_organizeLogs_eq_error fun loc hdir => hno ⟨loc, hdir⟩
    rw [herror] at hrun
    cases (Prod.mk.inj hrun).1
  have hfinds : t.Finds dir loc := ⟨hlinks, hdir⟩
  rw [organizeLogs_of_directory hdir] at hrun
  obtain ⟨rfl, harchives⟩ :=
    archives_fileLogs hfinds FileTree.nodup_children (fun _ => hnames.of_mem_children) hrun
  have hmem := fun n => mem_filter_takesUp (n := n) hfinds hnames
  refine ⟨loc, _, hdir, FileTree.nodup_children.filter _, FileTree.pairwise_children.filter _, hmem,
    rfl, harchives, fun n hn d hdate => ?_, ?_⟩
  · have hplain := hnames.of_mem_children (List.mem_filter.mp hn).1
    exact harchives.readFile_newPath hfinds hplain hn hdate
  have hagain := filter_takesUp_again hfinds hnames harchives
  rw [organizeLogs_of_directory (harchives.filed.finds hfinds).resolve, fileLogs_of_none, hagain,
    ArchiveReport.ofLogs_filter]
  intro n hn htakes
  have hlog := hagain ▸ List.mem_filter.mpr ⟨hn, htakes⟩
  exact of_decide_eq_true (List.mem_filter.mp hlog).2

/-- The name of a log of the next day. -/
def nextLog : Name :=
  .ofText "node1__2019-05-04_0900.log"

/-- The name of a log without a date. -/
def undatedLog : Name :=
  .ofText "undated.log"

/-- A directory with logs of all kinds, and a directory that is called like one. -/
def mixedLogs : FileTree :=
  resorted.put [.ofText "logs", nextLog] (.file "next")
    |>.put [.ofText "logs", undatedLog] (.file "undated")
    |>.put [.ofText "logs", .ofText "old__2019-05-05_0900.log"] .directory

theorem IsLog.of_mixedLogs (h : IsLog mixedLogs [.ofText "logs"] n) :
    n = sampleLog ∨ n = nextLog ∨ n = undatedLog := by
  have hentries : ∀ e ∈ mixedLogs.entries, e.1.length = 2 → e.2 ≠ .directory →
      e.1 ∈ [sampleLog, nextLog, undatedLog].map fun n => [.ofText "logs", n] := by
    decide
  obtain ⟨content, hfile⟩ := h.file
  have hmem := hentries _ (FileTree.mem_entries_of_get? (by simp) hfile) rfl (by simp)
  simpa using hmem

theorem organizeLogs_archives_mixed :
    mixedLogs.LinkFree ∧ mixedLogs.PlainNames ∧
      ∃ report u, organizeLogs (.ofText "logs") mixedLogs = (.ok report, u) ∧
        report.skipped = [.ofText "logs/undated.log"] ∧
        u.readFile (Path.ofText "logs/2019-05-03/node0__2019-05-03_1200.log").route =
          .ok "later" ∧
        organizeLogs (.ofText "logs") u = (.ok { skipped := report.skipped }, u) := by
  have hlinks : mixedLogs.LinkFree := FileTree.linkFree_of_entries (by decide)
  have hnames : mixedLogs.PlainNames := FileTree.plainNames_of_entries (by decide)
  have hfinds := finds_logs hlinks (by decide) (by decide)
  have hsample : sampleLog.logDate? = some sampleDate := by decide +kernel
  have hnext : nextLog.logDate? = some ⟨2019, 5, 4, by decide⟩ := by decide +kernel
  have hundated : undatedLog.logDate? = none := by decide +kernel
  have hfits : ∀ n, IsLog mixedLogs [.ofText "logs"] n → ∀ d, n.logDate? = some d →
      Fits mixedLogs (.ofText "logs") [.ofText "logs"] n d := by
    intro n hlog d hdate
    rcases hlog.of_mixedLogs with rfl | rfl | rfl
    · obtain rfl := Option.some.inj (hsample.symm.trans hdate)
      exact ⟨by decide, by decide, by decide⟩
    · obtain rfl := Option.some.inj (hnext.symm.trans hdate)
      exact ⟨by decide, by decide, by decide⟩
    · cases hundated.symm.trans hdate
  obtain ⟨report, u, hrun⟩ := exists_fileLogs_eq_ok hfinds FileTree.nodup_children
    (fun _ => hnames.of_mem_children) fun n _ => hfits n
  rw [← organizeLogs_of_directory hfinds.resolve] at hrun
  obtain ⟨loc, logs, hdir, hnodup, -, hlogs, rfl, harchives, hread, hagain⟩ :=
    organizeLogs_archives hlinks hnames hrun
  obtain rfl : loc = [.ofText "logs"] :=
    (Target.present.inj (Except.ok.inj (hdir.symm.trans hfinds.resolve))).1
  refine ⟨hlinks, hnames, _, u, hrun, ?_, ?_, hagain⟩
  · have hskipped : logs.filter (·.logDate? = none) = [undatedLog] := by
      refine List.perm_singleton.mp ((List.perm_ext_iff_of_nodup (hnodup.filter _)
        (List.nodup_singleton _)).mpr fun n => ?_)
      rw [List.mem_filter, hlogs, decide_eq_true_eq, List.mem_singleton]
      constructor
      · rintro ⟨⟨hlog, -⟩, hdate⟩
        rcases hlog.of_mixedLogs with rfl | rfl | rfl
        · cases hsample.symm.trans hdate
        · cases hnext.symm.trans hdate
        · rfl
      · rintro rfl
        have hname : undatedLog.text? = some "undated.log" := Name.text?_eq_some_iff.mpr rfl
        exact ⟨⟨⟨⟨_, hname, by decide⟩, "undated", by decide⟩, by decide⟩, hundated⟩
    have hpath : (Path.ofText "logs").join undatedLog = .ofText "logs/undated.log" := by decide
    rw [ArchiveReport.ofLogs, hskipped, List.map_singleton, hpath]
  · have hname := exists_isLogName_of_logDate? hsample
    have hfile : mixedLogs.get? ([.ofText "logs"] ++ [sampleLog]) = some (.file "later") := by
      decide
    have hadmits : (Path.ofText "logs").Admits sampleLog := by decide
    obtain ⟨content, hold, hnew, -⟩ :=
      hread _ ((hlogs _).mpr ⟨⟨hname, _, hfile⟩, hadmits⟩) _ hsample
    obtain rfl := Except.ok.inj ((hfinds.readFile_join (by decide) hadmits hfile).symm.trans hold)
    have hpath : ((Path.ofText "logs").join sampleDate.bucket).join sampleLog =
        .ofText "logs/2019-05-03/node0__2019-05-03_1200.log" := by decide
    rw [← hpath, hnew]

/-! ### A log that is passed over -/

/-- A directory with a log whose path is too long if the directory is spelled with slashes. -/
def overlookedLog : FileTree :=
  FileTree.empty.put [.ofText "o"] .directory
    |>.put [.ofText "o", undatedLog] (.file "undated")

/-- A log that cannot be looked up is neither moved nor skipped. -/
theorem not_forall_listed :
    ¬∀ (t u : FileTree) (dir : Path) (loc : Location) (report : ArchiveReport),
      t.LinkFree → t.PlainNames → t.resolve true dir.route = .ok (.present loc .directory) →
        organizeLogs dir t = (.ok report, u) →
          ∀ n, IsLog t loc n →
            dir.join n ∈ report.skipped ∨ ∃ new, (dir.join n, new) ∈ report.moved := by
  intro hall
  -- Thousands of slashes are needed, so their number is kept as a name.
  obtain ⟨count, hcount⟩ : ∃ count, count = 4084 := ⟨_, rfl⟩
  have hlength : (Name.ofText "o").bytes.length = 1 := by decide
  have hlinks : overlookedLog.LinkFree := FileTree.linkFree_of_entries (by decide)
  have hnames : overlookedLog.PlainNames := FileTree.plainNames_of_entries (by decide)
  have hfinds : overlookedLog.Finds (.padded (.ofText "o") count) [.ofText "o"] := by
    refine .of_route hlinks (Path.route_padded (by decide)) (by decide) (by decide) ?_ (by decide)
      (by decide)
    rw [hlength, hcount]
    decide
  have hlog : IsLog overlookedLog [.ofText "o"] undatedLog :=
    ⟨⟨"undated.log", Name.text?_eq_some_iff.mpr rfl, by decide⟩, "undated", by decide⟩
  have hnone : (overlookedLog.children [.ofText "o"]).filter
      (takesUp overlookedLog (.padded (.ofText "o") count)) = [] := by
    refine List.filter_eq_nil_iff.mpr fun n hn htakes => ?_
    obtain ⟨-, -, hfits⟩ := (takesUp_iff hfinds (hnames.of_mem_children hn)).mp htakes
    have hentries : ∀ e ∈ overlookedLog.entries, e.1.length = 2 →
        e.1 = [.ofText "o", undatedLog] := by decide
    obtain ⟨e, he⟩ := FileTree.mem_children.mp hn
    obtain rfl : n = undatedLog := by
      simpa using hentries _ (FileTree.mem_entries_of_get? (by simp) he) rfl
    rw [Path.length_join_padded, hlength, hcount] at hfits
    exact absurd hfits (by decide)
  have hrun : organizeLogs (.padded (.ofText "o") count) overlookedLog =
      (.ok {}, overlookedLog) := by
    have hundated : ∀ n ∈ overlookedLog.children [.ofText "o"],
        takesUp overlookedLog (.padded (.ofText "o") count) n = true → n.logDate? = none :=
      fun n hn htakes => absurd htakes (List.filter_eq_nil_iff.mp hnone n hn)
    rw [organizeLogs_of_directory hfinds.resolve, fileLogs_of_none hundated, hnone]
    rfl
  rcases hall _ _ _ _ _ hlinks hnames hfinds.resolve hrun undatedLog hlog with
    hskipped | ⟨new, hmoved⟩
  · cases hskipped
  · cases hmoved

end PeerOverlay
