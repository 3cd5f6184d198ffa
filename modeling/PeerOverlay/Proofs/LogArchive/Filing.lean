/-
What sorting a directory of logs does to the tree.

`Filed t u loc moved` says that some logs of a directory were moved into the directories of
their dates: each is at its new place and gone from its old one, and all else is as it was,
but for new directories named after dates.

* `filed_of_fileLog_eq_ok` — one log is moved;
* `filed_fileLogs` — going through names moves some of the logs of these names, whether it
  gets to the end or not;
* `filed_organizeLogs` — so does sorting a directory.

A log does not have the name of a date, so no log is moved to where another one was.
-/
import PeerOverlay.LogArchive
import PeerOverlay.Proofs.Calendar
import PeerOverlay.Proofs.FileTree.Moving
import PeerOverlay.Proofs.FileTree.Way

namespace PeerOverlay

open PeerOverlay.Text

/-- The date that a name is filed under. -/
def Name.logDate? (n : Name) : Option Date :=
  n.text?.bind PeerOverlay.logDate?

/-- The name of the directory for the logs of a date. -/
def Date.bucket (d : Date) : Name :=
  .ofText d.text

theorem Date.plain_bucket (d : Date) : d.bucket.Plain :=
  d.plain_text

theorem isLogName_iff {name : String} :
    isLogName name = true ↔ ".log".toList <:+ name.toList := by
  rw [isLogName, Option.isSome_iff_exists]
  simp only [dropSuffix?_eq_some_iff]
  exact exists_congr fun front => eq_comm

theorem isLogName_of_logDate? {text : String} {d : Date} (h : logDate? text = some d) :
    isLogName text = true := by
  rw [logDate?] at h
  by_contra hno
  simp [hno] at h

theorem exists_isLogName_of_logDate? {n : Name} {d : Date} (h : n.logDate? = some d) :
    ∃ text, n.text? = some text ∧ isLogName text = true := by
  obtain ⟨text, htext, hdate⟩ := Option.bind_eq_some_iff.mp h
  exact ⟨text, htext, isLogName_of_logDate? hdate⟩

/-- No log has the name of a date: it ends in a point and letters. -/
theorem Name.ne_bucket {n : Name} {d : Date} (h : n.logDate? = some d) (d' : Date) :
    n ≠ d'.bucket := by
  rintro rfl
  obtain ⟨text, htext, hname⟩ := exists_isLogName_of_logDate? h
  obtain rfl : text = d'.text :=
    Option.some.inj (htext.symm.trans (Name.text?_eq_some_iff.mpr rfl))
  obtain ⟨front, hfront⟩ := isLogName_iff.mp hname
  have hpoint : '.' ∈ d'.text.toList := by
    rw [← hfront]
    exact List.mem_append_right _ (by decide)
  exact absurd (d'.forall_mem_text _ hpoint) (by decide)

/-- The places that a log is moved between. -/
def Touches (loc : Location) (moved : List Name) (l : Location) : Prop :=
  ∃ n ∈ moved, l = loc ++ [n] ∨ ∃ d, n.logDate? = some d ∧ l = loc ++ [d.bucket, n]

/-- Some logs of a directory were moved into the directories of their dates. -/
structure Filed (t u : FileTree) (loc : Location) (moved : List Name) : Prop where
  workdir : u.workdir = t.workdir
  log : ∀ n ∈ moved, ∃ d content, n.logDate? = some d ∧
    t.get? (loc ++ [n]) = some (.file content) ∧ u.get? (loc ++ [n]) = none ∧
      t.TakesFile (loc ++ [d.bucket, n]) ∧
        u.get? (loc ++ [d.bucket, n]) = some (.file content)
  elsewhere : ∀ l, ¬Touches loc moved l → u.get? l = t.get? l ∨
    t.get? l = none ∧ u.get? l = some .directory ∧ ∃ d : Date, l = loc ++ [d.bucket]

variable {t u v : FileTree} {dir : Path} {loc l : Location} {n : Name} {d : Date}
  {moved moved' names : List Name}

theorem not_touches_log (h : n ∉ moved) : ¬Touches loc moved (loc ++ [n]) := by
  rintro ⟨n', hn', hl | ⟨d, -, hl⟩⟩
  · obtain rfl : n = n' := by simpa using hl
    exact h hn'
  · simp at hl

theorem not_touches_filed (h : n ∉ moved) (b : Name) : ¬Touches loc moved (loc ++ [b, n]) := by
  rintro ⟨n', hn', hl | ⟨d, -, hl⟩⟩
  · simp at hl
  · obtain ⟨-, rfl⟩ : b = d.bucket ∧ n = n' := by simpa using hl
    exact h hn'

theorem touches_append :
    Touches loc (moved ++ moved') l ↔ Touches loc moved l ∨ Touches loc moved' l := by
  simp only [Touches, List.mem_append, or_and_right, exists_or]

namespace Filed

theorem of_builds {sites : Location → Prop} (h : t.Builds u sites)
    (hsites : ∀ l, sites l → ∃ d : Date, l = loc ++ [d.bucket]) : Filed t u loc [] := by
  refine ⟨h.gains.workdir, fun _ hn => absurd hn List.not_mem_nil, fun l _ => ?_⟩
  rcases h.gains.get? l with hsame | ⟨hnone, e, he, rfl⟩
  · exact .inl hsame
  · exact .inr ⟨hnone, he, hsites l (h.mem_sites l hnone (by simp [he]))⟩

theorem refl (t : FileTree) (loc : Location) : Filed t t loc [] :=
  of_builds (.refl t fun _ => False) fun _ hl => hl.elim

theorem of_moves {content : String} (hdate : n.logDate? = some d)
    (h : t.Moves u (loc ++ [n]) (loc ++ [d.bucket, n]) content) : Filed t u loc [n] := by
  refine ⟨h.workdir, fun n' hn' => ?_, fun l hl => .inl ?_⟩
  · obtain rfl := List.mem_singleton.mp hn'
    refine ⟨d, content, hdate, h.source, ?_, h.takes, ?_⟩
    · rw [h.get?_eq, if_neg (by simp), if_pos rfl]
    · rw [h.get?_eq, if_pos rfl]
  · rw [h.get?_eq, if_neg, if_neg]
    · rintro rfl
      exact hl ⟨n, List.mem_singleton_self n, .inl rfl⟩
    · rintro rfl
      exact hl ⟨n, List.mem_singleton_self n, .inr ⟨d, hdate, rfl⟩⟩

/-- What is a file, or is none, at a place that no log is moved to or from stays so. -/
theorem get?_of_not_directory (h : Filed t u loc moved) (hl : ¬Touches loc moved l)
    (hdirectory : u.get? l ≠ some .directory) : u.get? l = t.get? l := by
  rcases h.elsewhere l hl with hsame | ⟨-, hmade, -⟩
  · exact hsame
  · exact absurd hmade hdirectory

theorem get?_of_some {e : Entry} (h : Filed t u loc moved) (hl : ¬Touches loc moved l)
    (he : t.get? l = some e) : u.get? l = some e := by
  rcases h.elsewhere l hl with hsame | ⟨hnone, -⟩
  · rw [hsame, he]
  · cases hnone.symm.trans he

/-- Other logs may be moved afterwards. -/
theorem trans (h : Filed t u loc moved) (hnext : Filed u v loc moved')
    (hdisjoint : ∀ n ∈ moved', n ∉ moved) : Filed t v loc (moved ++ moved') := by
  refine ⟨hnext.workdir.trans h.workdir, fun n hn => ?_, fun l hl => ?_⟩
  · rcases List.mem_append.mp hn with hn | hn
    · have hn' : n ∉ moved' := fun hmem => hdisjoint n hmem hn
      obtain ⟨d, content, hdate, hfile, hgone, htakes, hfiled⟩ := h.log n hn
      refine ⟨d, content, hdate, hfile, ?_, htakes,
        hnext.get?_of_some (not_touches_filed hn' _) hfiled⟩
      -- No directory is made in its old place, for no date is called like it.
      rcases hnext.elsewhere _ (not_touches_log hn') with hsame | ⟨-, -, d', hbucket⟩
      · rw [hsame, hgone]
      · exact absurd (by simpa using hbucket) (Name.ne_bucket hdate d')
    · have hn' := hdisjoint n hn
      obtain ⟨d, content, hdate, hfile, hgone, htakes, hfiled⟩ := hnext.log n hn
      refine ⟨d, content, hdate, ?_, hgone, ?_, hfiled⟩
      · rw [← h.get?_of_not_directory (not_touches_log hn') (by simp [hfile]), hfile]
      · -- Its new place is no directory, so the moves before have not touched it.
        have hplace : u.get? (loc ++ [d.bucket, n]) ≠ some .directory := by
          rcases htakes with ⟨old, hold⟩ | hnone
          · simp [hold]
          · simp [hnone]
        rwa [FileTree.TakesFile, h.get?_of_not_directory (not_touches_filed hn' _) hplace]
          at htakes
  · rw [touches_append, not_or] at hl
    rcases hnext.elsewhere l hl.2 with hsame | ⟨hnone, hmade, hbucket⟩
    · rw [hsame]
      exact h.elsewhere l hl.1
    · rw [h.get?_of_not_directory hl.1 (by simp [hnone])] at hnone
      exact .inr ⟨hnone, hmade, hbucket⟩

theorem finds (h : Filed t u loc moved) (hfinds : t.Finds dir loc) : u.Finds dir loc := by
  have hlinks : u.LinkFree := by
    intro l target hlink
    by_cases hl : Touches loc moved l
    · obtain ⟨n, hn, hl⟩ := hl
      obtain ⟨d, content, hdate, -, hgone, -, hfiled⟩ := h.log n hn
      rcases hl with rfl | ⟨d', hdate', rfl⟩
      · cases hgone.symm.trans hlink
      · obtain rfl := Option.some.inj (hdate.symm.trans hdate')
        cases hfiled.symm.trans hlink
    · rw [h.get?_of_not_directory hl (by simp [hlink])] at hlink
      exact hfinds.linkFree l target hlink
  have hkeeps : t.Keeps u := by
    refine ⟨h.workdir, fun {l} hdirectory => ?_, fun {l target} hlink => ?_⟩
    · refine h.get?_of_some ?_ hdirectory
      rintro ⟨n, hn, hl⟩
      obtain ⟨d, content, hdate, hfile, -, htakes, -⟩ := h.log n hn
      rcases hl with rfl | ⟨d', hdate', rfl⟩
      · cases hfile.symm.trans hdirectory
      · obtain rfl := Option.some.inj (hdate.symm.trans hdate')
        rcases htakes with ⟨old, hold⟩ | hnone
        · cases hold.symm.trans hdirectory
        · cases hnone.symm.trans hdirectory
    · exact absurd hlink (hfinds.linkFree l target)
  exact ⟨hlinks, FileTree.resolve_mono hkeeps hfinds.resolve⟩

end Filed

/-! ### One log -/

theorem filed_createDirAll (hfinds : t.Finds dir loc) (d : Date) :
    Filed t (t.createDirAll (dir.join d.bucket).route).2 loc [] :=
  .of_builds (hfinds.builds_createDirAll_join d.plain_bucket) fun _ hl => ⟨d, hl⟩

theorem filed_moveFile (hfinds : t.Finds dir loc)
    (hbucket : t.Finds (dir.join d.bucket) (loc ++ [d.bucket])) (hn : n.Plain)
    (hdate : n.logDate? = some d)
    (h : t.moveFile (dir.join n).route ((dir.join d.bucket).join n).route = .ok u) :
    Filed t u loc [n] := by
  obtain ⟨-, -, htakes, content, hfile, rfl⟩ :=
    (hfinds.moveFile_join_eq_ok_iff hbucket hn).mp h
  have hmoves := FileTree.Moves.of_put hfile htakes (htakes.accepts hbucket.get?_eq _)
  rw [List.append_assoc] at hmoves ⊢
  exact .of_moves hdate hmoves

/-- A log is moved once there is a directory of its date. -/
theorem exists_of_fileLog_eq_ok {target : Path} (h : fileLog dir n d t = (.ok target, u)) :
    target = (dir.join d.bucket).join n ∧
      ∃ p, t.createDirAll (dir.join d.bucket).route = (.ok (), p) ∧
        p.moveFile (dir.join n).route ((dir.join d.bucket).join n).route = .ok u := by
  simp only [fileLog, ← Date.bucket.eq_def] at h
  split at h
  next => cases (Prod.mk.inj h).1
  next p hcreate =>
    split at h
    next => cases (Prod.mk.inj h).1
    next w hmove =>
      obtain ⟨htarget, rfl⟩ := Prod.mk.inj h
      exact ⟨(Except.ok.inj htarget).symm, p, hcreate, hmove⟩

/-- **One log is moved.** -/
theorem filed_of_fileLog_eq_ok (hfinds : t.Finds dir loc) (hn : n.Plain)
    (hdate : n.logDate? = some d) {target : Path} (h : fileLog dir n d t = (.ok target, u)) :
    Filed t u loc [n] := by
  obtain ⟨-, p, hcreate, hmove⟩ := exists_of_fileLog_eq_ok h
  have hmade := filed_createDirAll hfinds d
  rw [hcreate] at hmade
  have hbucket := hfinds.finds_join_of_createDirAll d.plain_bucket hcreate
  have hmoved := filed_moveFile (hmade.finds hfinds) hbucket hn hdate hmove
  exact hmade.trans hmoved fun _ _ => List.not_mem_nil

theorem filed_of_fileLog_eq_error (hfinds : t.Finds dir loc) {e : ArchiveError}
    (h : fileLog dir n d t = (.error e, u)) : Filed t u loc [] := by
  have hmade := filed_createDirAll hfinds d
  simp only [fileLog, ← Date.bucket.eq_def] at h
  split at h
  next p hcreate =>
    rw [hcreate] at hmade
    exact (Prod.mk.inj h).2 ▸ hmade
  next p hcreate =>
    rw [hcreate] at hmade
    split at h
    next => exact (Prod.mk.inj h).2 ▸ hmade
    next => cases (Prod.mk.inj h).1

theorem fileLog_eq_ok (hfinds : t.Finds dir loc)
    (hbucket : t.Finds (dir.join d.bucket) (loc ++ [d.bucket])) (hn : n.Plain)
    (hadmits : dir.Admits n) (hadmits' : (dir.join d.bucket).Admits n)
    (htakes : t.TakesFile (loc ++ [d.bucket, n])) {content : String}
    (hfile : t.get? (loc ++ [n]) = some (.file content)) :
    ∃ target u, fileLog dir n d t = (.ok target, u) := by
  have htakes : t.TakesFile (loc ++ [d.bucket] ++ [n]) := by rwa [List.append_assoc]
  have hmove := (hfinds.moveFile_join_eq_ok_iff hbucket hn).mpr
    ⟨hadmits, hadmits', htakes, content, hfile, rfl⟩
  have hcreate := FileTree.createDirAll_of_isDirectory
    (FileTree.isDirectory_iff.mpr ⟨_, hbucket.resolve⟩)
  simp only [fileLog, ← Date.bucket.eq_def, hcreate, hmove]
  exact ⟨_, _, rfl⟩

/-! ### One name after the other -/

/-- A file directly in a directory that is called like a log. -/
structure IsLog (t : FileTree) (loc : Location) (n : Name) : Prop where
  name : ∃ text, n.text? = some text ∧ isLogName text = true
  file : ∃ content, t.get? (loc ++ [n]) = some (.file content)

/-- Whether a run takes up a name that it comes to. -/
def takesUp (t : FileTree) (dir : Path) (n : Name) : Bool :=
  (n.text?.filter fun text => t.isFile (dir.join n).route && isLogName text).isSome

/-- **A run takes up the logs of a directory,** but those that cannot be looked up. -/
theorem takesUp_iff (hfinds : t.Finds dir loc) (hn : n.Plain) :
    takesUp t dir n = true ↔ IsLog t loc n ∧ dir.Admits n := by
  have hfile : t.isFile (dir.join n).route = true ↔
      dir.Admits n ∧ ∃ content, t.get? (loc ++ [n]) = some (.file content) := by
    rw [FileTree.isFile_iff_exists_readFile]
    simp only [hfinds.readFile_join_eq_ok_iff hn, exists_and_left]
  rw [takesUp, Option.isSome_iff_exists]
  simp only [Option.filter_eq_some_iff, Bool.and_eq_true, hfile]
  constructor
  · rintro ⟨text, htext, ⟨hadmits, hcontent⟩, hname⟩
    exact ⟨⟨⟨text, htext, hname⟩, hcontent⟩, hadmits⟩
  · rintro ⟨⟨⟨text, htext, hname⟩, hcontent⟩, hadmits⟩
    exact ⟨text, htext, ⟨hadmits, hcontent⟩, hname⟩

theorem fileLogs_cons_of_not (h : takesUp t dir n = false) :
    fileLogs dir (n :: names) t = fileLogs dir names t := by
  rw [takesUp, Option.isSome_eq_false_iff, Option.isNone_iff_eq_none] at h
  simp only [fileLogs, h]

/-- The date of a name that is taken up is the one in its text. -/
theorem exists_text_of_takesUp (h : takesUp t dir n = true) :
    ∃ text, (n.text?.filter fun text => t.isFile (dir.join n).route && isLogName text) =
        some text ∧ logDate? text = n.logDate? := by
  obtain ⟨text, htext⟩ := Option.isSome_iff_exists.mp h
  refine ⟨text, htext, ?_⟩
  rw [Name.logDate?, (Option.filter_eq_some_iff.mp htext).1]
  rfl

theorem fileLogs_cons_of_none (h : takesUp t dir n = true) (hdate : n.logDate? = none) :
    fileLogs dir (n :: names) t =
      ((fileLogs dir names t).1.map fun r => { r with skipped := dir.join n :: r.skipped },
        (fileLogs dir names t).2) := by
  obtain ⟨text, htext, hlog⟩ := exists_text_of_takesUp h
  simp only [fileLogs, htext, hlog, hdate]

theorem fileLogs_cons_of_error (h : takesUp t dir n = true) (hdate : n.logDate? = some d)
    {e : ArchiveError} (herror : fileLog dir n d t = (.error e, u)) :
    fileLogs dir (n :: names) t = (.error e, u) := by
  obtain ⟨text, htext, hlog⟩ := exists_text_of_takesUp h
  simp only [fileLogs, htext, hlog, hdate, herror]

theorem fileLogs_cons_of_ok (h : takesUp t dir n = true) (hdate : n.logDate? = some d)
    {target : Path} (hok : fileLog dir n d t = (.ok target, u)) :
    fileLogs dir (n :: names) t =
      ((fileLogs dir names u).1.map fun r => { r with moved := (dir.join n, target) :: r.moved },
        (fileLogs dir names u).2) := by
  obtain ⟨text, htext, hlog⟩ := exists_text_of_takesUp h
  simp only [fileLogs, htext, hlog, hdate, hok]

/-! ### All logs -/

/-- Going through names moves some of the logs of these names. -/
theorem filed_fileLogs (hfinds : t.Finds dir loc) (hnames : names.Nodup)
    (hplain : ∀ n ∈ names, n.Plain) :
    ∃ moved, moved.Sublist names ∧ Filed t (fileLogs dir names t).2 loc moved := by
  induction names generalizing t with
  | nil => exact ⟨[], .refl _, .refl t loc⟩
  | cons n rest ih =>
    obtain ⟨hn, hrest⟩ := List.nodup_cons.mp hnames
    obtain ⟨hplain_n, hplain⟩ := List.forall_mem_cons.mp hplain
    have ih := fun {t : FileTree} (h : t.Finds dir loc) => ih h hrest hplain
    rcases htakes : takesUp t dir n
    case false =>
      rw [fileLogs_cons_of_not htakes]
      obtain ⟨moved, hsub, hfiled⟩ := ih hfinds
      exact ⟨moved, hsub.cons n, hfiled⟩
    rcases hdate : n.logDate? with _ | d
    · rw [fileLogs_cons_of_none htakes hdate]
      obtain ⟨moved, hsub, hfiled⟩ := ih hfinds
      exact ⟨moved, hsub.cons n, hfiled⟩
    rcases hfile : fileLog dir n d t with ⟨e | target, u⟩
    · rw [fileLogs_cons_of_error htakes hdate hfile]
      exact ⟨[], List.nil_sublist _, filed_of_fileLog_eq_error hfinds hfile⟩
    · rw [fileLogs_cons_of_ok htakes hdate hfile]
      have hfirst := filed_of_fileLog_eq_ok hfinds hplain_n hdate hfile
      obtain ⟨moved, hsub, hfiled⟩ := ih (hfirst.finds hfinds)
      refine ⟨n :: moved, hsub.cons_cons n, hfirst.trans hfiled fun m hm => ?_⟩
      rw [List.mem_singleton]
      rintro rfl
      exact hn (hsub.subset hm)

/-- Every name in the tree stands for itself on a path, as in any directory there is. -/
def FileTree.PlainNames (t : FileTree) : Prop :=
  ∀ loc n e, t.get? (loc ++ [n]) = some e → n.Plain

theorem FileTree.PlainNames.of_mem_children (hnames : t.PlainNames) (hn : n ∈ t.children loc) :
    n.Plain := by
  obtain ⟨e, he⟩ := mem_children.mp hn
  exact hnames loc n e he

theorem organizeLogs_of_directory
    (h : t.resolve true dir.route = .ok (.present loc .directory)) :
    organizeLogs dir t = fileLogs dir (t.children loc) t := by
  rw [organizeLogs, FileTree.readDir, h]

/-- Where there is no directory, nothing is done. -/
theorem exists_organizeLogs_eq_error
    (h : ∀ loc, t.resolve true dir.route ≠ .ok (.present loc .directory)) :
    ∃ e, organizeLogs dir t = (.error e, t) := by
  rw [organizeLogs, FileTree.readDir]
  rcases hresolve : t.resolve true dir.route with _ | ⟨loc, _ | _ | _⟩ | _
  case ok.present.directory => exact absurd hresolve (h loc)
  all_goals exact ⟨_, rfl⟩

/-- **Sorting a directory moves some of its logs and changes nothing else,** whether it gets to
the end or not. -/
theorem filed_organizeLogs (hfinds : t.Finds dir loc) (hnames : t.PlainNames) :
    ∃ moved, moved.Nodup ∧ Filed t (organizeLogs dir t).2 loc moved := by
  rw [organizeLogs_of_directory hfinds.resolve]
  obtain ⟨moved, hsub, hfiled⟩ :=
    filed_fileLogs hfinds FileTree.nodup_children fun n => hnames.of_mem_children
  exact ⟨moved, FileTree.nodup_children.sublist hsub, hfiled⟩

/-- Names without a date change nothing. -/
theorem fileLogs_append {front : List Name} (hfront : ∀ m ∈ front, m.logDate? = none) :
    (fileLogs dir (front ++ names) t).2 = (fileLogs dir names t).2 := by
  induction front with
  | nil => rfl
  | cons m rest ih =>
    obtain ⟨hm, hrest⟩ := List.forall_mem_cons.mp hfront
    rw [List.cons_append, ← ih hrest]
    rcases htakes : takesUp t dir m
    · rw [fileLogs_cons_of_not htakes]
    · rw [fileLogs_cons_of_none htakes hm]

/-- The only dated log of a directory is moved if there is a directory of its date. -/
theorem exists_filed_of_only (hfinds : t.Finds dir loc) (hnames : t.PlainNames)
    (hbucket : t.Finds (dir.join d.bucket) (loc ++ [d.bucket])) (hdate : n.logDate? = some d)
    (honly : ∀ m, t.get? (loc ++ [m]) ≠ none → m ≠ n → m.logDate? = none)
    (hadmits : dir.Admits n) (hadmits' : (dir.join d.bucket).Admits n)
    (htakes : t.TakesFile (loc ++ [d.bucket, n])) {content : String}
    (hfile : t.get? (loc ++ [n]) = some (.file content)) :
    ∃ moved, n ∈ moved ∧ Filed t (organizeLogs dir t).2 loc moved := by
  have hn : n ∈ t.children loc := FileTree.mem_children.mpr ⟨_, hfile⟩
  have hplain := hnames.of_mem_children hn
  obtain ⟨target, p, hok⟩ := fileLog_eq_ok hfinds hbucket hplain hadmits hadmits' htakes hfile
  have hfirst := filed_of_fileLog_eq_ok hfinds hplain hdate hok
  have htakesUp := (takesUp_iff hfinds hplain).mpr
    ⟨⟨exists_isLogName_of_logDate? hdate, content, hfile⟩, hadmits⟩
  -- The names before the log are passed over, and those after it cannot bring it back.
  obtain ⟨front, back, hsplit⟩ := List.append_of_mem hn
  have hnodup : (front ++ n :: back).Nodup := hsplit ▸ FileTree.nodup_children
  obtain ⟨-, hrest, hdisjoint⟩ := List.nodup_append.mp hnodup
  obtain ⟨hback, hnodupBack⟩ := List.nodup_cons.mp hrest
  have hfront : ∀ m ∈ front, m.logDate? = none := by
    intro m hm
    obtain ⟨e, he⟩ := FileTree.mem_children.mp (hsplit ▸ List.mem_append_left _ hm)
    exact honly m (by simp [he]) (hdisjoint m hm n List.mem_cons_self)
  have hrun : (organizeLogs dir t).2 = (fileLogs dir back p).2 := by
    rw [organizeLogs_of_directory hfinds.resolve, hsplit, fileLogs_append hfront,
      fileLogs_cons_of_ok htakesUp hdate hok]
  obtain ⟨moved, hsub, hfiled⟩ := filed_fileLogs (hfirst.finds hfinds) hnodupBack fun m hm =>
    hnames.of_mem_children (hsplit ▸ List.mem_append_right _ (List.mem_cons_of_mem _ hm))
  refine ⟨n :: moved, List.mem_cons_self, ?_⟩
  rw [hrun]
  refine hfirst.trans hfiled fun m hm => ?_
  rw [List.mem_singleton]
  rintro rfl
  exact hback (hsub.subset hm)

theorem organizeLogs_of_not_directory
    (h : ∀ loc, t.resolve true dir.route ≠ .ok (.present loc .directory)) :
    (organizeLogs dir t).2 = t := by
  obtain ⟨e, herror⟩ := exists_organizeLogs_eq_error h
  rw [herror]

end PeerOverlay
