/-
Dates in the names of logs.

* `splitAtMarker?_append`, `append_of_splitAtMarker?` — a text is split at its first double
  underscore;
* `dropBytes?_append` — characters of so many bytes are dropped;
* `logDate?_append` — the date is read from every name that is written as names of logs are;
* `logDate?_written` — this for all dates, and what a name with a date is made of.
-/
import PeerOverlay.Proofs.LogArchive.Filing

namespace PeerOverlay

open PeerOverlay.Text

/-- What stands in front of the date. -/
def marker : List Char :=
  ['_', '_']

variable {cs front rest back piece : List Char} {name : String} {d : Date}

/-! ### The first double underscore -/

/-- **A text is split at a double underscore** if none begins before it. -/
theorem splitAtMarker?_append (h : ¬marker <:+: front ++ ['_']) (rest : List Char) :
    splitAtMarker? (front ++ marker ++ rest) = some (front, rest) := by
  induction front with
  | nil => rfl
  | cons c front ih =>
    have ih := ih fun hinfix => h (List.infix_cons hinfix)
    rw [List.append_assoc, List.cons_append, splitAtMarker?]
    · rw [← List.append_assoc, ih]
      rfl
    · -- Two underscores here would begin before the marker.
      rintro rest' rfl hnext
      cases front with
      | nil => exact h List.infix_rfl
      | cons c front =>
        obtain rfl := (List.cons.inj hnext).1
        exact h ⟨[], front ++ ['_'], rfl⟩

theorem append_of_splitAtMarker? (h : splitAtMarker? cs = some (front, rest)) :
    cs = front ++ marker ++ rest := by
  fun_induction splitAtMarker? cs generalizing front with
  | case1 => cases h
  | case2 rest' =>
    obtain ⟨rfl, rfl⟩ := Prod.mk.inj (Option.some.inj h)
    rfl
  | case3 c cs _ ih =>
    obtain ⟨⟨front', rest'⟩, hsplit, hpair⟩ := Option.map_eq_some_iff.mp h
    obtain ⟨rfl, rfl⟩ := Prod.mk.inj hpair
    rw [ih hsplit]
    rfl

theorem splitAtMarker?_eq_none (h : ¬marker <:+: cs) : splitAtMarker? cs = none := by
  refine Option.eq_none_iff_forall_ne_some.mpr fun ⟨front, rest⟩ hsplit => h ?_
  exact ⟨front, rest, (append_of_splitAtMarker? hsplit).symm⟩

theorem markedPiece?_append (hfront : ¬marker <:+: front ++ ['_']) (hpiece : ¬marker <:+: piece) :
    markedPiece? (front ++ marker ++ piece) = some piece := by
  rw [markedPiece?, splitAtMarker?_append hfront, Option.bind_eq_bind, Option.bind_some]
  simp only [splitAtMarker?_eq_none hpiece]
  rfl

theorem marker_infix_of_markedPiece? (h : markedPiece? cs = some piece) : marker <:+: cs := by
  obtain ⟨⟨front, rest⟩, hsplit, -⟩ := Option.bind_eq_some_iff.mp h
  exact ⟨front, rest, (append_of_splitAtMarker? hsplit).symm⟩

/-- No double underscore begins or ends in a text without underscores. -/
theorem marker_infix_append (h : marker <:+: front ++ back) (hone : '_' ∉ front ∨ '_' ∉ back) :
    marker <:+: front ∨ marker <:+: back := by
  rcases List.infix_append_iff_ne_nil.mp h with
    hfront | hback | ⟨cs, cs', hne, hne', heq, hcs, hcs'⟩
  · exact .inl hfront
  · exact .inr hback
  · have hends : '_' ∈ cs ∧ '_' ∈ cs' := by
      have hmarker : ∀ c ∈ marker, c = '_' := by simp [marker]
      have hall : ∀ c ∈ cs ++ cs', c = '_' := heq ▸ hmarker
      obtain ⟨c, hc⟩ := List.exists_mem_of_ne_nil cs hne
      obtain ⟨c', hc'⟩ := List.exists_mem_of_ne_nil cs' hne'
      exact ⟨hall c (List.mem_append_left _ hc) ▸ hc, hall c' (List.mem_append_right _ hc') ▸ hc'⟩
    exact (hone.elim (· (hcs.subset hends.1)) (· (hcs'.subset hends.2))).elim

/-! ### Bytes -/

/-- **Characters that fill so many bytes are dropped.** -/
theorem dropBytes?_append (front rest : List Char) :
    dropBytes? (front.flatMap String.utf8EncodeChar).length (front ++ rest) = some rest := by
  induction front with
  | nil => rw [List.flatMap_nil, List.length_nil, List.nil_append, dropBytes?]
  | cons c front ih =>
    have hpos := c.utf8Size_pos
    have hlength : ((c :: front).flatMap String.utf8EncodeChar).length =
        c.utf8Size + (front.flatMap String.utf8EncodeChar).length := by
      rw [List.flatMap_cons, List.length_append, String.length_utf8EncodeChar]
    obtain ⟨count, hcount⟩ :
        ∃ count, c.utf8Size + (front.flatMap String.utf8EncodeChar).length = count + 1 :=
      Nat.exists_eq_succ_of_ne_zero (by omega)
    rw [hlength, hcount, List.cons_append, dropBytes?, if_pos (by omega), ← hcount,
      Nat.add_sub_cancel_left, ih]

/-! ### Names of logs -/

theorem underscore_not_mem_text (d : Date) : '_' ∉ d.text.toList := fun hmem =>
  absurd (d.forall_mem_text '_' hmem) (by decide)

/-- **The date is read from a name that is written as names of logs are.** -/
theorem logDate?_append {front stamp : String} (hfront : ¬marker <:+: front.toList ++ ['_'])
    (hsize : stamp.utf8ByteSize = 5) (hstamp : ¬marker <:+: stamp.toList) (d : Date) :
    logDate? (front ++ "__" ++ d.text ++ stamp ++ ".log") = some d := by
  have hname : (front ++ "__" ++ d.text ++ stamp ++ ".log").toList =
      front.toList ++ marker ++ (d.text.toList ++ (stamp.toList ++ ".log".toList)) := by
    simp [marker]
  have hlog : isLogName (front ++ "__" ++ d.text ++ stamp ++ ".log") = true :=
    isLogName_iff.mpr ⟨(front ++ "__" ++ d.text ++ stamp).toList, by simp⟩
  have hpiece : ¬marker <:+: d.text.toList ++ (stamp.toList ++ ".log".toList) := by
    intro hinfix
    rcases marker_infix_append hinfix (.inl (underscore_not_mem_text d)) with hdate | hinfix
    · exact underscore_not_mem_text d (hdate.subset (by decide))
    · rcases marker_infix_append hinfix (.inr (by decide)) with hinfix | hending
      · exact hstamp hinfix
      · exact absurd (hending.subset (by decide)) (show '_' ∉ ".log".toList by decide)
  have hbytes : ((stamp.toList ++ ".log".toList).reverse.flatMap String.utf8EncodeChar).length =
      stampBytes := by
    rw [((List.reverse_perm _).flatMap_right _).length_eq, List.flatMap_append, List.length_append,
      ← Utf8.utf8ByteSize_eq_length, hsize]
    decide
  have hdrop : dropBytes? stampBytes (d.text.toList ++ (stamp.toList ++ ".log".toList)).reverse =
      some d.text.toList.reverse := by
    rw [List.reverse_append, ← hbytes, dropBytes?_append]
  rw [logDate?, hlog, hname, markedPiece?_append hfront hpiece]
  simp only [Bool.not_true, Bool.false_eq_true, if_false, Option.bind_eq_bind, Option.bind_some,
    hdrop, Option.map_some, List.reverse_reverse, Date.parse?_text]

theorem marker_infix_of_logDate? (h : logDate? name = some d) : marker <:+: name.toList := by
  rw [logDate?, isLogName_of_logDate? h] at h
  obtain ⟨piece, hpiece, -⟩ := Option.bind_eq_some_iff.mp h
  exact marker_infix_of_markedPiece? hpiece

/-- The date that the name of a directory spells. -/
def Name.bucketDate? (n : Name) : Option Date :=
  n.text?.bind fun text => Date.parse? text.toList

/-- **The directory of a date says which date it is of.** -/
theorem Date.bucketDate?_bucket (d : Date) : d.bucket.bucketDate? = some d := by
  have htext : d.bucket.text? = some d.text := Name.text?_eq_some_iff.mpr rfl
  rw [Name.bucketDate?, htext, Option.bind_some, d.parse?_text]

theorem Date.bucket_injective : Function.Injective Date.bucket := by
  intro d d' h
  exact Option.some.inj (d.bucketDate?_bucket.symm.trans (h ▸ d'.bucketDate?_bucket))

/-- **The date of a log is read from its name**, whatever the date and the time stamp are.  A name
with a date is a log's, and names are filed in one directory exactly if they have one date. -/
theorem logDate?_written :
    (∀ (d : Date) (front stamp : String), ¬marker <:+: front.toList →
      front.toList.getLast? ≠ some '_' → stamp.utf8ByteSize = 5 → ¬marker <:+: stamp.toList →
        logDate? (front ++ "__" ++ d.text ++ stamp ++ ".log") = some d) ∧
    (∀ (name : String) (d : Date), logDate? name = some d →
      ".log".toList <:+ name.toList ∧ marker <:+: name.toList ∧ d.bucket.bucketDate? = some d) ∧
    ∀ name name' : String, (logDate? name).map Date.bucket = (logDate? name').map Date.bucket ↔
      logDate? name = logDate? name' := by
  refine ⟨fun d front stamp hfront hlast hsize hstamp => ?_, fun name d h => ?_, ?_⟩
  · refine logDate?_append (fun hinfix => ?_) hsize hstamp d
    rcases List.infix_concat_iff.mp hinfix with hsuffix | hinfix
    · obtain hnil | ⟨cs, heq, hcs⟩ := List.suffix_concat_iff.mp hsuffix
      · cases hnil
      · obtain rfl : ['_'] = cs :=
          List.append_inj_left' (show ['_'] ++ ['_'] = cs ++ ['_'] from heq) rfl
        exact hlast (List.singleton_suffix_iff_getLast?_eq_some.mp hcs)
    · exact hfront hinfix
  · exact ⟨isLogName_iff.mp (isLogName_of_logDate? h), marker_infix_of_logDate? h,
      d.bucketDate?_bucket⟩
  · intro name name'
    exact (Option.map_injective Date.bucket_injective).eq_iff

/-- A day of a year that is written with a sign. -/
def ancientDate : Date :=
  ⟨-44, 3, 15, by decide⟩

theorem logDate?_written_signed :
    logDate? "node_3__-0044-03-15_é12.log" = some ancientDate ∧
      (".log".toList <:+ "node_3__-44-3- 15_é12.log".toList ∧
        marker <:+: "node_3__-44-3- 15_é12.log".toList ∧
          ancientDate.bucket.bucketDate? = some ancientDate) ∧
      (logDate? "node_3__-0044-03-15_é12.log").map Date.bucket =
        (logDate? "node_3__-44-3- 15_é12.log").map Date.bucket := by
  obtain ⟨hwritten, hread, hshared⟩ := logDate?_written
  have hdate := hwritten ancientDate "node_3" "_é12" (by decide) (by decide) (by decide) (by decide)
  have htext : "node_3" ++ "__" ++ ancientDate.text ++ "_é12" ++ ".log" =
      "node_3__-0044-03-15_é12.log" := by decide
  rw [htext] at hdate
  have hloose : logDate? "node_3__-44-3- 15_é12.log" = some ancientDate := by decide +kernel
  exact ⟨hdate, hread _ _ hloose, (hshared _ _).mpr (hdate.trans hloose.symm)⟩

end PeerOverlay
