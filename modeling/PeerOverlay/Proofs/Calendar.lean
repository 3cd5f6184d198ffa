/-
Written dates.

* `Date.forall_mem_text` — what the written form of a date consists of;
* `Date.plain_text` — a written date can be the name of a directory on a path;
* `Date.digits?_append` — a run of digits is read up to where it ends or the width is used up;
* `Date.parse?_text` — the written form of every date the calendar holds is read back.
-/
import PeerOverlay.Calendar
import PeerOverlay.Proofs.FileTree.NameText
import PeerOverlay.Proofs.Text.Numeral

namespace PeerOverlay

open PeerOverlay.Text

namespace Date

variable {c : Char} {width n : Nat} {year : Int} {run rest : List Char}

theorem isDigit_of_mem_padded (h : c ∈ padded width n) : c.isDigit = true := by
  rcases List.mem_append.mp h with hzero | hdigit
  · rw [(List.mem_replicate.mp hzero).2]
    rfl
  · exact isDigit_of_mem_numeral hdigit

theorem forall_mem_yearText (h : c ∈ yearText year) :
    c.isDigit = true ∨ c = '-' ∨ c = '+' := by
  unfold yearText at h
  split at h
  · rcases List.mem_cons.mp h with hsign | hdigit
    · exact .inr (.inl hsign)
    · exact .inl (isDigit_of_mem_padded hdigit)
  · split at h
    · exact .inl (isDigit_of_mem_padded h)
    · rcases List.mem_cons.mp h with hsign | hdigit
      · exact .inr (.inr hsign)
      · exact .inl (isDigit_of_mem_padded hdigit)

/-- A written date consists of digits, hyphens and a sign. -/
theorem forall_mem_text (d : Date) : ∀ c ∈ d.text.toList, c.isDigit = true ∨ c = '-' ∨ c = '+' := by
  intro c hc
  simp only [text, String.toList_ofList, List.mem_append, List.mem_cons] at hc
  rcases hc with (hyear | rfl | hmonth) | rfl | hday
  · exact forall_mem_yearText hyear
  · exact .inr (.inl rfl)
  · exact .inl (isDigit_of_mem_padded hmonth)
  · exact .inr (.inl rfl)
  · exact .inl (isDigit_of_mem_padded hday)

/-- **A written date can be the name of a directory on a path.** -/
theorem plain_text (d : Date) : (Name.ofText d.text).Plain := by
  have hhyphen : '-' ∈ d.text.toList := by simp [text]
  refine Name.Plain.ofText (fun c hc => ?_) hhyphen (by decide)
  rcases d.forall_mem_text c hc with hdigit | rfl | rfl
  · obtain ⟨hlow, hslash, hhigh⟩ := val_of_isDigit hdigit
    exact ⟨UInt32.lt_of_lt_of_le (by decide) hlow, hslash, hhigh⟩
  · decide
  · decide

/-! ### Reading back -/

theorem padded_ne_nil (width n : Nat) : padded width n ≠ [] :=
  List.append_ne_nil_of_right_ne_nil _ (numeral_ne_nil n)

/-- Zeros in front do not change the value. -/
theorem number?_padded (width n : Nat) : number? (padded width n) = some n := by
  refine number?_eq_some_iff.mpr ⟨padded_ne_nil width n, fun c hc => isDigit_of_mem_padded hc, ?_⟩
  rw [padded, Nat.ofDigitChars_append, Nat.ofDigitChars_replicate_zero, Nat.mul_zero]
  exact (number?_eq_some_iff.mp (number?_numeral n)).2.2

theorem length_padded (h : (numeral n).length ≤ width) : (padded width n).length = width := by
  rw [padded, List.length_append, List.length_replicate, Nat.sub_add_cancel h]

/-- **A run of digits is read** if it fits the width and no more digits follow. -/
theorem digits?_append (hrun : number? run = some n) (hlength : run.length ≤ width)
    (hrest : ∀ c ∈ rest.head?, c.isDigit = false) :
    digits? width (run ++ rest) = some (n, rest) := by
  obtain ⟨-, hdigits, -⟩ := number?_eq_some_iff.mp hrun
  have hend : (rest.take (width - run.length)).takeWhile Char.isDigit = [] := by
    cases rest with
    | nil => rw [List.take_nil, List.takeWhile_nil]
    | cons c rest =>
      cases width - run.length with
      | zero => rfl
      | succ k => rw [List.take_succ_cons, List.takeWhile_cons_of_neg (by simp [hrest c rfl])]
  have htaken : ((run ++ rest).take width).takeWhile Char.isDigit = run := by
    rw [List.take_append, List.take_of_length_le hlength, List.takeWhile_append_of_pos hdigits,
      hend, List.append_nil]
  rw [digits?]
  simp only [htaken, hrun, Option.map_some, List.drop_left]

/-- A padded numeral begins with a digit. -/
theorem exists_padded_eq_cons (width n : Nat) :
    ∃ c cs, padded width n = c :: cs ∧ c.isDigit = true := by
  obtain ⟨c, cs, hcons⟩ := List.exists_cons_of_ne_nil (padded_ne_nil width n)
  exact ⟨c, cs, hcons, isDigit_of_mem_padded (hcons ▸ List.mem_cons_self)⟩

theorem dropWhile_isBlank_padded (width n : Nat) (rest : List Char) :
    (padded width n ++ rest).dropWhile isBlank = padded width n ++ rest := by
  obtain ⟨c, cs, hcons, hdigit⟩ := exists_padded_eq_cons width n
  rw [hcons, List.cons_append, List.dropWhile_cons_of_neg (by simp [isBlank_of_isDigit hdigit])]

theorem year?_minus (cs : List Char) :
    year? ('-' :: cs) = (digits? cs.length cs).map fun r => (-(r.1 : Int), r.2) := by
  rw [year?, List.dropWhile_cons_of_neg (by decide)]
  rfl

theorem year?_plus (cs : List Char) :
    year? ('+' :: cs) = (digits? cs.length cs).map fun r => ((r.1 : Int), r.2) := by
  rw [year?, List.dropWhile_cons_of_neg (by decide)]
  rfl

theorem year?_padded (width n : Nat) (rest : List Char) :
    year? (padded width n ++ rest) =
      (digits? 4 (padded width n ++ rest)).map fun r => ((r.1 : Int), r.2) := by
  obtain ⟨c, cs, hcons, hdigit⟩ := exists_padded_eq_cons width n
  rw [year?, dropWhile_isBlank_padded, hcons, List.cons_append]
  split
  next hminus =>
    obtain rfl := (List.cons.inj hminus).1
    cases hdigit
  next hplus =>
    obtain rfl := (List.cons.inj hplus).1
    cases hdigit
  next => rfl

/-- **A year is read with all the digits it is written with.** -/
theorem year?_yearText (hrest : ∀ c ∈ rest.head?, c.isDigit = false) :
    year? (yearText year ++ rest) = some (year, rest) := by
  -- After a sign all digits belong to the year.
  have hsigned : digits? (padded 4 year.natAbs ++ rest).length (padded 4 year.natAbs ++ rest) =
      some (year.natAbs, rest) :=
    digits?_append (number?_padded 4 year.natAbs) (by simp) hrest
  rw [yearText]
  split
  next hneg =>
    rw [List.cons_append, year?_minus, hsigned, Option.map_some,
      Int.ofNat_natAbs_of_nonpos (Int.le_of_lt hneg), Int.neg_neg]
  next hnonneg =>
    have hvalue : (year.natAbs : Int) = year := Int.natAbs_of_nonneg (by omega)
    split
    next hshort =>
      have hlength : (numeral year.natAbs).length ≤ 4 :=
        (Nat.length_toDigits_le_iff (by decide) (by decide)).mpr
          (Nat.lt_of_le_of_lt (show year.natAbs ≤ 9999 by omega) (by decide))
      have hread := digits?_append (number?_padded 4 year.natAbs)
        (Nat.le_of_eq (length_padded hlength)) hrest
      rw [year?_padded, hread, Option.map_some, hvalue]
    next hlong =>
      rw [List.cons_append, year?_plus, hsigned, Option.map_some, hvalue]

theorem field?_padded (h : n < 100) (hrest : ∀ c ∈ rest.head?, c.isDigit = false) :
    field? ('-' :: (padded 2 n ++ rest)) = some (n, rest) := by
  have hlength : (numeral n).length ≤ 2 :=
    (Nat.length_toDigits_le_iff (by decide) (by decide)).mpr (Nat.lt_of_lt_of_le h (by decide))
  rw [field?, dropWhile_isBlank_padded]
  exact digits?_append (number?_padded 2 n) (Nat.le_of_eq (length_padded hlength)) hrest

/-- **The written form of every date is read back.** -/
theorem parse?_text (d : Date) : parse? d.text.toList = some d := by
  obtain ⟨hmonth, hday⟩ : d.month < 100 ∧ d.day < 100 := by
    have hvalid := d.valid
    simp only [isCalendarDay, Bool.and_eq_true, decide_eq_true_eq] at hvalid
    have hdays : daysInMonth d.year d.month ≤ 31 := by
      rw [daysInMonth]
      split
      · split <;> decide
      · split <;> decide
    omega
  have hhyphen : ∀ cs : List Char, ∀ c ∈ ('-' :: cs).head?, c.isDigit = false := by simp
  have htext : d.text.toList =
      yearText d.year ++ ('-' :: (padded 2 d.month ++ ('-' :: (padded 2 d.day ++ [])))) := by
    simp [text]
  rw [htext, parse?, year?_yearText (hhyphen _)]
  simp only [Option.bind_eq_bind, Option.bind_some]
  rw [field?_padded hmonth (hhyphen _), Option.bind_some, field?_padded hday (by simp),
    Option.bind_some, if_pos rfl, of?, dif_pos d.valid]

end Date

end PeerOverlay
