/-
Reading an INI text.

A reader takes the text line by line and cuts each line at the first ` = `; what it finds are
the `assignments` of the text.  An artifact is written as one assignment after the other, each
with a line break behind it, but a key or a value may itself hold line breaks.  So the reader
finds, for each assignment written, all those of its pieces:

* `assignments_iniText` — the assignments of an artifact are those of its lines in order;
* `lineAssignments_assignment` — a key without `=` and a value on one line are read back as
  they were written.
-/
import Mathlib.Tactic.Common
import PeerOverlay.Artifact.Render

namespace PeerOverlay

open PeerOverlay.Text

namespace Text

/-- A line without the carriage return at its end. -/
def withoutReturn (line : List Char) : List Char :=
  if line.getLast? = some '\r' then line.dropLast else line

/-- The lines of a text.  A line break ends a line and takes a carriage return in front of it
along; what follows the last break is a line unless it is empty. -/
def lines (cs : List Char) : List (List Char) :=
  let pieces := cs.splitOn '\n'
  pieces.dropLast.map withoutReturn ++ (pieces.getLast?.filter (· ≠ [])).toList

/-- Cuts a text at the first place where a given mark stands. -/
def cut? (mark : List Char) : List Char → Option (List Char × List Char)
  | [] => if mark = [] then some ([], []) else none
  | c :: cs =>
    match dropPrefix? mark (c :: cs) with
    | some rest => some ([], rest)
    | none => (cut? mark cs).map fun parts => (c :: parts.1, parts.2)

/-- A text without line breaks and carriage returns. -/
def OneLine (s : String) : Prop :=
  ∀ c ∈ s.toList, c ≠ '\n' ∧ c ≠ '\r'

-- Written out, because a search might find the instance that tries all characters there are.
instance (s : String) : Decidable (OneLine s) :=
  List.decidableBAll (fun c => c ≠ '\n' ∧ c ≠ '\r') s.toList

/-! ### Lines -/

theorem splitOn_flatMap_break (ls : List (List Char)) :
    (ls.flatMap fun l => l ++ ['\n']).splitOn '\n' = (ls.flatMap (·.splitOn '\n')) ++ [[]] := by
  induction ls with
  | nil => rfl
  | cons l rest ih =>
    rw [List.flatMap_cons, List.append_assoc, List.singleton_append,
      List.splitOn_append_cons_self, ih, List.flatMap_cons, List.append_assoc]

/-- A text whose lines all end in a break has the pieces of these lines. -/
theorem lines_flatMap_break (ls : List (List Char)) :
    lines (ls.flatMap fun l => l ++ ['\n']) =
      ls.flatMap fun l => (l.splitOn '\n').map withoutReturn := by
  simp only [lines, splitOn_flatMap_break, List.dropLast_concat, List.getLast?_concat]
  simp [List.map_flatMap]

theorem pieces_eq_singleton {s : String} (h : OneLine s) :
    (s.toList.splitOn '\n').map withoutReturn = [s.toList] := by
  have hbreak : '\n' ∉ s.toList := fun hm => (h _ hm).1 rfl
  have hreturn : s.toList.getLast? ≠ some '\r' :=
    fun hm => (h _ (List.mem_of_getLast? hm)).2 rfl
  rw [List.splitOn_eq_singleton hbreak, List.map_singleton, withoutReturn, if_neg hreturn]

/-! ### Cutting -/

/-- A text that lacks a character of the mark is not cut. -/
theorem cut?_eq_none {mark cs : List Char} {c : Char} (hc : c ∈ mark) (h : c ∉ cs) :
    cut? mark cs = none := by
  induction cs with
  | nil => exact if_neg (List.ne_nil_of_mem hc)
  | cons d cs ih =>
    have hdrop : dropPrefix? mark (d :: cs) = none := by
      refine Option.eq_none_iff_forall_ne_some.mpr fun rest hrest => h ?_
      rw [dropPrefix?_eq_some_iff.mp hrest]
      exact List.mem_append_left _ hc
    rw [cut?, hdrop, ih fun hm => h (List.mem_cons_of_mem _ hm)]
    rfl

/-- The first place of ` = ` lies behind a key that holds no `=`. -/
theorem cut?_append {key value : List Char} (h : '=' ∉ key) :
    cut? [' ', '=', ' '] (key ++ ' ' :: '=' :: ' ' :: value) = some (key, value) := by
  induction key with
  | nil => rfl
  | cons c key ih =>
    have hdrop : dropPrefix? [' ', '=', ' '] (c :: (key ++ ' ' :: '=' :: ' ' :: value)) = none := by
      refine Option.eq_none_iff_forall_ne_some.mpr fun rest hrest => ?_
      -- The mark would put `=` right behind `c`, in the key or on the blank after it.
      have heq := dropPrefix?_eq_some_iff.mp hrest
      cases key with
      | nil => simp at heq
      | cons d key =>
        have hd : d = '=' := (List.cons.inj (List.cons.inj heq).2).1
        exact h (hd ▸ List.mem_cons_of_mem _ List.mem_cons_self)
    rw [List.cons_append, cut?, hdrop, ih fun hm => h (List.mem_cons_of_mem _ hm)]
    rfl

end Text

/-- The key and the value of a line. -/
def assignment? (line : List Char) : Option (String × String) :=
  (cut? [' ', '=', ' '] line).map fun parts => (String.ofList parts.1, String.ofList parts.2)

/-- The keys and values that a reader finds in a text. -/
def assignments (text : String) : List (String × String) :=
  (lines text.toList).filterMap assignment?

/-- The keys and values that a reader finds in a line that was written. -/
def lineAssignments (line : String) : List (String × String) :=
  ((line.toList.splitOn '\n').map withoutReturn).filterMap assignment?

theorem assignments_iniText (r : NodeRecord) (s : NodeSettings) :
    assignments (iniText r s) = (iniLines r s).flatMap lineAssignments := by
  have htext : (iniText r s).toList =
      ((iniLines r s).map String.toList).flatMap fun l => l ++ ['\n'] := by
    simp [iniText, String.toList_join, List.flatMap_map]
  rw [assignments, htext, lines_flatMap_break, List.flatMap_map, List.filterMap_flatMap]
  rfl

theorem lineAssignments_of_not_mem {line : String} (h : OneLine line) (heq : '=' ∉ line.toList) :
    lineAssignments line = [] := by
  have hcut : assignment? line.toList = none := by
    rw [assignment?, cut?_eq_none (c := '=') (by decide) heq]
    rfl
  rw [lineAssignments, pieces_eq_singleton h, List.filterMap_cons_none hcut, List.filterMap_nil]

theorem lineAssignments_assignment {key value : String} (hkey : OneLine key)
    (heq : '=' ∉ key.toList) (hvalue : OneLine value) :
    lineAssignments (assignment key value) = [(key, value)] := by
  have htext : (assignment key value).toList =
      key.toList ++ ' ' :: '=' :: ' ' :: value.toList := by
    simp [assignment]
  have hline : OneLine (assignment key value) := by
    intro c hc
    rw [htext] at hc
    simp only [List.mem_append, List.mem_cons] at hc
    rcases hc with hc | rfl | rfl | rfl | hc
    · exact hkey c hc
    · decide
    · decide
    · decide
    · exact hvalue c hc
  have hcut : assignment? (assignment key value).toList = some (key, value) := by
    rw [assignment?, htext, cut?_append heq]
    simp
  rw [lineAssignments, pieces_eq_singleton hline, List.filterMap_cons_some hcut,
    List.filterMap_nil]

end PeerOverlay
