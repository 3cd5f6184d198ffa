/-
Looking up the entries of a directory by path.

* `Path.route_join` — a plain name below a directory path is one step more;
* `Path.route_padded` — needless slashes make a path longer, and nothing else;
* `FileTree.resolve_eq_ok_iff` — what a path leads to is what its walk reaches;
* `FileTree.resolve_join` — every name in a directory is looked up from the location that
  the path of the directory leads to;
* `FileTree.mem_children`, `FileTree.nodup_children`, `FileTree.pairwise_children` — a directory
  lists the names of its entries, each once and in order.
-/
import Mathlib.Data.List.Nodup
import PeerOverlay.Proofs.FileTree.Walk

namespace PeerOverlay

/-- A name that stands for itself on a path, as one step down. -/
structure Name.Plain (n : Name) : Prop where
  ne_nil : n.bytes ≠ []
  slash_notMem : slash ∉ n.bytes
  zero_notMem : 0 ∉ n.bytes
  ne_dot : n.bytes ≠ [0x2E]
  ne_dots : n.bytes ≠ [0x2E, 0x2E]

instance (n : Name) : Decidable n.Plain :=
  decidable_of_iff
    (n.bytes ≠ [] ∧ slash ∉ n.bytes ∧ 0 ∉ n.bytes ∧ n.bytes ≠ [0x2E] ∧ n.bytes ≠ [0x2E, 0x2E])
    ⟨fun ⟨h₁, h₂, h₃, h₄, h₅⟩ => ⟨h₁, h₂, h₃, h₄, h₅⟩, fun ⟨h₁, h₂, h₃, h₄, h₅⟩ => ⟨h₁, h₂, h₃, h₄, h₅⟩⟩

theorem Name.Plain.ofPiece_bytes {n : Name} (h : n.Plain) : Step.ofPiece n.bytes = .down n := by
  rw [Step.ofPiece, if_neg h.ne_dot, if_neg h.ne_dots]

/-! ### The order of names -/

theorem Name.le_trans {a b c : Name} (h : a.le b = true) (h' : b.le c = true) :
    a.le c = true := by
  rw [Name.le, decide_eq_true_eq] at h h' ⊢
  exact List.le_trans h h'

theorem Name.le_total (a b : Name) : (a.le b || b.le a) = true := by
  rw [Bool.or_eq_true, Name.le, Name.le, decide_eq_true_eq, decide_eq_true_eq]
  exact List.le_total a.bytes b.bytes

theorem Name.le_antisymm {a b : Name} (h : a.le b = true) (h' : b.le a = true) : a = b := by
  rw [Name.le, decide_eq_true_eq] at h h'
  exact congrArg Name.mk (List.le_antisymm h h')

namespace Path

variable {dir p : Path} {n : Name}

/-- Whether the names of a directory path may be followed by this one: both the name and the
path that it makes are short enough. -/
def Admits (dir : Path) (n : Name) : Prop :=
  n.bytes.length ≤ nameLimit ∧ (dir.join n).bytes.length ≤ pathLimit

instance (dir : Path) (n : Name) : Decidable (dir.Admits n) :=
  inferInstanceAs (Decidable (_ ∧ _))

/-- The pieces of a path that are steps. -/
def pieces (bytes : List UInt8) : List (List UInt8) :=
  (bytes.splitOn slash).filter (· ≠ [])

theorem route_steps (p : Path) : p.route.steps = (pieces p.bytes).map Step.ofPiece :=
  rfl

theorem pieces_append_slash (front back : List UInt8) :
    pieces (front ++ slash :: back) = pieces front ++ pieces back := by
  rw [pieces, List.splitOn_append_cons_self, List.filter_append, pieces, pieces]

theorem pieces_eq_singleton {bytes : List UInt8} (hne : bytes ≠ []) (hslash : slash ∉ bytes) :
    pieces bytes = [bytes] := by
  rw [pieces, List.splitOn_eq_singleton hslash, List.filter_singleton]
  simp [hne]

/-- Only the empty path leads nowhere. -/
theorem isEmpty_route (h : p.bytes ≠ []) : p.route.isEmpty = false := by
  by_cases hslash : slash ∈ p.bytes
  · obtain ⟨front, back, hbytes, hfront⟩ := List.eq_append_cons_of_mem hslash
    by_cases hroot : front = []
    · have habsolute : p.route.absolute = true := by simp [route, hbytes, hroot]
      simp [Route.isEmpty, habsolute]
    · have hsteps : p.route.steps ≠ [] := by
        rw [route_steps, hbytes, pieces_append_slash, pieces_eq_singleton hroot hfront]
        exact List.cons_ne_nil _ _
      simp [Route.isEmpty, hsteps]
  · have hsteps : p.route.steps ≠ [] := by
      rw [route_steps, pieces_eq_singleton h hslash]
      exact List.cons_ne_nil _ _
    simp [Route.isEmpty, hsteps]

theorem bytes_ne_nil (h : p.route.isEmpty = false) : p.bytes ≠ [] := by
  obtain ⟨bytes⟩ := p
  rintro rfl
  cases h

theorem exists_bytes_join (hn : n.Plain) :
    ∃ between, (dir.join n).bytes = dir.bytes ++ (between ++ n.bytes) ∧
      pieces (dir.join n).bytes = pieces dir.bytes ++ [n.bytes] := by
  have hname : pieces n.bytes = [n.bytes] := pieces_eq_singleton hn.ne_nil hn.slash_notMem
  have hnil : pieces [] = [] := rfl
  rw [join]
  split
  next hdir => exact ⟨[], by simp [hdir], by rw [hname, hdir, hnil, List.nil_append]⟩
  next =>
    split
    next hlast =>
      -- The slash at the end of the directory path ends its last piece already.
      obtain ⟨front, hfront⟩ := List.getLast?_eq_some_iff.mp hlast
      refine ⟨[], rfl, ?_⟩
      rw [hfront, List.append_assoc, List.singleton_append, pieces_append_slash, hname,
        pieces_append_slash, hnil, List.append_nil]
    next => exact ⟨[slash], rfl, by rw [pieces_append_slash, hname]⟩

theorem join_injective (dir : Path) : Function.Injective dir.join := by
  rintro ⟨bytes⟩ ⟨bytes'⟩ h
  simp only [join] at h
  split at h
  · exact congrArg Name.mk (Path.mk.inj h)
  · split at h
    · exact congrArg Name.mk (List.append_cancel_left (Path.mk.inj h))
    · exact congrArg Name.mk (List.cons.inj (List.append_cancel_left (Path.mk.inj h))).2

/-- **A plain name below a directory path is one step more.** -/
theorem route_join (hdir : dir.bytes ≠ []) (hn : n.Plain) :
    (dir.join n).route =
      { absolute := dir.route.absolute
        steps := dir.route.steps ++ [.down n]
        trailing := false
        length := (dir.join n).bytes.length } := by
  obtain ⟨between, hbytes, hpieces⟩ : ∃ between, (dir.join n).bytes = dir.bytes ++
      (between ++ n.bytes) ∧ pieces (dir.join n).bytes = pieces dir.bytes ++ [n.bytes] :=
    exists_bytes_join hn
  have habsolute : (dir.join n).route.absolute = dir.route.absolute := by
    rw [route, route, hbytes, List.head?_append_of_ne_nil _ hdir]
  have hsteps : (dir.join n).route.steps = dir.route.steps ++ [.down n] := by
    rw [route_steps, hpieces, List.map_append, List.map_singleton, hn.ofPiece_bytes, route_steps]
  have htrailing : (dir.join n).route.trailing = false := by
    have hlast : (dir.join n).bytes.getLast? = n.bytes.getLast? := by
      rw [hbytes, ← List.append_assoc, List.getLast?_append_of_ne_nil _ hn.ne_nil]
    refine decide_eq_false fun hslash => hn.slash_notMem ?_
    exact List.mem_of_getLast? (hlast ▸ hslash)
  rw [← habsolute, ← hsteps, ← htrailing]
  rfl

/-! ### Needless slashes -/

/-- The path of a name, with slashes at its end that it does not need. -/
def padded (n : Name) (count : Nat) : Path :=
  ⟨n.bytes ++ List.replicate (count + 1) slash⟩

variable {count : Nat}

theorem pieces_replicate_slash (count : Nat) : pieces (List.replicate count slash) = [] := by
  induction count with
  | zero => rfl
  | succ count ih =>
    rw [List.replicate_succ]
    exact (pieces_append_slash [] _).trans (by rw [ih]; rfl)

theorem getLast?_padded : (padded n count).bytes.getLast? = some slash := by
  rw [padded, List.replicate_succ', ← List.append_assoc, List.getLast?_concat]

theorem length_padded : (padded n count).bytes.length = n.bytes.length + (count + 1) := by
  rw [padded, List.length_append, List.length_replicate]

theorem length_join_padded (m : Name) :
    ((padded n count).join m).bytes.length = n.bytes.length + (count + 1) + m.bytes.length := by
  have hne : (padded n count).bytes ≠ [] :=
    List.append_ne_nil_of_right_ne_nil _ (by simp)
  rw [join, if_neg hne, if_pos getLast?_padded, List.length_append, length_padded]

/-- They change the length of the path and no step of it. -/
theorem route_padded (hn : n.Plain) :
    (padded n count).route = ⟨false, [.down n], true, n.bytes.length + (count + 1)⟩ := by
  have hsteps : (padded n count).route.steps = [.down n] := by
    rw [route_steps, padded, List.replicate_succ, pieces_append_slash, pieces_replicate_slash,
      pieces_eq_singleton hn.ne_nil hn.slash_notMem, List.append_nil, List.map_singleton,
      hn.ofPiece_bytes]
  have habsolute : (padded n count).route.absolute = false := by
    refine decide_eq_false fun hhead => hn.slash_notMem (List.mem_of_mem_head? ?_)
    rwa [padded, List.head?_append_of_ne_nil _ hn.ne_nil] at hhead
  have htrailing : (padded n count).route.trailing = true :=
    decide_eq_true getLast?_padded
  rw [← hsteps, ← habsolute, ← htrailing, ← length_padded]
  rfl

end Path

namespace FileTree

variable {t : FileTree} {follow : Bool} {links : Nat} {r : Route} {goal : Target} {dir : Path}
  {loc : Location} {n : Name} {e : Entry}

/-! ### Paths -/

theorem resolve_eq_ok_iff :
    t.resolve follow r = .ok goal ↔
      (r.holdsZero = false ∧ r.isEmpty = false ∧ r.length ≤ pathLimit) ∧
        t.get? (r.startFrom t.workdir) = some .directory ∧
        t.Reaches follow linkLimit (r.startFrom t.workdir) r.steps r.trailing goal := by
  rw [resolve, ← walk_eq_ok_iff]
  cases hzero : r.holdsZero
  case true => simp
  cases hempty : r.isEmpty
  case true => simp
  by_cases hlength : pathLimit < r.length
  · simp [hlength, Nat.not_le.mpr hlength]
  · simp only [Bool.false_eq_true, if_false, hlength, Nat.not_lt.mp hlength, true_and,
      ← Route.startFrom.eq_def]
    rcases t.get? (r.startFrom t.workdir) with _ | ⟨_ | _ | _⟩ <;> simp

/-- What a directory path leads to is the location of a directory. -/
theorem get?_of_resolve (h : t.resolve follow r = .ok (.present loc e)) :
    t.get? loc = some e := by
  obtain ⟨-, hstart, hreaches⟩ := resolve_eq_ok_iff.mp h
  exact hreaches.get?_eq hstart

theorem isDirectory_iff :
    t.isDirectory r = true ↔ ∃ loc, t.resolve true r = .ok (.present loc .directory) := by
  rw [isDirectory]
  rcases t.resolve true r with _ | ⟨loc, _ | _ | _⟩ | _ <;> simp

theorem isFile_iff :
    t.isFile r = true ↔
      ∃ loc content, t.resolve true r = .ok (.present loc (.file content)) := by
  rw [isFile]
  rcases t.resolve true r with _ | ⟨loc, _ | _ | _⟩ | _ <;> simp

/-! ### Entries of a directory -/

/-- **Every name in a directory is looked up from the location that the path of the
directory leads to,** unless the path gets too long. -/
theorem resolve_join (h : t.resolve true dir.route = .ok (.present loc .directory)) :
    ∃ links, ∀ follow (n : Name), n.Plain →
      t.resolve follow (dir.join n).route =
        if pathLimit < (dir.join n).bytes.length then .error .invalidFilename
        else t.walk follow links loc [.down n] false := by
  obtain ⟨⟨hzero, hempty, -⟩, hstart, hreaches⟩ := resolve_eq_ok_iff.mp h
  obtain ⟨links, hwalk⟩ := hreaches.walk_append
  refine ⟨links, fun follow n hn => ?_⟩
  have hzero' : (dir.join n).route.holdsZero = false := by
    rw [Path.route_join (Path.bytes_ne_nil hempty) hn, Route.holdsZero, List.any_append]
    exact Bool.or_eq_false_iff.mpr ⟨hzero, by simpa using hn.zero_notMem⟩
  have hempty' : (dir.join n).route.isEmpty = false := by
    rw [Path.route_join (Path.bytes_ne_nil hempty) hn]
    simp [Route.isEmpty]
  rw [resolve, hzero', hempty', Path.route_join (Path.bytes_ne_nil hempty) hn]
  simp only [Bool.false_eq_true, if_false]
  rw [Route.startFrom] at hstart hwalk
  rw [hstart, hwalk _ (List.cons_ne_nil _ _)]

/-- A name leads to its own entry, unless that is a link which is followed. -/
theorem resolve_join_eq_ok_iff (h : t.resolve true dir.route = .ok (.present loc .directory))
    (hn : n.Plain)
    (hstay : follow = false ∨ ∀ target, t.get? (loc ++ [n]) ≠ some (.link target)) :
    t.resolve follow (dir.join n).route = .ok goal ↔
      dir.Admits n ∧
        goal = (t.get? (loc ++ [n])).elim (.absent (loc ++ [n]) false)
          (.present (loc ++ [n])) := by
  obtain ⟨links, hjoin⟩ := resolve_join h
  rw [hjoin follow n hn, Path.Admits]
  split
  next hlong => simp [Nat.not_le.mpr hlong]
  next hlong =>
    rw [walk]
    by_cases hname : nameLimit < n.bytes.length
    · simp [hname, Nat.not_le.mpr hname]
    · rcases hget : t.get? (loc ++ [n]) with _ | ⟨_ | _ | target⟩
      case some.link =>
        obtain rfl := hstay.resolve_right fun hnone => hnone target hget
        simp [hname, Nat.not_lt.mp hname, Nat.not_lt.mp hlong, eq_comm]
      all_goals simp [hname, Nat.not_lt.mp hname, Nat.not_lt.mp hlong, walk, eq_comm]

/-- A path leads to a directory in a tree without links. -/
structure Finds (t : FileTree) (dir : Path) (loc : Location) : Prop where
  linkFree : t.LinkFree
  resolve : t.resolve true dir.route = .ok (.present loc .directory)

theorem Finds.get?_eq (h : t.Finds dir loc) : t.get? loc = some .directory :=
  get?_of_resolve h.resolve

/-- The path of a name leads to the directory of this name that stands where paths start. -/
theorem Finds.of_route {trailing : Bool} {length : Nat} (hlinks : t.LinkFree)
    (hroute : dir.route = ⟨false, [.down n], trailing, length⟩) (hn : n.Plain)
    (hname : n.bytes.length ≤ nameLimit) (hlength : length ≤ pathLimit)
    (hstart : t.get? t.workdir = some .directory)
    (hdir : t.get? (t.workdir ++ [n]) = some .directory) :
    t.Finds dir (t.workdir ++ [n]) := by
  refine ⟨hlinks, ?_⟩
  rw [hroute, resolve_eq_ok_iff]
  refine ⟨⟨?_, rfl, hlength⟩, hstart, .enter hname hdir .stop⟩
  simpa [Route.holdsZero] using hn.zero_notMem

/-- In a tree without links a name leads to its own entry. -/
theorem Finds.resolve_join_eq_ok_iff (h : t.Finds dir loc) (hn : n.Plain) :
    t.resolve follow (dir.join n).route = .ok goal ↔
      dir.Admits n ∧
        goal = (t.get? (loc ++ [n])).elim (.absent (loc ++ [n]) false)
          (.present (loc ++ [n])) :=
  FileTree.resolve_join_eq_ok_iff h.resolve hn (.inr (h.linkFree _))

theorem childName?_eq_some_iff {dir loc : Location} :
    childName? dir loc = some n ↔ loc = dir ++ [n] := by
  rw [childName?]
  rcases hlast : loc.getLast? with _ | last
  · rw [List.getLast?_eq_none_iff] at hlast
    simp [hlast]
  · obtain ⟨front, rfl⟩ := List.getLast?_eq_some_iff.mp hlast
    simp [and_comm]

/-- **A directory lists the names of its entries.** -/
theorem mem_children : n ∈ t.children loc ↔ ∃ e, t.get? (loc ++ [n]) = some e := by
  have hne : loc ++ [n] ≠ [] := List.append_ne_nil_of_right_ne_nil _ (List.cons_ne_nil _ _)
  rw [children, List.mem_mergeSort, List.mem_filterMap]
  simp only [childName?_eq_some_iff, get?, entryAt, if_neg hne]
  rw [← Option.isSome_iff_exists, Option.isSome_map, List.find?_isSome]
  simp

theorem nodup_children : (t.children loc).Nodup := by
  rw [children, (List.mergeSort_perm _ _).nodup_iff,
    show (fun e : Location × Entry => childName? loc e.1) = childName? loc ∘ Prod.fst from rfl,
    ← List.filterMap_map]
  refine t.distinct.filterMap fun a a' n ha ha' => ?_
  rw [Option.mem_def, childName?_eq_some_iff] at ha ha'
  rw [ha, ha']

theorem pairwise_children : (t.children loc).Pairwise fun a b => a.le b = true := by
  rw [children]
  exact @List.pairwise_mergeSort Name Name.le (fun _ _ _ => Name.le_trans) Name.le_total _

end FileTree

end PeerOverlay
