/-
What readers of single values read from plain nodes.

In a plain node there is no alias to follow, so a reader neither depends on the anchors of the
document nor on how many aliases may still be followed.  `Reads` says of a reader what it reads
from plain nodes, as a relation between nodes and values that does not see the order of entries.
Readers of scalars read what a function of the node says, `ReadsScalar`: text, truth values and
floating-point numbers, numbers with a limit, values that may be left empty, and choices.
-/
import PeerOverlay.Proofs.Outcome
import PeerOverlay.Proofs.Yaml.Documents
import PeerOverlay.Yaml.Reading

namespace PeerOverlay.Yaml

variable {α β : Type}

/-! ### Steps of reading -/

namespace Reading

variable {left : Nat} {r : α × Nat} {s : β × Nat}

theorem bind_ok_iff {x : Reading α} {f : α → Reading β} :
    (x >>= f) left = .ok s ↔ ∃ v left', x left = .ok (v, left') ∧ f v left' = .ok s := by
  show (x left >>= fun p => f p.1 p.2) = .ok s ↔ _
  rw [bind_eq_ok_iff, Prod.exists]

theorem map_ok_iff {x : Reading α} {f : α → β} :
    (f <$> x) left = .ok s ↔ ∃ v left', x left = .ok (v, left') ∧ (f v, left') = s := by
  rw [← bind_pure_comp, bind_ok_iff]
  refine exists_congr fun v => exists_congr fun left' => and_congr_right fun _ => ?_
  show Except.ok (f v, left') = .ok s ↔ _
  rw [Except.ok.injEq]

theorem pure_ok_iff {v : α} : (pure v : Reading α) left = .ok r ↔ v = r.1 ∧ r.2 = left := by
  show Except.ok (v, left) = .ok r ↔ _
  rw [Except.ok.injEq, Prod.ext_iff]
  exact and_congr_right fun _ => eq_comm

theorem throw_ne_ok {e : ReadError} : (throw e : Reading α) left ≠ .ok r := by
  intro h
  cases h

theorem lift_ok_iff {x : Except ReadError α} :
    (liftM x : Reading α) left = .ok r ↔ x = .ok r.1 ∧ r.2 = left := by
  cases x with
  | error e => simp [liftM, monadLift, MonadLift.monadLift, StateT.lift, bind, Except.bind]
  | ok v =>
    show Except.ok (v, left) = .ok r ↔ _
    rw [Except.ok.injEq, Except.ok.injEq, Prod.ext_iff]
    exact and_congr_right fun _ => eq_comm

theorem locate_ok_iff {place : Place} {x : Reading α} :
    x.locate place left = .ok r ↔ x left = .ok r :=
  mapError_eq_ok_iff

end Reading

/-- A plain node is no alias. -/
theorem Anchors.follow_plain (a : Anchors) {node : Node} (h : node.Plain) :
    a.follow node = pure node := by
  cases node with
  | scalar => rfl
  | sequence => rfl
  | mapping => rfl
  | fault => rfl
  | _ => cases h

/-! ### What readers read -/

/-- What a reader reads from plain nodes: a value exactly if the node says it, whatever the order
of the entries in the node. -/
structure Reads (read : ReadAs α) (Says : Node → α → Prop) : Prop where
  ok_iff : ∀ (a : Anchors) (place : Place) {node : Node} (left : Nat) {r : α × Nat},
    node.Plain → (read a place node left = .ok r ↔ Says node r.1 ∧ r.2 = left)
  rearranged : ∀ {node node' : Node} {x : α}, node.Plain → node.Rearranged node' →
    (Says node x ↔ Says node' x)

theorem Reads.congr {read : ReadAs α} {Says Says' : Node → α → Prop} (h : Reads read Says)
    (hiff : ∀ {node x}, Says node x ↔ Says' node x) : Reads read Says' where
  ok_iff := by
    intro a place node left r hnode
    rw [h.ok_iff a place left hnode, hiff]
  rearranged := by
    intro node node' x hnode hrel
    rw [← hiff, h.rearranged hnode hrel, hiff]

/-- A reader reads what a node says, and collections say nothing. -/
structure ReadsScalar (read : ReadAs α) (say : Node → Option α) : Prop where
  ok_iff : ∀ (a : Anchors) (place : Place) {node : Node} (left : Nat) {r : α × Nat},
    node.Plain → (read a place node left = .ok r ↔ say node = some r.1 ∧ r.2 = left)
  collection : ∀ node : Node, node.isCollection = true → say node = none

namespace ReadsScalar

theorem reads {read : ReadAs α} {say : Node → Option α} (h : ReadsScalar read say) :
    Reads read fun node x => say node = some x where
  ok_iff := h.ok_iff
  rearranged := by
    intro node node' x _ hnode
    rw [hnode.congr h.collection]

theorem map {read : ReadAs α} {say : Node → Option α} (h : ReadsScalar read say) (f : α → β) :
    ReadsScalar (fun a place node => f <$> read a place node) fun node => (say node).map f where
  ok_iff := by
    intro a place node left r hnode
    rw [Reading.map_ok_iff, Option.map_eq_some_iff]
    constructor
    · rintro ⟨v, left', hread, rfl⟩
      obtain ⟨hsay, hleft⟩ := (h.ok_iff a place left hnode).mp hread
      exact ⟨⟨v, hsay, rfl⟩, hleft⟩
    · rintro ⟨⟨v, hsay, hv⟩, hleft⟩
      exact ⟨v, left, (h.ok_iff a place left hnode).mpr ⟨hsay, rfl⟩, Prod.ext hv hleft.symm⟩
  collection := by
    intro node hnode
    rw [h.collection node hnode]
    rfl

theorem text (expected : String) : ReadsScalar (readText expected) Node.text? where
  ok_iff := by
    intro a place node left r hnode
    rw [readText, a.follow_plain hnode, pure_bind]
    cases node with
    | scalar anchor tag style text =>
      simp only [Reading.pure_ok_iff, Node.text?, Option.some.injEq]
    | _ => simp [Reading.throw_ne_ok, Node.text?]
  collection _ := Node.text?_of_isCollection

theorem said (wanted : Tag) (expected : String) (rule : String → Option α) :
    ReadsScalar (readSaid wanted expected rule) (said? wanted rule) where
  ok_iff := by
    intro a place node left r hnode
    rw [readSaid, a.follow_plain hnode, pure_bind]
    cases said? wanted rule node with
    | some v => simp only [Reading.pure_ok_iff, Option.some.injEq]
    | none => simp [Reading.throw_ne_ok]
  collection := by
    intro node hnode
    cases node with
    | scalar => cases hnode
    | _ => rfl

end ReadsScalar

/-- A number from zero up to a limit. -/
def numberUpTo? (limit : Nat) (node : Node) : Option Nat :=
  (said? .int (fun text => unsigned? (UInt64.size - 1) text.toList) node).filter (· ≤ limit)

/-- What a scalar says that may be left empty: nothing, or a value. -/
def optional? (say : Node → Option α) (node : Node) : Option (Option α) :=
  match node with
  | .scalar _ tag .plain text =>
    if tag = some .null then if isNullWord text then some none else none
    else if tag.isNone && (text = "" || isNullWord text) then some none
    else (say node).map some
  | _ => (say node).map some

/-- The choice that a scalar names, as its tag or as its text. -/
def choice? (choices : List (String × α)) : Node → Option α
  | .scalar _ tag style text =>
    let named (name : String) : Option α := (choices.find? (·.1 = name)).map Prod.snd
    match tag.bind Tag.localName? with
    | some name => if style = .plain && (text = "" || isNullWord text) then named name else none
    | none => named text
  | _ => none

theorem choose_eq_ok_iff {choices : List (String × α)} {name : String} {v : α} :
    choose choices name = .ok v ↔ (choices.find? (·.1 = name)).map Prod.snd = some v := by
  rw [choose]
  split
  next choice hfind => simp [hfind]
  next hfind => simp [hfind]

theorem chosen_eq_ok_iff {choices : List (String × α)} {place : Place} {node : Node} {v : α} :
    chosen choices place node = .ok v ↔ choice? choices node = some v := by
  have hcollection : ∀ (tag : Option Tag) (found : Found),
      chosen.collection choices place tag found ≠ .ok v := by
    intro tag found h
    rw [chosen.collection] at h
    split at h
    next =>
      obtain ⟨_, -, h⟩ := bind_eq_ok_iff.mp h
      cases h
    next => cases h
  cases node with
  | scalar anchor tag style text =>
    rw [chosen, choice?]
    cases htag : tag.bind Tag.localName? with
    | some name =>
      simp only [bind_eq_ok_iff, choose_eq_ok_iff]
      split
      next => simp [pure, Except.pure]
      next => simp [throw, throwThe, MonadExceptOf.throw]
    | none => exact mapError_eq_ok_iff.trans choose_eq_ok_iff
  | sequence anchor tag items => simp [chosen, hcollection, choice?]
  | mapping anchor tag entries => simp [chosen, hcollection, choice?]
  | _ => simp [chosen, choice?]

namespace ReadsScalar

theorem number (limit : Nat) (expected : String) :
    ReadsScalar (readNumber limit expected) (numberUpTo? limit) where
  ok_iff := by
    intro a place node left r hnode
    have hsaid := said .int expected (fun text => unsigned? (UInt64.size - 1) text.toList)
    rw [readNumber, Reading.bind_ok_iff, numberUpTo?, Option.filter_eq_some_iff]
    constructor
    · rintro ⟨n, left', hread, h⟩
      obtain ⟨hn, rfl⟩ := (hsaid.ok_iff a place left hnode).mp hread
      split at h
      next hle =>
        obtain ⟨rfl, hleft⟩ := Reading.pure_ok_iff.mp h
        exact ⟨⟨hn, by simpa using hle⟩, hleft⟩
      next => exact absurd h Reading.throw_ne_ok
    · rintro ⟨⟨hn, hle⟩, hleft⟩
      refine ⟨r.1, left, (hsaid.ok_iff a place left hnode).mpr ⟨hn, rfl⟩, ?_⟩
      rw [if_pos (by simpa using hle)]
      exact Reading.pure_ok_iff.mpr ⟨rfl, hleft⟩
  collection := by
    intro node hnode
    rw [numberUpTo?, (said .int expected _).collection node hnode]
    rfl

theorem optional {read : ReadAs α} {say : Node → Option α} (h : ReadsScalar read say) :
    ReadsScalar (readOptional read) (optional? say) where
  ok_iff := by
    intro a place node left r hnode
    rw [readOptional, a.follow_plain hnode, pure_bind]
    have hsome := (h.map some).ok_iff a place left (r := r) hnode
    cases node with
    | scalar anchor tag style text =>
      cases style with
      | plain =>
        simp only [optional?]
        split
        next =>
          split
          next => simp only [Reading.pure_ok_iff, Option.some.injEq]
          next => simp [Reading.throw_ne_ok]
        next =>
          split
          next => simp only [Reading.pure_ok_iff, Option.some.injEq]
          next => exact hsome
      | _ => exact hsome
    | _ => exact hsome
  collection := by
    intro node hnode
    cases node with
    | scalar => cases hnode
    | _ => simp only [optional?, h.collection _ hnode, Option.map_none]

theorem choice (choices : List (String × α)) :
    ReadsScalar (readChoice choices) (choice? choices) where
  ok_iff := by
    intro a place node left r hnode
    rw [readChoice, a.follow_plain hnode, pure_bind]
    split
    next => cases hnode
    next => rw [Reading.lift_ok_iff, chosen_eq_ok_iff]
  collection := by
    intro node hnode
    cases node with
    | scalar => cases hnode
    | _ => rfl

end ReadsScalar

end PeerOverlay.Yaml
