/-
The printed form of a JSON value, read back.

Main statements:
* `spelling_escape` — every character is escaped so that the grammar reads it;
* `number?_numeral` — a numeral is a number of the grammar;
* `denotes_print_iff` — the printed form is a JSON text for the value, and for no other.

The printer breaks lines only where the grammar allows blanks, so cutting the text into tokens
forgets the indentation level.
-/
import Mathlib.Data.List.Basic
import Mathlib.Data.List.TakeWhile
import PeerOverlay.Json.Value
import PeerOverlay.Proofs.Json.Grammar
import PeerOverlay.Proofs.Text.Numeral

namespace PeerOverlay.Json

open PeerOverlay.Text

variable {cs rest text : List Char} {ts us : List Token}

/-! ### Strings -/

theorem isUnit_control {n : Nat} (h : n < 0x20) :
    IsUnit ['0', '0', hexDigit (n / 16), hexDigit (n % 16)] n := by
  refine ⟨rfl, ?_⟩
  have hall : ∀ n < 0x20,
      numberIn? 16 ['0', '0', hexDigit (n / 16), hexDigit (n % 16)] = some n := by
    decide
  exact hall n h

/-- Every character is escaped so that the grammar reads it. -/
theorem spelling_escape (c : Char) : Spelling (escape c) c := by
  unfold escape
  split_ifs with hquote hslash hb hf hn hr ht hcontrol
  · subst hquote
    exact .escaped (.short rfl)
  · subst hslash
    exact .escaped (.short rfl)
  · subst hb
    exact .escaped (.short rfl)
  · subst hf
    exact .escaped (.short rfl)
  · subst hn
    exact .escaped (.short rfl)
  · subst hr
    exact .escaped (.short rfl)
  · subst ht
    exact .escaped (.short rfl)
  · have hunit : Escape ('u' :: ['0', '0', hexDigit (c.toNat / 16), hexDigit (c.toNat % 16)])
        (Char.ofNat c.toNat) := .unit (isUnit_control hcontrol) (.inl (by omega))
    rw [Char.ofNat_toNat] at hunit
    exact .escaped hunit
  · exact .plain (by omega) hquote hslash

theorem spells_escape (chars : List Char) : Spells (chars.flatMap escape) chars := by
  induction chars with
  | nil => exact .nil
  | cons c chars ih => exact .cons (spelling_escape c) ih

theorem Tokens.literal_append (s : String) (h : Tokens cs ts) :
    Tokens (literal s ++ cs) (.string s :: ts) := by
  have htokens := Tokens.string (spells_escape s.toList) h
  rw [String.ofList_toList] at htokens
  simpa [literal] using htokens

/-! ### Numbers -/

theorem isExponentMark_of_isDigit {c : Char} (h : c.isDigit = true) : isExponentMark c = false := by
  by_contra hmark
  simp only [isExponentMark, Bool.not_eq_false, Bool.or_eq_true, decide_eq_true_eq] at hmark
  rcases hmark with rfl | rfl <;> exact absurd h (by decide)

/-- A numeral is a number of the grammar. -/
theorem number?_numeral (n : Nat) : number? (numeral n) = some (n : Rat) := by
  have hmantissa : (numeral n).takeWhile (!isExponentMark ·) = numeral n :=
    List.takeWhile_eq_self_iff.mpr fun c hc => by
      rw [isExponentMark_of_isDigit (isDigit_of_mem_numeral hc)]
      rfl
  have hexponent : (numeral n).dropWhile (!isExponentMark ·) = [] :=
    List.dropWhile_eq_nil_iff.mpr fun c hc => by
      rw [isExponentMark_of_isDigit (isDigit_of_mem_numeral hc)]
      rfl
  have hwhole : (numeral n).takeWhile Char.isDigit = numeral n :=
    List.takeWhile_eq_self_iff.mpr fun c hc => isDigit_of_mem_numeral hc
  have hfraction : (numeral n).dropWhile Char.isDigit = [] :=
    List.dropWhile_eq_nil_iff.mpr fun c hc => isDigit_of_mem_numeral hc
  have hzero : ¬(numeral n = [] ∨ (numeral n).head? = some '0' ∧ numeral n ≠ ['0']) := by
    rintro (hnil | ⟨hhead, hne⟩)
    · exact numeral_ne_nil n hnil
    · have hn : n ≠ 0 := by
        rintro rfl
        exact hne rfl
      exact head?_numeral_ne hn hhead
  have hunsigned : unsigned? (numeral n) = some (n : Rat) := by
    simp [unsigned?, hmantissa, hexponent, hwhole, hfraction, hzero, fraction?, exponent?,
      Text.number?_numeral, shifted, Rat.ofScientific_false_def]
  unfold number?
  split
  next cs hcs =>
    have hminus : '-' ∈ numeral n := hcs ▸ List.mem_cons_self
    exact absurd (isDigit_of_mem_numeral hminus) (by decide)
  next => exact hunsigned

theorem takeWhile_numeral_append (n : Nat) (h : cs.takeWhile isNumberChar = []) :
    (numeral n ++ cs).takeWhile isNumberChar = numeral n := by
  rw [List.takeWhile_append_of_pos, h, List.append_nil]
  intro c hc
  simp [isNumberChar, isDigit_of_mem_numeral hc]

theorem Tokens.numeral_append (n : Nat) (hclear : cs.takeWhile isNumberChar = [])
    (h : Tokens cs ts) : Tokens (numeral n ++ cs) (.number n :: ts) := by
  have hrun := takeWhile_numeral_append n hclear
  refine .number (by rw [hrun]; exact number?_numeral n) ?_
  have hsplit := List.takeWhile_append_dropWhile (p := isNumberChar) (l := numeral n ++ cs)
  rw [hrun] at hsplit
  rw [List.append_cancel_left hsplit]
  exact h

/-! ### Values -/

theorem Value.sizeOf_item_lt {items : List Value} {v : Value} (h : v ∈ items) :
    sizeOf v < sizeOf (Value.array items) := by
  have hitem := List.sizeOf_lt_of_mem h
  simp only [Value.array.sizeOf_spec]
  omega

theorem Value.sizeOf_member_lt {members : List (String × Value)} {m : String × Value}
    (h : m ∈ members) : sizeOf m.2 < sizeOf (Value.object members) := by
  have hmember := List.sizeOf_lt_of_mem h
  obtain ⟨key, v⟩ := m
  simp only [Value.object.sizeOf_spec, Prod.mk.sizeOf_spec] at hmember ⊢
  omega

/-- A value that is printed, among all that the grammar has. -/
def Value.tree : Value → Tree
  | .number n => .number n
  | .string s => .string s
  | .array items => .array (items.map tree)
  | .object members => .object (members.map fun m => (m.1, m.2.tree))
decreasing_by
  · exact sizeOf_item_lt ‹_›
  · exact sizeOf_member_lt ‹_›

theorem printItems_eq_map (level : Nat) (items : List Value) :
    printItems level items = items.map (Value.printAt level) := by
  induction items with
  | nil => rfl
  | cons item rest ih => rw [printItems, ih, List.map_cons]

theorem printMembers_eq_map (level : Nat) (members : List (String × Value)) :
    printMembers level members =
      members.map fun m => literal m.1 ++ [':', ' '] ++ m.2.printAt level := by
  induction members with
  | nil => rfl
  | cons member rest ih => rw [printMembers, ih, List.map_cons]

/-- A token of one character. -/
theorem Tokens.mark {c : Char} {token : Token} (hc : fixed? c = some ([], token))
    (h : Tokens cs ts) : Tokens (c :: cs) (token :: ts) := by
  have hfixed := Tokens.fixed hc h
  exact hfixed

/-- A text that is cut in this way before whatever a number does not run on into. -/
def Lexes (text : List Char) (ts : List Token) : Prop :=
  ∀ ⦃cs us⦄, cs.takeWhile isNumberChar = [] → Tokens cs us → Tokens (text ++ cs) (ts ++ us)

theorem Tokens.newline_append (level : Nat) (h : Tokens cs ts) :
    Tokens (newline level ++ cs) ts := by
  have hblanks : ∀ k, Tokens (List.replicate k ' ' ++ cs) ts := by
    intro k
    induction k with
    | zero => exact h
    | succ k ih => exact .blank rfl ih
  exact .blank rfl (hblanks _)

section Bracketed

variable {α : Type} {f : α → List Char} {g : α → List Token} {items : List α}

theorem Tokens.items_append (level : Nat) (hitems : ∀ a ∈ items, Lexes (f a) (g a))
    (hclear : cs.takeWhile isNumberChar = []) (h : Tokens cs ts) :
    Tokens (items.flatMap (fun a => ',' :: newline level ++ f a) ++ cs)
      (items.flatMap (fun a => .comma :: g a) ++ ts) := by
  induction items with
  | nil => exact h
  | cons a rest ih =>
    have htail := ih fun x hx => hitems x (List.mem_cons_of_mem _ hx)
    have hitem := hitems a List.mem_cons_self ?_ htail
    · simpa using Tokens.mark rfl (hitem.newline_append level)
    · -- A comma follows the item, or else what follows all of them.
      cases rest with
      | nil => exact hclear
      | cons b rest => rfl

/-- Brackets around printed items stand for brackets around their tokens. -/
theorem lexes_bracketed {opening closing : Char} {before after : Token} (level : Nat)
    (hopening : fixed? opening = some ([], before)) (hclosing : fixed? closing = some ([], after))
    (hitems : ∀ a ∈ items, Lexes (f a) (g a)) :
    Lexes (bracketed opening closing level (items.map f))
      (before :: ([Token.comma].intercalate (items.map g) ++ [after])) := by
  intro cs us hclear h
  have hclose : Tokens (closing :: cs) (after :: us) := .mark hclosing h
  cases items with
  | nil => exact .mark hopening hclose
  | cons a rest =>
    -- The text is cut from its end on, so that what follows each item is known.
    have hend : (newline level ++ closing :: cs).takeWhile isNumberChar = [] := rfl
    have htail := Tokens.items_append (level + 1)
      (fun x hx => hitems x (List.mem_cons_of_mem _ hx)) hend (hclose.newline_append level)
    have hfirst := hitems a List.mem_cons_self ?_ htail
    · have hall := Tokens.mark hopening (hfirst.newline_append (level + 1))
      rw [List.map_cons, List.map_cons, intercalate_cons_eq, bracketed, intercalate_cons_eq]
      · simpa [List.flatMap_map] using hall
      · nofun
    · cases rest with
      | nil => rfl
      | cons b rest => rfl

end Bracketed

/-- The printed form of a value is cut into the tokens of the value, at any level. -/
theorem lexes_printAt (v : Value) (level : Nat) : Lexes (v.printAt level) v.tree.tokens := by
  induction v using Value.tree.induct generalizing level with
  | case1 n =>
    intro cs us hclear h
    rw [Value.printAt, Value.tree, Tree.tokens]
    exact h.numeral_append n hclear
  | case2 s =>
    intro cs us _ h
    rw [Value.printAt, Value.tree, Tree.tokens]
    exact h.literal_append s
  | case3 items ih =>
    rw [Value.printAt, printItems_eq_map, Value.tree, Tree.tokens, List.map_map]
    exact lexes_bracketed level rfl rfl fun v hv => ih v hv (level + 1)
  | case4 members ih =>
    rw [Value.printAt, printMembers_eq_map, Value.tree, Tree.tokens, List.map_map]
    refine lexes_bracketed level rfl rfl fun m hm cs us hclear h => ?_
    have hvalue := ih m hm (level + 1) hclear h
    have hcolon := Tokens.mark (c := ':') rfl (Tokens.blank (c := ' ') rfl hvalue)
    simpa using hcolon.literal_append m.1

/-- **The printed form of a value is a JSON text for the value, and for no other.** -/
theorem denotes_print_iff {v : Value} {w : Tree} : Denotes v.print.toList w ↔ w = v.tree := by
  have hprint : Denotes v.print.toList v.tree := by
    have h := lexes_printAt v 0 rfl .done
    rw [List.append_nil, List.append_nil] at h
    rw [Value.print, String.toList_ofList]
    exact h
  constructor
  · intro h
    exact h.unique hprint
  · rintro rfl
    exact hprint

end PeerOverlay.Json
