/-
The JSON grammar.

`Tree` is a JSON value, numbers by what they are worth.  `Tokens cs ts` cuts a text into
tokens, with blanks anywhere between them; `Tree.tokens` is the one way to write a value in
tokens, and `Denotes cs v` says that a text is a JSON text for a value.

Main statements:
* `Spells.unique` — a string literal ends at one place and stands for one string;
* `Tokens.unique` — a text is cut into tokens in at most one way;
* `Denotes.unique` — a text is a JSON text for at most one value.

Half of a surrogate pair alone is no character, so an escape of one stands for none.
-/
import Mathlib.Tactic.Common
import PeerOverlay.Text.Numeral

namespace PeerOverlay.Json

open PeerOverlay.Text

/-- A JSON value; the members of an object are in the order of the text. -/
inductive Tree
  | null
  | bool (b : Bool)
  | number (q : Rat)
  | string (s : String)
  | array (items : List Tree)
  | object (members : List (String × Tree))

/-- What stands between two blanks at least. -/
inductive Token
  | openArray
  | closeArray
  | openObject
  | closeObject
  | comma
  | colon
  | null
  | bool (b : Bool)
  | number (q : Rat)
  | string (s : String)

/-! ### Numbers -/

/-- A character that may stand inside a number. -/
def isNumberChar (c : Char) : Bool :=
  c.isDigit || ['-', '+', '.', 'e', 'E'].contains c

/-- The mark before an exponent. -/
def isExponentMark (c : Char) : Bool :=
  c = 'e' || c = 'E'

/-- The digits after a point; there may be no point. -/
def fraction? : List Char → Option (List Char)
  | [] => some []
  | '.' :: digits => if digits = [] then none else some digits
  | _ => none

/-- An exponent with its mark and an optional sign, or nothing. -/
def exponent? : List Char → Option Int
  | [] => some 0
  | _ :: '-' :: digits => (Text.number? digits).map fun n => -Int.ofNat n
  | _ :: '+' :: digits => (Text.number? digits).map Int.ofNat
  | _ :: digits => (Text.number? digits).map Int.ofNat

/-- A whole number with the decimal point moved to the right. -/
def shifted (n : Nat) (places : Int) : Rat :=
  Rat.ofScientific n (places < 0) places.natAbs

/-- Digits without needless zeros in front, then a fraction and an exponent. -/
def unsigned? (cs : List Char) : Option Rat :=
  let mantissa := cs.takeWhile (!isExponentMark ·)
  let whole := mantissa.takeWhile Char.isDigit
  if whole = [] ∨ whole.head? = some '0' ∧ whole ≠ ['0'] then none
  else
    (fraction? (mantissa.dropWhile Char.isDigit)).bind fun fraction =>
      (Text.number? (whole ++ fraction)).bind fun n =>
        (exponent? (cs.dropWhile (!isExponentMark ·))).map fun places =>
          shifted n (places - fraction.length)

/-- What a number is worth. -/
def number? : List Char → Option Rat
  | '-' :: cs => (unsigned? cs).map Rat.neg
  | cs => unsigned? cs

/-! ### Strings -/

/-- The character that a backslash and another character stand for. -/
def shortEscape? : Char → Option Char
  | '"' => some '"'
  | '\\' => some '\\'
  | '/' => some '/'
  | 'b' => some '\x08'
  | 'f' => some '\x0c'
  | 'n' => some '\n'
  | 'r' => some '\r'
  | 't' => some '\t'
  | _ => none

/-- Four hexadecimal digits and the unit that they write. -/
def IsUnit (digits : List Char) (u : Nat) : Prop :=
  digits.length = 4 ∧ numberIn? 16 digits = some u

/-- What may follow a backslash, and the character that it then stands for. -/
inductive Escape : List Char → Char → Prop
  | short {e c} (he : shortEscape? e = some c) : Escape [e] c
  | unit {digits u} (hdigits : IsUnit digits u) (hu : u.isValidChar) :
      Escape ('u' :: digits) (Char.ofNat u)
  | pair {high low u v} (hhigh : IsUnit high u) (hu : 0xd800 ≤ u ∧ u < 0xdc00)
      (hlow : IsUnit low v) (hv : 0xdc00 ≤ v ∧ v < 0xe000) :
      Escape ('u' :: (high ++ '\\' :: 'u' :: low))
        (Char.ofNat (0x10000 + (u - 0xd800) * 0x400 + (v - 0xdc00)))

/-- The ways to write a character in a string literal. -/
inductive Spelling : List Char → Char → Prop
  | plain {c} (hc : 0x20 ≤ c.toNat) (hquote : c ≠ '"') (hslash : c ≠ '\\') : Spelling [c] c
  | escaped {text c} (htext : Escape text c) : Spelling ('\\' :: text) c

/-- What stands between the quotes of a string literal, and its characters. -/
inductive Spells : List Char → List Char → Prop
  | nil : Spells [] []
  | cons {text c cs chars} (hc : Spelling text c) (hrest : Spells cs chars) :
      Spells (text ++ cs) (c :: chars)

theorem IsUnit.unique {high low rest rest' : List Char} {u v : Nat} (h : IsUnit high u)
    (h' : IsUnit low v) (heq : high ++ rest = low ++ rest') : u = v ∧ rest = rest' := by
  obtain ⟨rfl, hrest⟩ := List.append_inj heq (h.1.trans h'.1.symm)
  exact ⟨Option.some.inj (h.2.symm.trans h'.2), hrest⟩

theorem not_isValidChar {u : Nat} (hu : 0xd800 ≤ u ∧ u < 0xdc00) : ¬u.isValidChar := by
  rintro (h | ⟨h, -⟩) <;> omega

variable {text text' cs cs' rest rest' chars chars' : List Char} {c c' : Char}

theorem Escape.unique (h : Escape text c) (h' : Escape text' c')
    (heq : text ++ rest = text' ++ rest') : c = c' ∧ rest = rest' := by
  cases h with
  | short he =>
    cases h' with
    | short he' =>
      obtain ⟨rfl, hrest⟩ := List.cons.inj heq
      exact ⟨Option.some.inj (he.symm.trans he'), hrest⟩
    | unit | pair =>
      obtain ⟨rfl, -⟩ := List.cons.inj heq
      cases he
  | unit hdigits hu =>
    cases h' with
    | short he' =>
      obtain ⟨rfl, -⟩ := List.cons.inj heq
      cases he'
    | unit hdigits' =>
      obtain ⟨rfl, hrest⟩ := hdigits.unique hdigits' (List.cons.inj heq).2
      exact ⟨rfl, hrest⟩
    | pair hhigh hu' =>
      -- The first half of a pair is no character, so an escape is not both.
      simp only [List.cons_append, List.append_assoc, List.cons.injEq, true_and] at heq
      obtain ⟨rfl, -⟩ := hdigits.unique hhigh heq
      exact absurd hu (not_isValidChar hu')
  | pair hhigh hu hlow =>
    cases h' with
    | short he' =>
      obtain ⟨rfl, -⟩ := List.cons.inj heq
      cases he'
    | unit hdigits' hu' =>
      simp only [List.cons_append, List.append_assoc, List.cons.injEq, true_and] at heq
      obtain ⟨rfl, -⟩ := hhigh.unique hdigits' heq
      exact absurd hu' (not_isValidChar hu)
    | pair hhigh' _ hlow' =>
      simp only [List.cons_append, List.append_assoc, List.cons.injEq, true_and] at heq
      obtain ⟨rfl, htail⟩ := hhigh.unique hhigh' heq
      simp only [List.cons.injEq, true_and] at htail
      obtain ⟨rfl, hrest⟩ := hlow.unique hlow' htail
      exact ⟨rfl, hrest⟩

theorem Spelling.unique (h : Spelling text c) (h' : Spelling text' c')
    (heq : text ++ rest = text' ++ rest') : c = c' ∧ rest = rest' := by
  cases h with
  | plain _ _ hslash =>
    cases h' with
    | plain => exact List.cons.inj heq
    | escaped => exact absurd (List.cons.inj heq).1 hslash
  | escaped htext =>
    cases h' with
    | plain _ _ hslash => exact absurd (List.cons.inj heq).1.symm hslash
    | escaped htext' => exact htext.unique htext' (List.cons.inj heq).2

theorem Spelling.append_ne_quote (h : Spelling text c) : text ++ rest ≠ '"' :: rest' := by
  intro heq
  cases h with
  | plain _ hquote => exact hquote (List.cons.inj heq).1
  | escaped => exact absurd (List.cons.inj heq).1 (by decide)

/-- A string literal ends at one place and stands for one string. -/
theorem Spells.unique (h : Spells cs chars) (h' : Spells cs' chars')
    (heq : cs ++ '"' :: rest = cs' ++ '"' :: rest') : chars = chars' ∧ rest = rest' := by
  induction h generalizing cs' chars' with
  | nil =>
    cases h' with
    | nil => exact ⟨rfl, (List.cons.inj heq).2⟩
    | cons hc' =>
      rw [List.append_assoc] at heq
      exact absurd heq.symm hc'.append_ne_quote
  | cons hc _ ih =>
    rw [List.append_assoc] at heq
    cases h' with
    | nil => exact absurd heq hc.append_ne_quote
    | cons hc' hrest' =>
      rw [List.append_assoc] at heq
      obtain ⟨rfl, htail⟩ := hc.unique hc' heq
      obtain ⟨rfl, hend⟩ := ih hrest' htail
      exact ⟨rfl, hend⟩

/-! ### Tokens -/

/-- A blank between two tokens. -/
def isBlank (c : Char) : Bool :=
  [' ', '\t', '\n', '\r'].contains c

/-- The token that is always written in the same way and starts with a character, after
what follows that character. -/
def fixed? : Char → Option (List Char × Token)
  | '[' => some ([], .openArray)
  | ']' => some ([], .closeArray)
  | '\x7b' => some ([], .openObject)
  | '\x7d' => some ([], .closeObject)
  | ',' => some ([], .comma)
  | ':' => some ([], .colon)
  | 'n' => some (['u', 'l', 'l'], .null)
  | 't' => some (['r', 'u', 'e'], .bool true)
  | 'f' => some (['a', 'l', 's', 'e'], .bool false)
  | _ => none

/-- The ways to cut a text into tokens.  A number goes on as long as it can. -/
inductive Tokens : List Char → List Token → Prop
  | done : Tokens [] []
  | blank {c cs ts} (hc : isBlank c = true) (hrest : Tokens cs ts) : Tokens (c :: cs) ts
  | fixed {c text token cs ts} (hc : fixed? c = some (text, token)) (hrest : Tokens cs ts) :
      Tokens (c :: (text ++ cs)) (token :: ts)
  | number {cs q ts} (hq : number? (cs.takeWhile isNumberChar) = some q)
      (hrest : Tokens (cs.dropWhile isNumberChar) ts) : Tokens cs (.number q :: ts)
  | string {text chars cs ts} (htext : Spells text chars) (hrest : Tokens cs ts) :
      Tokens ('"' :: (text ++ '"' :: cs)) (.string (String.ofList chars) :: ts)

theorem not_of_fixed? {e : List Char × Token} (h : fixed? c = some e) :
    isBlank c = false ∧ isNumberChar c = false ∧ c ≠ '"' := by
  unfold fixed? at h
  split at h
  all_goals first | decide | cases h

theorem not_of_isBlank (h : isBlank c = true) : isNumberChar c = false ∧ c ≠ '"' := by
  simp only [isBlank, List.contains_eq_mem, List.mem_cons, List.not_mem_nil, or_false,
    decide_eq_true_eq] at h
  rcases h with rfl | rfl | rfl | rfl <;> decide

theorem number?_nil : number? [] = none :=
  rfl

variable {ts ts' us : List Token}

theorem Tokens.blank_inv (h : Tokens (c :: cs) ts) (hc : isBlank c = true) : Tokens cs ts := by
  obtain ⟨hnumber, hquote⟩ := not_of_isBlank hc
  cases h with
  | blank _ hrest => exact hrest
  | fixed hfixed =>
    rw [(not_of_fixed? hfixed).1] at hc
    cases hc
  | number hq =>
    rw [List.takeWhile_cons_of_neg (by simp [hnumber]), number?_nil] at hq
    cases hq
  | string => exact absurd rfl hquote

theorem Tokens.fixed_inv {token : Token} (h : Tokens (c :: (text ++ cs)) ts)
    (hc : fixed? c = some (text, token)) : ∃ us, ts = token :: us ∧ Tokens cs us := by
  obtain ⟨hblank, hnumber, hquote⟩ := not_of_fixed? hc
  generalize hall : text ++ cs = all at h
  cases h with
  | blank hc' =>
    rw [hblank] at hc'
    cases hc'
  | fixed hc' hrest =>
    obtain ⟨rfl, rfl⟩ := Prod.mk.inj (Option.some.inj (hc.symm.trans hc'))
    exact ⟨_, rfl, List.append_cancel_left hall ▸ hrest⟩
  | number hq =>
    rw [List.takeWhile_cons_of_neg (by simp [hnumber]), number?_nil] at hq
    cases hq
  | string => exact absurd rfl hquote

theorem Tokens.number_inv {q : Rat} (h : Tokens cs ts)
    (hq : number? (cs.takeWhile isNumberChar) = some q) :
    ∃ us, ts = .number q :: us ∧ Tokens (cs.dropWhile isNumberChar) us := by
  -- An empty run is no number, so the text starts with a character of one.
  have hhead : ∀ c' cs', cs = c' :: cs' → isNumberChar c' = true := by
    rintro c' cs' rfl
    by_contra hc'
    rw [List.takeWhile_cons_of_neg hc', number?_nil] at hq
    cases hq
  cases h with
  | done => cases hq
  | blank hc => exact absurd (hhead _ _ rfl) (by simp [not_of_isBlank hc])
  | fixed hc => exact absurd (hhead _ _ rfl) (by simp [not_of_fixed? hc])
  | number hq' hrest =>
    obtain rfl := Option.some.inj (hq.symm.trans hq')
    exact ⟨_, rfl, hrest⟩
  | string => exact absurd (hhead _ _ rfl) (by decide)

theorem Tokens.string_inv (h : Tokens ('"' :: (text ++ '"' :: cs)) ts) (htext : Spells text chars) :
    ∃ us, ts = .string (String.ofList chars) :: us ∧ Tokens cs us := by
  generalize hall : text ++ '"' :: cs = all at h
  cases h with
  | blank hc => exact absurd hc (by decide)
  | fixed hc => exact absurd rfl (not_of_fixed? hc).2.2
  | number hq => exact absurd hq (by simp [List.takeWhile_cons_of_neg, isNumberChar, number?_nil])
  | string htext' hrest =>
    obtain ⟨rfl, rfl⟩ := htext.unique htext' hall
    exact ⟨_, rfl, hrest⟩

/-- A text is cut into tokens in at most one way. -/
theorem Tokens.unique (h : Tokens cs ts) (h' : Tokens cs ts') : ts = ts' := by
  -- The rule that cuts off the first token is the only one for what the text starts with.
  induction h generalizing ts' with
  | done =>
    cases h' with
    | done => rfl
    | number hq => cases hq
  | blank hc _ ih => exact ih (h'.blank_inv hc)
  | fixed hc _ ih =>
    obtain ⟨us, rfl, hus⟩ := h'.fixed_inv hc
    rw [ih hus]
  | number hq _ ih =>
    obtain ⟨us, rfl, hus⟩ := h'.number_inv hq
    rw [ih hus]
  | string htext _ ih =>
    obtain ⟨us, rfl, hus⟩ := h'.string_inv htext
    rw [ih hus]

/-! ### Values -/

theorem Tree.sizeOf_item_lt {items : List Tree} {v : Tree} (h : v ∈ items) :
    sizeOf v < sizeOf (Tree.array items) := by
  have hitem := List.sizeOf_lt_of_mem h
  simp only [Tree.array.sizeOf_spec]
  omega

theorem Tree.sizeOf_member_lt {members : List (String × Tree)} {m : String × Tree}
    (h : m ∈ members) : sizeOf m.2 < sizeOf (Tree.object members) := by
  have hmember := List.sizeOf_lt_of_mem h
  obtain ⟨key, v⟩ := m
  simp only [Tree.object.sizeOf_spec, Prod.mk.sizeOf_spec] at hmember ⊢
  omega

/-- A value in tokens. -/
def Tree.tokens : Tree → List Token
  | .null => [.null]
  | .bool b => [.bool b]
  | .number q => [.number q]
  | .string s => [.string s]
  | .array items => .openArray :: ([Token.comma].intercalate (items.map tokens) ++ [.closeArray])
  | .object members =>
    .openObject ::
      ([Token.comma].intercalate (members.map fun m => .string m.1 :: .colon :: m.2.tokens) ++
        [.closeObject])
decreasing_by
  · exact sizeOf_item_lt ‹_›
  · exact sizeOf_member_lt ‹_›

/-- A text is a JSON text for a value. -/
def Denotes (cs : List Char) (v : Tree) : Prop :=
  Tokens cs v.tokens

/-- No object has a key twice. -/
def Tree.DistinctKeys : Tree → Prop
  | .array items => ∀ v ∈ items, v.DistinctKeys
  | .object members => (members.map Prod.fst).Nodup ∧ ∀ m ∈ members, m.2.DistinctKeys
  | _ => True
decreasing_by
  · exact sizeOf_item_lt ‹_›
  · exact sizeOf_member_lt ‹_›

theorem intercalate_cons_eq {α : Type} (mark first : List α) (rest : List (List α)) :
    mark.intercalate (first :: rest) = first ++ rest.flatMap (mark ++ ·) := by
  induction rest generalizing first with
  | nil => simp
  | cons second rest ih => simp [ih]

section Items

variable {α : Type} {encode : α → List Token} {close : Token} {items items' : List α}

theorem flatMap_comma_unique (hclose : close ≠ .comma)
    (hunique : ∀ a ∈ items, ∀ b us us', encode a ++ us = encode b ++ us' → a = b ∧ us = us')
    (heq : items.flatMap (fun a => .comma :: encode a) ++ close :: ts =
      items'.flatMap (fun a => .comma :: encode a) ++ close :: ts') :
    items = items' ∧ ts = ts' := by
  induction items generalizing items' with
  | nil =>
    cases items' with
    | nil => exact ⟨rfl, (List.cons.inj heq).2⟩
    | cons b rest' => exact absurd (List.cons.inj heq).1 hclose
  | cons a rest ih =>
    cases items' with
    | nil => exact absurd (List.cons.inj heq).1.symm hclose
    | cons b rest' =>
      simp only [List.flatMap_cons, List.cons_append, List.append_assoc, List.cons.injEq,
        true_and] at heq
      obtain ⟨rfl, htail⟩ := hunique a List.mem_cons_self b _ _ heq
      obtain ⟨rfl, hend⟩ := ih (fun x hx => hunique x (List.mem_cons_of_mem _ hx)) htail
      exact ⟨rfl, hend⟩

/-- Items in a list can be told apart if each one tells where it ends. -/
theorem intercalate_comma_unique (hclose : close ≠ .comma)
    (hstart : ∀ a us us', encode a ++ us ≠ close :: us')
    (hunique : ∀ a ∈ items, ∀ b us us', encode a ++ us = encode b ++ us' → a = b ∧ us = us')
    (heq : [Token.comma].intercalate (items.map encode) ++ close :: ts =
      [Token.comma].intercalate (items'.map encode) ++ close :: ts') :
    items = items' ∧ ts = ts' := by
  cases items with
  | nil =>
    cases items' with
    | nil => exact ⟨rfl, (List.cons.inj heq).2⟩
    | cons b rest' =>
      rw [List.map_cons, intercalate_cons_eq, List.append_assoc] at heq
      exact absurd heq.symm (hstart b _ _)
  | cons a rest =>
    rw [List.map_cons, intercalate_cons_eq, List.append_assoc, List.flatMap_map] at heq
    cases items' with
    | nil => exact absurd heq (hstart a _ _)
    | cons b rest' =>
      rw [List.map_cons, intercalate_cons_eq, List.append_assoc, List.flatMap_map] at heq
      obtain ⟨rfl, htail⟩ := hunique a List.mem_cons_self b _ _ heq
      obtain ⟨rfl, hend⟩ := flatMap_comma_unique hclose
        (fun x hx => hunique x (List.mem_cons_of_mem _ hx)) htail
      exact ⟨rfl, hend⟩

end Items

/-- What follows a value in tokens tells where it ends. -/
theorem Tree.tokens_unique {v w : Tree} (heq : v.tokens ++ ts = w.tokens ++ ts') :
    v = w ∧ ts = ts' := by
  have hstart : ∀ (v : Tree) us us', v.tokens ++ us ≠ .closeArray :: us' := by
    intro v us us'
    cases v <;> simp [tokens]
  induction v using Tree.tokens.induct generalizing w ts ts' with
  | case5 items ih =>
    cases w with
    | array items' =>
      simp only [tokens, List.cons_append, List.append_assoc, List.nil_append, List.cons.injEq,
        true_and] at heq
      obtain ⟨rfl, hend⟩ := intercalate_comma_unique (by simp) hstart
        (fun a ha b us us' => ih a ha) heq
      exact ⟨rfl, hend⟩
    | _ => simp [tokens] at heq
  | case6 members ih =>
    -- A member tells its key first and then, by induction, its value.
    have hmember : ∀ m ∈ members, ∀ (m' : String × Tree) us us',
        (.string m.1 :: .colon :: m.2.tokens) ++ us =
          (.string m'.1 :: .colon :: m'.2.tokens) ++ us' → m = m' ∧ us = us' := by
      rintro ⟨key, v⟩ hm ⟨key', v'⟩ us us' hsame
      simp only [List.cons_append, List.cons.injEq, Token.string.injEq, true_and] at hsame
      obtain ⟨rfl, hvalue⟩ := hsame
      obtain ⟨rfl, hus⟩ := ih _ hm hvalue
      exact ⟨rfl, hus⟩
    cases w with
    | object members' =>
      simp only [tokens, List.cons_append, List.append_assoc, List.nil_append, List.cons.injEq,
        true_and] at heq
      obtain ⟨rfl, hend⟩ := intercalate_comma_unique (by simp) (by simp) hmember heq
      exact ⟨rfl, hend⟩
    | _ => simp [tokens] at heq
  | _ => cases w <;> simp_all [tokens]

/-- **A text is a JSON text for at most one value.** -/
theorem Denotes.unique {v w : Tree} (h : Denotes cs v) (h' : Denotes cs w) : v = w := by
  have htokens : v.tokens ++ [] = w.tokens ++ [] := by
    rw [List.append_nil, List.append_nil]
    exact Tokens.unique h h'
  exact (Tree.tokens_unique htokens).1

end PeerOverlay.Json
