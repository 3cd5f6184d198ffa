/-
The grammar of written endpoints.

Blanks around a text do not count.  What is left has the form of an endpoint if it is a run of
small letters, `://`, a host, a colon and one to five digits; a host is a name, or hexadecimal
digits and colons in brackets.  The form says nothing about which transports there are, which
digits a port is written in and how great it is, so a text of that form may still be refused.

* `trim_eq_iff`, `splitAtLastColon?_eq_some_iff`, `host?_eq_some_iff`, `parts?_eq_some_iff` —
  what each reader takes;
* `HasForm.unique` — a text has the form of an endpoint in one way;
* `answers_parse`, `Answers.parse_eq` — a text is answered as its form asks for;
* `parse_eq_iff_answers` — the answers and the one form together.
-/
import Mathlib.Data.List.Basic
import Mathlib.Data.List.TakeWhile
import PeerOverlay.Proofs.Endpoint

namespace PeerOverlay

open PeerOverlay.Text

namespace Text

/-! ### Blanks at the ends -/

/-- What is left of a text without the blanks at its two ends. -/
structure Strips (cs core : List Char) : Prop where
  split : ∃ front back, cs = front ++ (core ++ back) ∧ (∀ c ∈ front, isBlank c = true) ∧
    ∀ c ∈ back, isBlank c = true
  head : ∀ c ∈ core.head?, isBlank c = false
  last : ∀ c ∈ core.getLast?, isBlank c = false

theorem head?_dropWhile_isBlank (cs : List Char) :
    ∀ c ∈ (cs.dropWhile isBlank).head?, isBlank c = false := by
  intro c hc
  have h := List.head?_dropWhile_not isBlank cs
  rw [Option.mem_def.mp hc] at h
  exact h

theorem trim_append_of_blank {cs back : List Char} (h : ∀ c ∈ back, isBlank c = true) :
    trim (cs ++ back) = trim cs := by
  have hback : ∀ c ∈ back.reverse, isBlank c = true := fun c hc => h c (List.mem_reverse.mp hc)
  rw [trim, trim, List.dropWhile_append]
  split
  next hnil =>
    rw [List.isEmpty_iff.mp hnil, List.dropWhile_eq_nil_iff.mpr h]
  next =>
    rw [List.reverse_append, List.dropWhile_append_of_pos hback]

theorem strips_trim (cs : List Char) : Strips cs (trim cs) := by
  set mid := cs.dropWhile isBlank with hmid
  have hback : mid = trim cs ++ (mid.reverse.takeWhile isBlank).reverse := by
    rw [trim, ← List.reverse_append, List.takeWhile_append_dropWhile, List.reverse_reverse]
  refine ⟨⟨cs.takeWhile isBlank, (mid.reverse.takeWhile isBlank).reverse, ?_, ?_, ?_⟩, ?_, ?_⟩
  · rw [← hback, List.takeWhile_append_dropWhile]
  · exact List.all_eq_true.mp List.all_takeWhile
  · intro c hc
    exact List.all_eq_true.mp List.all_takeWhile c (List.mem_reverse.mp hc)
  · -- The first character that is left is the first of `mid`.
    intro c hc
    refine head?_dropWhile_isBlank cs c ?_
    rw [← hmid, hback, List.head?_append, Option.mem_def.mp hc]
    rfl
  · intro c hc
    refine head?_dropWhile_isBlank mid.reverse c ?_
    rwa [trim, List.getLast?_reverse] at hc

theorem trim_eq_iff {cs core : List Char} : trim cs = core ↔ Strips cs core := by
  constructor
  · rintro rfl
    exact strips_trim cs
  · rintro ⟨⟨front, back, rfl, hfront, hback⟩, hhead, hlast⟩
    have hdrop : trim (front ++ (core ++ back)) = trim (core ++ back) := by
      rw [trim, List.dropWhile_append_of_pos hfront, ← trim]
    rw [hdrop, trim_append_of_blank hback, trim_eq_self hhead hlast]

end Text

namespace Endpoint

variable {s : String} {cs : List Char} {parts : Parts}

/-! ### Form -/

/-- How a host is shown: a name as it stands, hexadecimal digits and colons in brackets. -/
inductive Shows : (shown host : List Char) → Prop
  | bare {host : List Char} (ne_nil : host ≠ []) (chars : ∀ c ∈ host, isNameChar c = true) :
    Shows host host
  | bracketed {host : List Char} (ne_nil : host ≠ [])
    (chars : ∀ c ∈ host, isBracketedChar c = true) : Shows ('[' :: (host ++ [']'])) host

/-- A text is small letters, `://`, a shown host, a colon and one to five digits. -/
structure HasForm (cs : List Char) (parts : Parts) (shown : List Char) : Prop where
  text : cs = parts.transport ++ ':' :: '/' :: '/' :: (shown ++ ':' :: parts.port)
  transport : parts.transport ≠ [] ∧ ∀ c ∈ parts.transport, c.isLower = true
  host : Shows shown parts.host
  port : (1 ≤ parts.port.length ∧ parts.port.length ≤ 5) ∧
    ∀ c ∈ parts.port, isDecimalDigit c = true

/-- A text has a form up to the blanks around it. -/
def Reads (s : String) (parts : Parts) (shown : List Char) : Prop :=
  ∃ core, Strips s.toList core ∧ HasForm core parts shown

theorem splitAtLastColon?_eq_some_iff {front back : List Char} :
    splitAtLastColon? cs = some (front, back) ↔ cs = front ++ ':' :: back ∧ ':' ∉ back := by
  constructor
  · intro h
    simp only [splitAtLastColon?] at h
    split at h
    next => cases h
    next d rest hdrop =>
      obtain ⟨rfl, rfl⟩ := Prod.mk.inj (Option.some.inj h)
      -- Going backwards stops at the first colon.
      have hcolon : d = ':' := by
        have hstop := List.head?_dropWhile_not (· ≠ ':') cs.reverse
        rw [hdrop] at hstop
        simpa using hstop
      subst hcolon
      have hsplit : cs.reverse.takeWhile (· ≠ ':') ++ ':' :: rest = cs.reverse := by
        rw [← hdrop, List.takeWhile_append_dropWhile]
      constructor
      · have hcs := congrArg List.reverse hsplit
        rw [List.reverse_reverse] at hcs
        simpa using hcs.symm
      · intro hmem
        have htake := List.all_eq_true.mp (List.all_takeWhile (p := (· ≠ ':')) (l := cs.reverse))
        simpa using htake ':' (List.mem_reverse.mp hmem)
  · rintro ⟨rfl, hcolon⟩
    exact splitAtLastColon?_append front hcolon

theorem host?_eq_some_iff {shown host : List Char} :
    host? shown = some host ↔ Shows shown host := by
  constructor
  · intro h
    rw [host?.eq_def] at h
    split at h
    next inner =>
      obtain ⟨⟨hlast, hne, hall⟩, heq⟩ := Option.ite_none_right_eq_some.mp h
      obtain rfl := Option.some.inj heq
      have hinner : inner.dropLast ++ [']'] = inner := List.dropLast_append_getLast? ']' hlast
      have hshows := Shows.bracketed hne (List.all_eq_true.mp hall)
      rwa [hinner] at hshows
    next =>
      obtain ⟨⟨hne, hall⟩, heq⟩ := Option.ite_none_right_eq_some.mp h
      obtain rfl := Option.some.inj heq
      exact .bare hne (List.all_eq_true.mp hall)
  · intro h
    cases h with
    | bare hne hchars => exact host?_of_isNameChar hne hchars
    | bracketed hne hchars => rw [host?_brackets hne, if_pos (List.all_eq_true.mpr hchars)]

/-- No digit is a colon. -/
theorem colon_not_mem_of_isDecimalDigit (h : ∀ c ∈ cs, isDecimalDigit c = true) : ':' ∉ cs :=
  fun hmem => absurd (h ':' hmem) (by decide)

theorem parts?_eq_some_iff : parts? cs = some parts ↔ ∃ shown, HasForm cs parts shown := by
  constructor
  · intro h
    simp only [parts?] at h
    split at h
    next rest hdrop =>
      split at h
      next before port hsplit =>
        split at h
        next host hhost =>
          obtain ⟨⟨hne, hpos, hle, hdigits⟩, heq⟩ := Option.ite_none_right_eq_some.mp h
          obtain rfl := Option.some.inj heq
          obtain ⟨rfl, -⟩ := splitAtLastColon?_eq_some_iff.mp hsplit
          refine ⟨before, ?_, ⟨hne, List.all_eq_true.mp List.all_takeWhile⟩,
            host?_eq_some_iff.mp hhost, ⟨hpos, hle⟩, List.all_eq_true.mp hdigits⟩
          rw [← hdrop, List.takeWhile_append_dropWhile]
        next => cases h
      next => cases h
    next => cases h
  · rintro ⟨shown, rfl, ⟨hne, hletters⟩, hhost, hlength, hdigits⟩
    rw [parts?_written hne hletters hlength (List.all_eq_true.mpr hdigits)
      (colon_not_mem_of_isDecimalDigit hdigits), host?_eq_some_iff.mpr hhost]
    rfl

/-- **A text has the form of an endpoint in one way.** -/
theorem HasForm.unique {parts' : Parts} {shown shown' : List Char} (h : HasForm cs parts shown)
    (h' : HasForm cs parts' shown') : parts = parts' ∧ shown = shown' := by
  obtain rfl : parts = parts' := by
    have hparts := parts?_eq_some_iff.mpr ⟨shown, h⟩
    rw [parts?_eq_some_iff.mpr ⟨shown', h'⟩] at hparts
    exact (Option.some.inj hparts).symm
  refine ⟨rfl, ?_⟩
  have hrest := List.append_cancel_left (h.text.symm.trans h'.text)
  simpa using hrest

theorem parts?_trim_eq_some_iff :
    parts? (trim s.toList) = some parts ↔ ∃ shown, Reads s parts shown := by
  rw [parts?_eq_some_iff]
  constructor
  · rintro ⟨shown, h⟩
    exact ⟨shown, _, strips_trim _, h⟩
  · rintro ⟨shown, core, hcore, h⟩
    exact ⟨shown, trim_eq_iff.mpr hcore ▸ h⟩

/-! ### Transports and ports -/

theorem transport_parse_eq_error {name : String} (h : ∀ t : Transport, t.name ≠ name) :
    Transport.parse name = .error (.unknownTransport name) := by
  have hfind : Transport.ofName? name = none :=
    List.find?_eq_none.mpr fun t _ ht => h t (of_decide_eq_true ht)
  rw [Transport.parse, hfind]

/-- Digits stand for a port if they are those of ASCII and their value fits 16 bits. -/
theorem port?_of_ne_nil {digits : List Char} (hne : digits ≠ []) :
    port? digits =
      if digits.all Char.isDigit = true ∧ Nat.ofDigitChars 10 digits 0 < UInt16.size then
        some (UInt16.ofNat (Nat.ofDigitChars 10 digits 0))
      else none := by
  by_cases hascii : digits.all Char.isDigit = true
  · have hnumber : number? digits = some (Nat.ofDigitChars 10 digits 0) := if_pos ⟨hne, hascii⟩
    rw [port?, hnumber, Option.filter_some]
    by_cases hlt : Nat.ofDigitChars 10 digits 0 < UInt16.size
    · rw [if_pos (decide_eq_true hlt), if_pos ⟨hascii, hlt⟩, Option.map_some]
    · rw [if_neg (by simpa using hlt), if_neg fun h => hlt h.2, Option.map_none]
  · have hnumber : number? digits = none := if_neg fun h => hascii h.2
    rw [port?, hnumber, if_neg fun h => hascii h.1]
    rfl

theorem port?_eq_some_iff {digits : List Char} {port : UInt16} (hne : digits ≠ []) :
    port? digits = some port ↔
      (∀ c ∈ digits, c.isDigit = true) ∧ Nat.ofDigitChars 10 digits 0 = port.toNat := by
  rw [port?_of_ne_nil hne, Option.ite_none_right_eq_some, Option.some.injEq, List.all_eq_true]
  constructor
  · rintro ⟨⟨hascii, hlt⟩, rfl⟩
    exact ⟨hascii, (UInt16.toNat_ofNat_of_lt' hlt).symm⟩
  · rintro ⟨hascii, hvalue⟩
    rw [hvalue]
    exact ⟨⟨hascii, port.toNat_lt⟩, UInt16.ofNat_toNat⟩

theorem port?_eq_none_iff {digits : List Char} (hne : digits ≠ []) :
    port? digits = none ↔
      (∃ c ∈ digits, c.isDigit = false) ∨ UInt16.size ≤ Nat.ofDigitChars 10 digits 0 := by
  rw [port?_of_ne_nil hne]
  simp [Classical.or_iff_not_imp_left]

/-! ### Answers -/

variable {transport : Transport} {host shown digits : List Char}

theorem Reads.digits_ne_nil (h : Reads s parts shown) : parts.port ≠ [] := by
  obtain ⟨core, -, hform⟩ := h
  exact List.length_pos_iff.mp hform.port.1.1

theorem Reads.parse_eq_ok {port : UInt16}
    (h : Reads s ⟨transport.name.toList, host, digits⟩ shown) (hport : port? digits = some port) :
    parse s = .ok ⟨transport, String.ofList host, port⟩ := by
  have hparts := parts?_trim_eq_some_iff.mpr ⟨shown, h⟩
  simp only [parse, hparts, String.ofList_toList, transport_parse_name, hport]

theorem Reads.parse_eq_invalidPort
    (h : Reads s ⟨transport.name.toList, host, digits⟩ shown) (hport : port? digits = none) :
    parse s = .error (.invalidPort s) := by
  have hparts := parts?_trim_eq_some_iff.mpr ⟨shown, h⟩
  simp only [parse, hparts, String.ofList_toList, transport_parse_name, hport]

theorem Reads.parse_eq_unknownTransport (h : Reads s parts shown)
    (hunknown : ∀ t : Transport, t.name.toList ≠ parts.transport) :
    parse s = .error (.unknownTransport (String.ofList parts.transport)) := by
  have hparts := parts?_trim_eq_some_iff.mpr ⟨shown, h⟩
  have htransport : ∀ t : Transport, t.name ≠ String.ofList parts.transport := by
    intro t ht
    exact hunknown t (by rw [ht, String.toList_ofList])
  simp only [parse, hparts, transport_parse_eq_error htransport]

theorem parse_eq_malformed (h : ∀ parts shown, ¬Reads s parts shown) :
    parse s = .error (.malformed s) := by
  have hparts : parts? (trim s.toList) = none := by
    refine Option.eq_none_iff_forall_ne_some.mpr fun parts hparts => ?_
    obtain ⟨shown, hreads⟩ := parts?_trim_eq_some_iff.mp hparts
    exact h parts shown hreads
  rw [parse, hparts]

/-- The answer that the form of a text asks for.  An unknown transport is refused whatever the
port; a port of a known transport must be written in ASCII and fit 16 bits. -/
inductive Answers (s : String) : Except EndpointError Endpoint → Prop
  | endpoint {transport : Transport} {host : String} {port : UInt16} {shown digits : List Char}
    (reads : Reads s ⟨transport.name.toList, host.toList, digits⟩ shown)
    (ascii : ∀ c ∈ digits, c.isDigit = true)
    (value : Nat.ofDigitChars 10 digits 0 = port.toNat) : Answers s (.ok ⟨transport, host, port⟩)
  | unknownTransport {parts : Parts} {shown : List Char} (reads : Reads s parts shown)
    (unknown : ∀ t : Transport, t.name.toList ≠ parts.transport) :
    Answers s (.error (.unknownTransport (String.ofList parts.transport)))
  | invalidPort {transport : Transport} {host shown digits : List Char}
    (reads : Reads s ⟨transport.name.toList, host, digits⟩ shown)
    (invalid : (∃ c ∈ digits, c.isDigit = false) ∨
      UInt16.size ≤ Nat.ofDigitChars 10 digits 0) : Answers s (.error (.invalidPort s))
  | malformed (formless : ∀ parts shown, ¬Reads s parts shown) :
    Answers s (.error (.malformed s))

theorem Answers.parse_eq {answer : Except EndpointError Endpoint} (h : Answers s answer) :
    parse s = answer := by
  cases h with
  | @endpoint transport host port shown digits reads ascii value =>
    have hport := (port?_eq_some_iff reads.digits_ne_nil).mpr ⟨ascii, value⟩
    rw [reads.parse_eq_ok hport, String.ofList_toList]
  | unknownTransport reads unknown => exact reads.parse_eq_unknownTransport unknown
  | invalidPort reads invalid =>
    exact reads.parse_eq_invalidPort ((port?_eq_none_iff reads.digits_ne_nil).mpr invalid)
  | malformed formless => exact parse_eq_malformed formless

theorem answers_parse (s : String) : Answers s (parse s) := by
  by_cases hform : ∃ parts shown, Reads s parts shown
  · obtain ⟨parts, shown, hreads⟩ := hform
    by_cases hknown : ∃ t : Transport, t.name.toList = parts.transport
    · obtain ⟨transport, ht⟩ := hknown
      obtain ⟨name, host, digits⟩ := parts
      obtain rfl : transport.name.toList = name := ht
      rcases hport : port? digits with _ | port
      · rw [hreads.parse_eq_invalidPort hport]
        exact .invalidPort hreads ((port?_eq_none_iff hreads.digits_ne_nil).mp hport)
      · obtain ⟨hascii, hvalue⟩ := (port?_eq_some_iff hreads.digits_ne_nil).mp hport
        have hreads' : Reads s ⟨transport.name.toList, (String.ofList host).toList, digits⟩
            shown := by rwa [String.toList_ofList]
        rw [hreads.parse_eq_ok hport]
        exact .endpoint hreads' hascii hvalue
    · have hunknown : ∀ t : Transport, t.name.toList ≠ parts.transport :=
        fun t ht => hknown ⟨t, ht⟩
      rw [hreads.parse_eq_unknownTransport hunknown]
      exact .unknownTransport hreads hunknown
  · have hformless : ∀ parts shown, ¬Reads s parts shown :=
      fun parts shown h => hform ⟨parts, shown, h⟩
    rw [parse_eq_malformed hformless]
    exact .malformed hformless

/-- **A text is answered as its form asks for, and it has a form in one way at most.** -/
theorem parse_eq_iff_answers (s : String) :
    (∀ answer, parse s = answer ↔ Answers s answer) ∧
    ∀ parts shown parts' shown', Reads s parts shown → Reads s parts' shown' →
      parts = parts' ∧ shown = shown' := by
  refine ⟨fun answer => ⟨?_, Answers.parse_eq⟩, ?_⟩
  · rintro rfl
    exact answers_parse s
  · rintro parts shown parts' shown' ⟨core, hcore, h⟩ ⟨core', hcore', h'⟩
    obtain rfl : core = core' := (trim_eq_iff.mpr hcore).symm.trans (trim_eq_iff.mpr hcore')
    exact h.unique h'

/-- Leading zeros and blanks around the text do not matter. -/
theorem parse_eq_iff_answers_padded :
    Reads " tcp://[a:]:00080\u3000" ⟨['t', 'c', 'p'], ['a', ':'], ['0', '0', '0', '8', '0']⟩
        ['[', 'a', ':', ']'] ∧
      parse " tcp://[a:]:00080\u3000" = .ok ⟨.tcp, "a:", 80⟩ := by
  have hstrips : Strips " tcp://[a:]:00080\u3000".toList "tcp://[a:]:00080".toList :=
    trim_eq_iff.mp (by decide)
  have hshows : Shows ('[' :: (['a', ':'] ++ [']'])) ['a', ':'] :=
    .bracketed (by decide) (List.all_eq_true.mp (by decide))
  have hreads : Reads " tcp://[a:]:00080\u3000"
      ⟨Transport.tcp.name.toList, "a:".toList, ['0', '0', '0', '8', '0']⟩
      ['[', 'a', ':', ']'] :=
    ⟨_, hstrips, rfl, ⟨name_ne_nil _, isLower_of_mem_name _⟩, hshows, by decide,
      List.all_eq_true.mp (by decide)⟩
  exact ⟨hreads, ((parse_eq_iff_answers _).1 _).mpr
    (.endpoint hreads (List.all_eq_true.mp (by decide)) (by decide))⟩

end Endpoint

end PeerOverlay
