/-
The characters of hosts.

Each reader of an address takes characters of one kind from the front of a text
(`Takes`), so an address that is read to its end holds no others:

* `forall_mem_of_isIpv4` — digits and points;
* `forall_mem_of_isIpv6` — hexadecimal digits, colons and points;
* `forall_mem_of_isHostname` — letters, digits, hyphens and points.

Every IPv6 address holds a colon (`colon_mem_of_isIpv6`), no other accepted host does
(`forall_mem_of_not_isIpv6`), and none holds a blank, a slash, a bracket or a line break
(`forall_mem_of_isValid`).
-/
import Mathlib.Tactic.Common
import PeerOverlay.Host

namespace PeerOverlay.Host

open PeerOverlay.Text

/-! ### Readers -/

/-- A text begins with characters of one kind, and a given rest follows them. -/
def Takes (P : Char → Prop) (cs rest : List Char) : Prop :=
  ∃ front, cs = front ++ rest ∧ ∀ c ∈ front, P c

variable {P Q : Char → Prop} {cs mid rest : List Char}

theorem Takes.refl (P : Char → Prop) (cs : List Char) : Takes P cs cs :=
  ⟨[], rfl, fun _ h => nomatch h⟩

theorem Takes.trans (h : Takes P cs mid) (h' : Takes P mid rest) : Takes P cs rest := by
  obtain ⟨front, rfl, hfront⟩ := h
  obtain ⟨front', rfl, hfront'⟩ := h'
  refine ⟨front ++ front', (List.append_assoc _ _ _).symm, fun c hc => ?_⟩
  exact (List.mem_append.mp hc).elim (hfront c) (hfront' c)

theorem Takes.mono (h : Takes P cs rest) (hPQ : ∀ c, P c → Q c) : Takes Q cs rest := by
  obtain ⟨front, rfl, hfront⟩ := h
  exact ⟨front, rfl, fun c hc => hPQ c (hfront c hc)⟩

/-- A text that is read to its end holds characters of that kind only. -/
theorem Takes.forall_mem (h : Takes P cs []) : ∀ c ∈ cs, P c := by
  obtain ⟨front, rfl, hfront⟩ := h
  rwa [List.append_nil]

theorem takes_dropWhile (p : Char → Bool) (cs : List Char) :
    Takes (fun c => p c = true) cs (cs.dropWhile p) :=
  ⟨cs.takeWhile p, List.takeWhile_append_dropWhile.symm,
    List.all_eq_true.mp List.all_takeWhile⟩

theorem takes_skip? {c : Char} (h : skip? c cs = some rest) : Takes (· = c) cs rest := by
  cases cs with
  | nil => cases h
  | cons d cs =>
    rw [skip?] at h
    split at h
    next hd =>
      cases h
      exact ⟨[d], rfl, fun x hx => (List.mem_singleton.mp hx).trans hd⟩
    next => cases h

theorem takes_octet? (h : octet? cs = some rest) :
    Takes (fun c => c.isDigit = true) cs rest := by
  simp only [octet?] at h
  split at h
  · split at h
    · cases h
      exact takes_dropWhile _ cs
    · cases h
  · cases h

theorem takes_group? (h : group? cs = some rest) :
    Takes (fun c => isHexDigit c = true) cs rest := by
  simp only [group?] at h
  split at h
  · cases h
    exact takes_dropWhile _ cs
  · cases h

/-! ### Addresses -/

/-- A character of an IPv4 address. -/
def IsQuadChar (c : Char) : Prop :=
  c.isDigit = true ∨ c = '.'

/-- A character of an IPv6 address. -/
def IsAddressChar (c : Char) : Prop :=
  isHexDigit c = true ∨ c = ':' ∨ c = '.'

theorem IsQuadChar.isAddressChar {c : Char} (h : IsQuadChar c) : IsAddressChar c := by
  rcases h with h | h
  · exact .inl (by rw [isHexDigit, h]; rfl)
  · exact .inr (.inr h)

theorem takes_quad? (h : quad? cs = some rest) : Takes IsQuadChar cs rest := by
  have hoctet : ∀ {cs rest}, octet? cs = some rest → Takes IsQuadChar cs rest :=
    fun h => (takes_octet? h).mono fun _ => .inl
  have hdot : ∀ {cs rest}, (skip? '.' cs >>= octet?) = some rest → Takes IsQuadChar cs rest := by
    intro cs rest h
    obtain ⟨mid, hskip, hread⟩ := Option.bind_eq_some_iff.mp h
    exact ((takes_skip? hskip).mono fun _ => .inr).trans (hoctet hread)
  rw [quad?] at h
  obtain ⟨rest₁, h₁, h⟩ := Option.bind_eq_some_iff.mp h
  obtain ⟨rest₂, h₂, h⟩ := Option.bind_eq_some_iff.mp h
  obtain ⟨rest₃, h₃, h⟩ := Option.bind_eq_some_iff.mp h
  exact (((hoctet h₁).trans (hdot h₂)).trans (hdot h₃)).trans (hdot h)

theorem forall_mem_of_isIpv4 (h : isIpv4 cs = true) : ∀ c ∈ cs, IsQuadChar c :=
  (takes_quad? (by simpa [isIpv4] using h)).forall_mem

theorem takes_readGroups (room : Nat) (first : Bool) (cs : List Char) :
    Takes IsAddressChar cs (readGroups room first cs).rest := by
  induction room generalizing first cs with
  | zero => exact Takes.refl _ _
  | succ room ih =>
    -- A group is read from the text itself or from behind a colon.
    have hstart : ∀ {α : Type} {read : List Char → Option α} {a : α},
        ((if first then some cs else skip? ':' cs) >>= read) = some a →
          ∃ mid, Takes IsAddressChar cs mid ∧ read mid = some a := by
      intro α read a h
      obtain ⟨mid, hmid, hread⟩ := Option.bind_eq_some_iff.mp h
      refine ⟨mid, ?_, hread⟩
      cases first with
      | true =>
        cases hmid
        exact Takes.refl _ _
      | false => exact (takes_skip? hmid).mono fun _ h => .inr (.inl h)
    rw [readGroups]
    split
    next rest hquad =>
      split at hquad
      · obtain ⟨mid, hmid, hread⟩ := hstart hquad
        exact hmid.trans ((takes_quad? hread).mono fun _ => IsQuadChar.isAddressChar)
      · cases hquad
    next rest _ hgroup =>
      obtain ⟨mid, hmid, hread⟩ := hstart hgroup
      exact (hmid.trans ((takes_group? hread).mono fun _ => .inl)).trans (ih false rest)
    next => exact Takes.refl _ _

theorem forall_mem_of_isIpv6 (h : isIpv6 cs = true) : ∀ c ∈ cs, IsAddressChar c := by
  have hfront := takes_readGroups 8 true cs
  simp only [isIpv6] at h
  split at h
  · rw [decide_eq_true_eq.mp h] at hfront
    exact hfront.forall_mem
  · split at h
    · cases h
    · split at h
      next tail hskip =>
        -- Two colons stand between the groups in front and those behind.
        obtain ⟨mid, h₁, h₂⟩ := Option.bind_eq_some_iff.mp hskip
        have hcolon : ∀ {cs rest}, skip? ':' cs = some rest → Takes IsAddressChar cs rest :=
          fun h => (takes_skip? h).mono fun _ h => .inr (.inl h)
        have hback := takes_readGroups (7 - (readGroups 8 true cs).filled) true tail
        rw [decide_eq_true_eq.mp h] at hback
        exact (((hfront.trans (hcolon h₁)).trans (hcolon h₂)).trans hback).forall_mem
      next => cases h

/-! ### Colons -/

theorem Takes.mem_of_mem {c : Char} (h : Takes P cs rest) (hc : c ∈ rest) : c ∈ cs := by
  obtain ⟨front, rfl, -⟩ := h
  exact List.mem_append_right _ hc

theorem mem_of_skip? {c : Char} (h : skip? c cs = some rest) : c ∈ cs := by
  cases cs with
  | nil => cases h
  | cons d cs =>
    obtain ⟨rfl, -⟩ := Option.ite_none_right_eq_some.mp h
    exact List.mem_cons_self

/-- A group that is not the first stands behind a colon. -/
theorem colon_mem_of_readGroups {room : Nat} (h : (readGroups room false cs).filled ≠ 0) :
    ':' ∈ cs := by
  rcases hskip : skip? ':' cs with _ | rest
  · refine absurd ?_ h
    cases room with
    | zero => rfl
    | succ room => simp [readGroups, hskip]
  · exact mem_of_skip? hskip

/-- **An IPv6 address holds a colon**: between its first two groups, or as part of `::`. -/
theorem colon_mem_of_isIpv6 (h : isIpv6 cs = true) : ':' ∈ cs := by
  simp only [isIpv6] at h
  split at h
  next hfull =>
    -- A quad in front fills two groups only, so the first group is followed by others.
    rw [readGroups] at hfull
    split at hfull
    next => simp at hfull
    next rest _ hgroup =>
      have hmore : (readGroups 7 false rest).filled ≠ 0 := by
        intro hzero
        simp [hzero] at hfull
      exact (takes_group? hgroup).mem_of_mem (colon_mem_of_readGroups hmore)
    next => simp at hfull
  next =>
    split at h
    · cases h
    · split at h
      next tail hskip =>
        obtain ⟨mid, hfirst, -⟩ := Option.bind_eq_some_iff.mp hskip
        exact (takes_readGroups 8 true cs).mem_of_mem (mem_of_skip? hfirst)
      next => cases h

/-! ### DNS names -/

theorem eq_or_mem_splitOn {c : Char} (sep : Char) (hc : c ∈ cs) :
    c = sep ∨ ∃ piece ∈ cs.splitOn sep, c ∈ piece := by
  rw [List.splitOn_eq_splitOnP]
  induction cs with
  | nil => cases hc
  | cons d cs ih =>
    rw [List.splitOnP_cons_eq_if_modifyHead]
    obtain ⟨piece, pieces, hpieces⟩ := List.exists_cons_of_ne_nil
      (List.splitOnP_ne_nil (fun x => x == sep) cs)
    rw [hpieces] at ih ⊢
    split
    next hd =>
      rcases List.mem_cons.mp hc with rfl | hc
      · exact .inl (beq_iff_eq.mp hd)
      · refine (ih hc).imp_right ?_
        rintro ⟨p, hp, hcp⟩
        exact ⟨p, List.mem_cons_of_mem _ hp, hcp⟩
    next =>
      -- The character goes to the front of the first piece.
      rcases List.mem_cons.mp hc with rfl | hc
      · exact .inr ⟨c :: piece, List.mem_cons_self, List.mem_cons_self⟩
      · refine (ih hc).imp_right ?_
        rintro ⟨p, hp, hcp⟩
        rcases List.mem_cons.mp hp with rfl | hp
        · exact ⟨d :: p, List.mem_cons_self, List.mem_cons_of_mem _ hcp⟩
        · exact ⟨p, List.mem_cons_of_mem _ hp, hcp⟩

theorem forall_mem_of_isHostname (h : isHostname cs = true) :
    ∀ c ∈ cs, isLabelChar c = true ∨ c = '.' := by
  simp only [isHostname, Bool.and_eq_true, List.all_eq_true] at h
  intro c hc
  rcases eq_or_mem_splitOn '.' hc with hdot | ⟨label, hlabel, hcl⟩
  · exact .inr hdot
  · have hlabel := h.2 label hlabel
    simp only [isLabel, Bool.and_eq_true, List.all_eq_true] at hlabel
    exact .inl (hlabel.2 c hcl)

/-! ### Accepted hosts -/

/-- A character that may stand in a host. -/
def IsHostChar (c : Char) : Prop :=
  isLabelChar c = true ∨ c = '.' ∨ c = ':'

theorem isAsciiAlnum_of_isHexDigit {c : Char} (h : isHexDigit c = true) :
    isAsciiAlnum c = true := by
  simp only [isHexDigit, Bool.or_eq_true, Bool.and_eq_true, decide_eq_true_eq] at h
  show (c.isUpper || c.isLower || c.isDigit) = true
  simp only [Bool.or_eq_true]
  rcases h with (hdigit | hlower) | hupper
  · exact .inr hdigit
  · have hz : c ≤ 'z' := Nat.le_trans hlower.2 (by decide)
    exact .inl (.inr (Bool.and_eq_true_iff.mpr ⟨decide_eq_true hlower.1, decide_eq_true hz⟩))
  · have hz : c ≤ 'Z' := Nat.le_trans hupper.2 (by decide)
    exact .inl (.inl (decide_eq_true ⟨hupper.1, hz⟩))

theorem IsAddressChar.isHostChar {c : Char} (h : IsAddressChar c) : IsHostChar c := by
  rcases h with h | h | h
  · exact .inl (by rw [isLabelChar, isAsciiAlnum_of_isHexDigit h, Bool.true_or])
  · exact .inr (.inr h)
  · exact .inr (.inl h)

variable {host : String}

theorem toList_ne_nil_of_isValid (h : isValid host = true) : host.toList ≠ [] := by
  intro hnil
  rw [isValid, hnil] at h
  exact absurd h (by decide)

/-- A host that is no IPv6 address is an IPv4 address or a name: it holds no colon. -/
theorem forall_mem_of_not_isIpv6 (h : isValid host = true) (h6 : isIpv6 host.toList = false) :
    ∀ c ∈ host.toList, isLabelChar c = true ∨ c = '.' := by
  rw [isValid, isAddress, h6, Bool.or_false, Bool.or_eq_true] at h
  rcases h with h4 | hname
  · intro c hc
    refine (forall_mem_of_isIpv4 h4 c hc).imp_left fun hdigit => ?_
    have halnum : isAsciiAlnum c = true :=
      isAsciiAlnum_of_isHexDigit (by rw [isHexDigit, hdigit, Bool.true_or, Bool.true_or])
    rw [isLabelChar, halnum, Bool.true_or]
  · exact forall_mem_of_isHostname hname

theorem forall_mem_of_isValid (h : isValid host = true) : ∀ c ∈ host.toList, IsHostChar c := by
  intro c hc
  rcases h6 : isIpv6 host.toList with _ | _
  · exact (forall_mem_of_not_isIpv6 h h6 c hc).imp_right .inl
  · exact (forall_mem_of_isIpv6 h6 c hc).isHostChar

end PeerOverlay.Host
