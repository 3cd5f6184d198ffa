/-
Writing an endpoint that was read.

Reading drops the brackets of every bracketed host; writing puts them back around IPv6
addresses only.  A bracketed word without colons is written as a name and reads back as one.  A
bracketed text with colons that is no address loses its brackets for good, and nothing reads
what is left.

* `host?_shownHost_of_shows` — which hosts that were read are read again as they are shown;
* `parse_text_of_parse` — which endpoints that were read come back from their written form.
-/
import PeerOverlay.Proofs.Endpoint.Grammar

namespace PeerOverlay

open PeerOverlay.Text

namespace Endpoint

variable {s : String} {e : Endpoint} {host : String} {shown : List Char}

/-- Outside brackets no colon is read. -/
theorem host?_eq_none_of_colon_mem (hcolon : ':' ∈ host.toList)
    (hchars : ∀ c ∈ host.toList, isBracketedChar c = true) : host? host.toList = none := by
  refine Option.eq_none_iff_forall_ne_some.mpr fun inner hinner => ?_
  have hshows := host?_eq_some_iff.mp hinner
  generalize host.toList = cs at hshows hcolon hchars
  cases hshows with
  | bare _ hname => exact absurd (hname ':' hcolon) (by decide)
  | bracketed => exact absurd (hchars '[' List.mem_cons_self) (by decide)

/-- A host that was read is read again unless it holds a colon and is no address. -/
theorem host?_shownHost_of_shows (h : Shows shown host.toList) :
    host? (shownHost host).toList =
      if ':' ∉ host.toList ∨ Host.isIpv6 host.toList = true then some host.toList else none := by
  rcases h6 : Host.isIpv6 host.toList with _ | _
  · -- The host is shown as it stands.
    have hname : (∀ c ∈ host.toList, isNameChar c = true) → ':' ∉ host.toList :=
      fun hchars hcolon => absurd (hchars ':' hcolon) (by decide)
    rw [shownHost_of_not_isIpv6 h6]
    cases h with
    | bare hne hchars => rw [host?_of_isNameChar hne hchars, if_pos (.inl (hname hchars))]
    | bracketed hne hchars =>
      by_cases hcolon : ':' ∈ host.toList
      · rw [host?_eq_none_of_colon_mem hcolon hchars, if_neg (by simpa using hcolon)]
      · have hhex : ∀ c ∈ host.toList, isNameChar c = true := by
          intro c hc
          have hne : c ≠ ':' := fun heq => hcolon (heq ▸ hc)
          have hdigit : isHexDigit c = true := by
            simpa [isBracketedChar, hne] using hchars c hc
          simp [isNameChar, Host.isAsciiAlnum_of_isHexDigit hdigit]
        rw [host?_of_isNameChar hne hhex, if_pos (.inl hcolon)]
  · -- An address holds a colon, so it stood in brackets and is shown in brackets again.
    have hcolon := Host.colon_mem_of_isIpv6 h6
    rw [toList_shownHost_of_isIpv6 h6, if_pos (.inr rfl)]
    cases h with
    | bare hne hchars => exact absurd (hchars ':' hcolon) (by decide)
    | bracketed hne hchars => rw [host?_brackets hne, if_pos (List.all_eq_true.mpr hchars)]

/-- **An endpoint that was read comes back from its written form exactly if its host holds no
colon or is an IPv6 address.**  Otherwise the written form is refused as malformed. -/
theorem parse_text_of_parse (h : parse s = .ok e) :
    (parse e.text = .ok e ↔ ':' ∉ e.host.toList ∨ Host.isIpv6 e.host.toList = true) ∧
      (¬(':' ∉ e.host.toList ∨ Host.isIpv6 e.host.toList = true) →
        parse e.text = .error (.malformed e.text)) := by
  obtain ⟨shown, hshows⟩ : ∃ shown, Shows shown e.host.toList := by
    have hanswer := answers_parse s
    rw [h] at hanswer
    cases hanswer with
    | endpoint reads =>
      obtain ⟨core, -, hform⟩ := reads
      exact ⟨_, hform.host⟩
  have hhost := host?_shownHost_of_shows hshows
  have hmalformed : ¬(':' ∉ e.host.toList ∨ Host.isIpv6 e.host.toList = true) →
      parse e.text = .error (.malformed e.text) :=
    fun hlost => parse_text_of_host?_eq_none (hhost.trans (if_neg hlost))
  refine ⟨⟨fun hback => ?_, fun hkept => ?_⟩, hmalformed⟩
  · by_contra hlost
    rw [hmalformed hlost] at hback
    cases hback
  · exact parse_text_of_host?_eq_some (hhost.trans (if_pos hkept))

/-- Two bracketed words with a colon between them are read, but not written back. -/
theorem parse_text_of_parse_words :
    parse "udp://[ab:cd]:00080" = .ok ⟨.udp, "ab:cd", 80⟩ ∧
      parse "udp://ab:cd:80" = .error (.malformed "udp://ab:cd:80") := by
  have hread : parse "udp://[ab:cd]:00080" = .ok ⟨.udp, "ab:cd", 80⟩ := by decide +kernel
  exact ⟨hread, (parse_text_of_parse hread).2 (by decide +kernel)⟩

end Endpoint

end PeerOverlay
