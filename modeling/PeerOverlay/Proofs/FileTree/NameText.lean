/-
Names with a text.

* `Text.Utf8.encode_eq_flatMap` — a text has the bytes of its characters in a row;
* `Text.Utf8.encode_of_ascii` — a text of ASCII characters has one byte for each;
* `Name.text?_eq_some_iff` — a name with a text is the name of that text;
* `Name.Plain.ofText` — which ASCII texts stand for themselves on a path.
-/
import PeerOverlay.Proofs.FileTree.Lookup

namespace PeerOverlay

open PeerOverlay.Text

/-! ### Text as bytes -/

namespace Text.Utf8

theorem encode_of_decode? {bytes : List UInt8} {s : String} (h : decode? bytes = some s) :
    encode s = bytes := by
  rw [decode?, String.fromUTF8?] at h
  split at h
  · rw [← Option.some.inj h]
    rfl
  · cases h

theorem encode_eq_flatMap (s : String) : encode s = s.toList.flatMap String.utf8EncodeChar := by
  conv_lhs => rw [encode, ← s.ofList_toList, String.toByteArray_ofList, List.utf8Encode]
  rw [List.data_toByteArray]

theorem encode_of_ascii {s : String} (h : ∀ c ∈ s.toList, c.val ≤ 127) :
    encode s = s.toList.map fun c => c.val.toUInt8 := by
  rw [encode_eq_flatMap, List.map_eq_flatMap]
  refine List.flatMap_congr fun c hc => ?_
  exact String.utf8EncodeChar_eq_singleton (Char.utf8Size_eq_one_iff.mpr (h c hc))

theorem utf8ByteSize_eq_length (s : String) :
    s.utf8ByteSize = (s.toList.flatMap String.utf8EncodeChar).length := by
  rw [← encode_eq_flatMap]
  rfl

end Text.Utf8

/-- A digit is an ASCII character and no slash. -/
theorem Text.val_of_isDigit {c : Char} (h : c.isDigit = true) :
    0x2E ≤ c.val ∧ c.val ≠ 0x2F ∧ c.val ≤ 127 := by
  simp only [Char.isDigit, Bool.and_eq_true, decide_eq_true_eq] at h
  obtain ⟨hlow, hhigh⟩ := h
  refine ⟨UInt32.le_trans (by decide) hlow, fun hslash => ?_, UInt32.le_trans hhigh (by decide)⟩
  rw [hslash] at hlow
  exact absurd hlow (by decide)

namespace Name

variable {n : Name} {s : String}

theorem text?_eq_some_iff : n.text? = some s ↔ n = ofText s := by
  constructor
  · intro h
    rw [ofText, Utf8.encode_of_decode? h]
  · rintro rfl
    exact Utf8.decode?_encode s

/-- **An ASCII text without a slash and a zero stands for itself on a path,** unless it is made
of points. -/
theorem Plain.ofText (h : ∀ c ∈ s.toList, 0 < c.val ∧ c.val ≠ 0x2F ∧ c.val ≤ 127)
    {c : Char} (hmem : c ∈ s.toList) (hpoint : c.val ≠ 0x2E) : (Name.ofText s).Plain := by
  have hbytes : (Name.ofText s).bytes = s.toList.map fun c => c.val.toUInt8 :=
    Utf8.encode_of_ascii fun c hc => (h c hc).2.2
  have hnat : ∀ c ∈ s.toList, c.val.toUInt8.toNat = c.val.toNat := by
    intro c hc
    rw [UInt32.toNat_toUInt8]
    have hhigh := UInt32.le_iff_toNat_le.mp (h c hc).2.2
    exact Nat.mod_eq_of_lt (Nat.lt_of_le_of_lt hhigh (by decide))
  -- A byte below 128 is the byte of one character only.
  have hbyte : ∀ b : UInt8, b ∈ (Name.ofText s).bytes → ∃ c ∈ s.toList, c.val.toNat = b.toNat := by
    intro b hb
    rw [hbytes] at hb
    obtain ⟨c, hc, rfl⟩ := List.mem_map.mp hb
    exact ⟨c, hc, (hnat c hc).symm⟩
  have hother : ∀ bytes : List UInt8, (∀ b ∈ bytes, b = 0x2E) → (Name.ofText s).bytes ≠ bytes := by
    rintro bytes hpoints rfl
    have hb : c.val.toUInt8 ∈ (Name.ofText s).bytes := by
      rw [hbytes]
      exact List.mem_map_of_mem hmem
    refine hpoint (UInt32.toNat_inj.mp ?_)
    rw [← hnat c hmem, hpoints _ hb]
    rfl
  refine ⟨hother [] (by simp), fun hslash => ?_, fun hzero => ?_, hother _ (by simp),
    hother _ (by simp)⟩
  · obtain ⟨c, hc, hval⟩ := hbyte _ hslash
    exact (h c hc).2.1 (UInt32.toNat_inj.mp hval)
  · obtain ⟨c, hc, hval⟩ := hbyte _ hzero
    exact absurd (h c hc).1 (by rw [UInt32.lt_iff_toNat_lt, hval]; decide)

end Name

end PeerOverlay
