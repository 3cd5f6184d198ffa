/-
UTF-8 between text and bytes.

`encode` gives the bytes of a text and `decode?` the text of bytes, if they are valid.
`shown` decodes any bytes for display: each maximal piece that begins no character
becomes one replacement character.
-/
namespace PeerOverlay.Text.Utf8

/-- The bytes of a text. -/
def encode (s : String) : List UInt8 :=
  s.toByteArray.data.toList

/-- The text of bytes, if they are valid UTF-8. -/
def decode? (bytes : List UInt8) : Option String :=
  String.fromUTF8? ⟨bytes.toArray⟩

theorem decode?_encode (s : String) : decode? (encode s) = some s := by
  simp [decode?, encode, String.fromUTF8?, String.fromUTF8, s.isValidUTF8]

theorem encode_injective {s t : String} (h : encode s = encode t) : s = t :=
  Option.some.inj (by rw [← decode?_encode s, h, decode?_encode])

/-- What a first byte announces: how many bytes follow, the range of the first of them,
and its own share of the code point. -/
def lead? (b : UInt8) : Option (Nat × UInt8 × UInt8 × Nat) :=
  if 0xC2 ≤ b ∧ b ≤ 0xDF then some (1, 0x80, 0xBF, b.toNat - 0xC0)
  else if b = 0xE0 then some (2, 0xA0, 0xBF, 0)
  else if b = 0xED then some (2, 0x80, 0x9F, 0xD)
  else if 0xE1 ≤ b ∧ b ≤ 0xEF then some (2, 0x80, 0xBF, b.toNat - 0xE0)
  else if b = 0xF0 then some (3, 0x90, 0xBF, 0)
  else if 0xF1 ≤ b ∧ b ≤ 0xF3 then some (3, 0x80, 0xBF, b.toNat - 0xF0)
  else if b = 0xF4 then some (3, 0x80, 0x8F, 4)
  else none

/-- Reads continuation bytes; the first lies in the given range, the others in the general
one.  The answer is the code point, if all are there, and the bytes left. -/
def continuation : (missing : Nat) → (low high : UInt8) → (code : Nat) → List UInt8 →
    Option Nat × List UInt8
  | 0, _, _, code, bytes => (some code, bytes)
  | _ + 1, _, _, _, [] => (none, [])
  | missing + 1, low, high, code, b :: bytes =>
    if low ≤ b ∧ b ≤ high then
      continuation missing 0x80 0xBF (64 * code + (b.toNat - 0x80)) bytes
    else (none, b :: bytes)

theorem continuation_length (missing : Nat) (low high : UInt8) (code : Nat)
    (bytes : List UInt8) :
    (continuation missing low high code bytes).2.length ≤ bytes.length := by
  induction missing generalizing low high code bytes with
  | zero => exact Nat.le_refl _
  | succ missing ih =>
    cases bytes with
    | nil => exact Nat.le_refl _
    | cons b bytes =>
      simp only [continuation]
      split
      · exact Nat.le_succ_of_le (ih _ _ _ _)
      · exact Nat.le_refl _

/-- The characters shown for any bytes. -/
def shownChars : List UInt8 → List Char
  | [] => []
  | b :: bytes =>
    if b < 0x80 then Char.ofNat b.toNat :: shownChars bytes
    else
      match lead? b with
      | none => '\uFFFD' :: shownChars bytes
      | some (missing, low, high, code) =>
        let read := continuation missing low high code bytes
        (read.1.map Char.ofNat).getD '\uFFFD' :: shownChars read.2
termination_by bytes => bytes.length
decreasing_by
  all_goals simp only [List.length_cons]
  · omega
  · omega
  · have := continuation_length missing low high code bytes
    omega

/-- The text shown for any bytes. -/
def shown (bytes : List UInt8) : String :=
  (decode? bytes).getD (String.ofList (shownChars bytes))

end PeerOverlay.Text.Utf8
