/-
Quoted text in messages.

`quoted s` puts `s` between double quotes.  Quotes and backslashes are escaped by a
backslash, four control characters have letters of their own, and every other
character that is not printable is written as its code point in braces.
-/
import PeerOverlay.Text.Printable

namespace PeerOverlay.Text

/-- The digits of a code point in lower-case hexadecimal. -/
def hexNumeral (n : Nat) : List Char :=
  Nat.toDigits 16 n

/-- One character inside a quoted text. -/
def escaped (c : Char) : List Char :=
  if c = '\x00' then ['\\', '0']
  else if c = '\t' then ['\\', 't']
  else if c = '\r' then ['\\', 'r']
  else if c = '\n' then ['\\', 'n']
  else if c = '"' then ['\\', '"']
  else if c = '\\' then ['\\', '\\']
  else if isPrintable c then [c]
  else ['\\', 'u', '\x7b'] ++ hexNumeral c.toNat ++ ['\x7d']

/-- A text between double quotes, with escapes. -/
def quoted (s : String) : String :=
  String.ofList ('"' :: s.toList.flatMap escaped ++ ['"'])

end PeerOverlay.Text
