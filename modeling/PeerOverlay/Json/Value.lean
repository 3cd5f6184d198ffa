/-
JSON values and their printed form.

`Json.Value.print` writes a value over several lines, two blanks a level; an empty list
or object stays on one line.  `escape` writes a character inside a string.
-/
import PeerOverlay.Text.Numeral

namespace PeerOverlay.Json

open PeerOverlay.Text

/-- A JSON value without fractions, truth values and null. -/
inductive Value
  | number (n : Nat)
  | string (s : String)
  | array (items : List Value)
  | object (members : List (String × Value))
deriving Repr

/-- One hexadecimal digit in lower case. -/
def hexDigit (n : Nat) : Char :=
  Nat.digitChar n

/-- A character inside a string: quotes, backslashes and control characters are escaped. -/
def escape (c : Char) : List Char :=
  if c = '"' then ['\\', '"']
  else if c = '\\' then ['\\', '\\']
  else if c = '\x08' then ['\\', 'b']
  else if c = '\x0c' then ['\\', 'f']
  else if c = '\n' then ['\\', 'n']
  else if c = '\r' then ['\\', 'r']
  else if c = '\t' then ['\\', 't']
  else if c.toNat < 0x20 then
    ['\\', 'u', '0', '0', hexDigit (c.toNat / 16), hexDigit (c.toNat % 16)]
  else [c]

/-- A string literal. -/
def literal (s : String) : List Char :=
  '"' :: s.toList.flatMap escape ++ ['"']

/-- A line break and the indentation of a level. -/
def newline (level : Nat) : List Char :=
  '\n' :: List.replicate (2 * level) ' '

/-- Items with commas and line breaks between them, one level further in, between an
opening and a closing bracket. -/
def bracketed (opening closing : Char) (level : Nat) : List (List Char) → List Char
  | [] => [opening, closing]
  | items =>
    opening :: newline (level + 1) ++ (',' :: newline (level + 1)).intercalate items ++
      newline level ++ [closing]

mutual

/-- The printed form of a value that starts at an indentation level. -/
def Value.printAt (level : Nat) : Value → List Char
  | .number n => numeral n
  | .string s => literal s
  | .array items => bracketed '[' ']' level (printItems (level + 1) items)
  | .object members => bracketed '\x7b' '\x7d' level (printMembers (level + 1) members)

/-- The printed forms of the items of an array. -/
def printItems (level : Nat) : List Value → List (List Char)
  | [] => []
  | item :: rest => item.printAt level :: printItems level rest

/-- The printed forms of the members of an object. -/
def printMembers (level : Nat) : List (String × Value) → List (List Char)
  | [] => []
  | (key, value) :: rest =>
    (literal key ++ [':', ' '] ++ value.printAt level) :: printMembers level rest

end

/-- The printed form of a value. -/
def Value.print (v : Value) : String :=
  String.ofList (v.printAt 0)

end PeerOverlay.Json
