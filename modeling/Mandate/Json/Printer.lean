/-
Writing JSON.

Texts are compact: no blanks, members in the order they are given, and escapes only where a string
needs them.
-/
import Mandate.Bytes

namespace Mandate
namespace Json
namespace Printer

/-- How one character is written inside a string. -/
def escape (c : Char) : List Char :=
  if c = '"' then ['\\', '"']
  else if c = '\\' then ['\\', '\\']
  else if c = '\x08' then ['\\', 'b']
  else if c = '\x0c' then ['\\', 'f']
  else if c = '\n' then ['\\', 'n']
  else if c = '\r' then ['\\', 'r']
  else if c = '\t' then ['\\', 't']
  else if c < ' ' then
    ['\\', 'u', '0', '0', Nat.digitChar (c.toNat / 16), Nat.digitChar (c.toNat % 16)]
  else [c]

def string (s : String) : List Char :=
  ['"'] ++ s.toList.flatMap escape ++ ['"']

def natural (n : Nat) : List Char :=
  Nat.toDigits 10 n

/-- Texts with commas between them. -/
def commaSeparated : List (List Char) → List Char
  | [] => []
  | [t] => t
  | t :: rest => t ++ [','] ++ commaSeparated rest

def array (items : List (List Char)) : List Char :=
  ['['] ++ commaSeparated items ++ [']']

def object (members : List (String × List Char)) : List Char :=
  ['\x7b'] ++ commaSeparated (members.map fun m => string m.1 ++ [':'] ++ m.2) ++ ['\x7d']

end Printer
end Json
end Mandate
