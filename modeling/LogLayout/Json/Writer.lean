import LogLayout.Json
import LogLayout.Binary64.Layout

/-!
# Writing JSON

The compact text of a JSON value: no white space between its parts, and only those characters of a
text escaped that have to be.
-/

namespace LogLayout.Json

/-- A character inside a JSON text. -/
def escape (c : Char) : List Char :=
  if c = '"' || c = '\\' then ['\\', c]
  else if c = '\n' then ['\\', 'n']
  else if c = '\r' then ['\\', 'r']
  else if c = '\t' then ['\\', 't']
  else if c = '\x08' then ['\\', 'b']
  else if c = '\x0c' then ['\\', 'f']
  else if c.toNat < 32 then '\\' :: 'u' :: Numeral.hex 4 c.toNat
  else [c]

/-- A text between double quotes. -/
def writeText (s : String) : List Char := '"' :: s.toList.flatMap escape ++ ['"']

/-- Items with commas between them. -/
def commas (items : List (List Char)) : List Char := [','].intercalate items

mutual

/-- The characters of a JSON value. A number that is not finite is written as null. -/
def write : Json → List Char
  | null => "null".toList
  | bool b => (if b then "true" else "false").toList
  | int n => Numeral.signed n
  | float x => if x.isFinite then x.defaultText.toList else "null".toList
  | text s => writeText s
  | list items => '[' :: commas (writeAll items) ++ [']']
  | object members => '\x7b' :: commas (writeMembers members) ++ ['\x7d']

def writeAll : List Json → List (List Char)
  | [] => []
  | j :: rest => write j :: writeAll rest

def writeMembers : List (String × Json) → List (List Char)
  | [] => []
  | (name, j) :: rest => (writeText name ++ ':' :: write j) :: writeMembers rest

end

end LogLayout.Json
