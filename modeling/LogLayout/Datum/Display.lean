import LogLayout.Datum
import LogLayout.Binary64.Layout
import LogLayout.Text.Quoted

/-!
# Showing data

The text that shows a datum inside an error message or as the value of a field: texts and bytes
quoted, floating-point numbers by their shortest decimal, collections in brackets. A datum that
holds an integer too long to be written is not shown at all.
-/

namespace LogLayout.Datum

open Numeral (TooLong)

/-- Items between commas. -/
def commaSeparated (items : List String) : String := ", ".intercalate items

mutual

/-- The text that shows a datum. A tuple of one has a comma after its item. -/
def shown : Datum → Except TooLong String
  | null => .ok "None"
  | bool b => .ok (if b then "True" else "False")
  | int n => Numeral.write n
  | level l => do return "<Level." ++ l.name ++ ": " ++ (← Numeral.write l.number) ++ ">"
  | float x => .ok x.defaultText
  | text s => .ok (Text.quoted s)
  | bytes content => .ok (Text.quotedBytes content)
  | list items => do return "[" ++ commaSeparated (← shownAll items) ++ "]"
  | tuple items => do
    match ← shownAll items with
    | [one] => return "(" ++ one ++ ",)"
    | many => return "(" ++ commaSeparated many ++ ")"
  | dictionary entries => do return "\x7b" ++ commaSeparated (← shownEntries entries) ++ "\x7d"
  | foreign s => .ok s

def shownAll : List Datum → Except TooLong (List String)
  | [] => .ok []
  | d :: rest => do
    let first ← shown d
    return first :: (← shownAll rest)

def shownEntries : List (Datum × Datum) → Except TooLong (List String)
  | [] => .ok []
  | (k, v) :: rest => do
    let key ← shown k
    let value ← shown v
    return (key ++ ": " ++ value) :: (← shownEntries rest)

end

/-- The datum as plain text: a text itself, a level by its number, all else as it is shown. -/
def display : Datum → Except TooLong String
  | text s => .ok s
  | level l => Numeral.write l.number
  | d => d.shown

end LogLayout.Datum
