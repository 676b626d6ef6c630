import LogLayout.Value
import LogLayout.Datum.Display

/-!
# Field texts

The text of a value and of a row of fields in a rendered event. Text stands between quotes of the
caller's choice and is not escaped, truth values are small words, sequences stand in brackets.
-/

namespace LogLayout

open Numeral (TooLong)

mutual

/-- The text of a value, text parts between the given quotes. -/
def Value.render (quote : String) : Value → Except TooLong String
  | .text s => .ok (quote ++ s ++ quote)
  | .bool b => .ok (if b then "true" else "false")
  | .int n => Numeral.write n
  | .float x => .ok x.defaultText
  | .seq items => do return "[" ++ ",".intercalate (← Value.renderAll quote items) ++ "]"
  | .foreign source => source.shown

def Value.renderAll (quote : String) : List Value → Except TooLong (List String)
  | [] => .ok []
  | v :: rest => do
    let first ← v.render quote
    return first :: (← Value.renderAll quote rest)

end

/-- The quote around text unless another is asked for: a grave accent. -/
def defaultQuote : Char := '\x60'

/-- A name, an equals sign and the text of the value. -/
def Field.render (quote : String) (f : Field) : Except TooLong String := do
  return f.name ++ "=" ++ (← f.value.render quote)

/-- The texts of the fields between commas. -/
def Field.renderAll (quote : String) (fields : List Field) : Except TooLong String := do
  return ",".intercalate (← fields.mapM (Field.render quote))

end LogLayout
