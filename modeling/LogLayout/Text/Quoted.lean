import LogLayout.Text.Printable
import LogLayout.Numeral

/-!
# Quoted texts

How a text or a row of bytes is shown inside an error or a list. Apostrophes stand around it,
unless it holds an apostrophe and no double quote; then double quotes do. The quote in use and the
backslash are escaped, and so is whatever is not printable.
-/

namespace LogLayout.Text

/-- The quote that stands around a text, given whether it holds apostrophes and double quotes. -/
def quoteFor (cs : List Char) : Char :=
  if cs.contains '\'' && !cs.contains '"' then '"' else '\''

/-- A code point by the shortest of the three numeric escapes that hold it. -/
def numericEscape (n : Nat) : List Char :=
  if n ≤ 0xFF then '\\' :: 'x' :: Numeral.hex 2 n
  else if n ≤ 0xFFFF then '\\' :: 'u' :: Numeral.hex 4 n
  else '\\' :: 'U' :: Numeral.hex 8 n

/-- A character inside quotes, by a class of characters shown as they are. -/
def escapeChar (plain : Char → Bool) (quote c : Char) : List Char :=
  if c = quote || c = '\\' then ['\\', c]
  else if c = '\n' then ['\\', 'n']
  else if c = '\r' then ['\\', 'r']
  else if c = '\t' then ['\\', 't']
  else if plain c then [c]
  else numericEscape c.toNat

/-- The characters between quotes, escaped. -/
def quoteChars (plain : Char → Bool) (cs : List Char) : List Char :=
  let quote := quoteFor cs
  quote :: cs.flatMap (escapeChar plain quote) ++ [quote]

/-- A text between quotes. -/
def quoted (s : String) : String := String.ofList (quoteChars isPrintable s.toList)

/-- Whether the character is printable ASCII. -/
def isPrintableAscii (c : Char) : Bool := 32 ≤ c.toNat && c.toNat < 127

/-- A row of bytes between quotes, marked by a `b`; each byte stands for the code point of its
value, and none beyond ASCII is shown as it is. -/
def quotedBytes (bytes : List UInt8) : String :=
  String.ofList ('b' :: quoteChars isPrintableAscii (bytes.map fun b => Char.ofNat b.toNat))

/-- A text with every character beyond ASCII as a numeric escape. -/
def asciiOnly (s : String) : String :=
  String.ofList (s.toList.flatMap fun c => if c.toNat < 128 then [c] else numericEscape c.toNat)

end LogLayout.Text
