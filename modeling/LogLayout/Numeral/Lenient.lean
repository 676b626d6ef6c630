import LogLayout.Numeral
import LogLayout.Text.Blank

/-!
# Lenient numerals

An integer is read from its plain numeral, or else from a text that comes down to one when blanks
around it, a plus sign, zeros at the start, a point with zeros at the end, and underscores are taken
away.
-/

namespace LogLayout.Numeral

/-- Blanks around a numeral: white space, but not the information separators. -/
def isMargin (c : Char) : Bool := Text.isBlank c && !(28 ≤ c.toNat && c.toNat ≤ 31)

/-- A numeral without its minus sign, and whether it had one. -/
def splitMinus : List Char → Bool × List Char
  | '-' :: rest => (true, rest)
  | cs => (false, cs)

/-- The integer of a plain numeral: a minus sign or none, and digits of which the first is no zero,
or a single zero. It has at most `digitLimit` characters, its sign included. -/
def plain? (cs : List Char) : Option Int :=
  let (negative, ds) := splitMinus cs
  if ds.isEmpty || !ds.all Char.isDigit then none
  else if ds.head? == some '0' && ds != ['0'] then none
  else if digitLimit < cs.length then none
  else some (if negative then -ofDigits ds else ofDigits ds)

/-- Whether a text begins like a plain numeral, but with more characters than one may have. -/
def startsTooLong (cs : List Char) : Bool :=
  let (negative, ds) := splitMinus cs
  let length := (ds.takeWhile Char.isDigit).length + negative.toNat
  ds.head? != some '0' && digitLimit < length

/-- The text behind zeros and underscores, of which `zero` was the last. The last zero is kept if
nothing follows or a point. -/
def behindZeros (zero : Char) : List Char → List Char
  | [] => [zero]
  | c :: rest =>
    if c = '0' || c = '_' then behindZeros c rest
    else if c = '.' then zero :: c :: rest
    else c :: rest

/-- The text without the zeros at its start, among which underscores may stand. It has to begin with
a digit or a minus sign. -/
def dropZeros? : List Char → Option (List Char)
  | '0' :: rest => some (behindZeros '0' rest)
  | c :: rest => if c.isDigit || c = '-' then some (c :: rest) else none
  | [] => none

/-- The text without a point and zeros at its end; a point alone stays. -/
def dropFraction (cs : List Char) : List Char :=
  match cs.reverse.dropWhile (· == '0') with
  | '.' :: whole => if cs.getLast? == some '0' then whole.reverse else cs
  | _ => cs

/-- The text without its underscores, if each stands between two other characters. -/
def dropUnderscores (cs : List Char) : List Char :=
  let atEnd := cs.head? == some '_' || cs.getLast? == some '_'
  let double := (cs.zip (cs.drop 1)).any fun (a, b) => a == '_' && b == '_'
  if atEnd || double then cs else cs.filter (· != '_')

/-- The text without a plus sign, which no minus sign may follow. -/
def dropPlus? : List Char → Option (List Char)
  | '+' :: '-' :: _ => none
  | '+' :: rest => some rest
  | cs => some cs

/-- What a text comes down to. -/
def simplified? (cs : List Char) : Option (List Char) :=
  let bare := ((cs.dropWhile isMargin).reverse.dropWhile isMargin).reverse
  ((dropPlus? bare).bind dropZeros?).map fun body => dropUnderscores (dropFraction body)

/-- The integer of a numeral. -/
def lenient? (cs : List Char) : Option Int := (plain? cs).or ((simplified? cs).bind plain?)

end LogLayout.Numeral
