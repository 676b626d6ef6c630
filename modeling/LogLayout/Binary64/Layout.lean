import LogLayout.Binary64.Shortest

/-!
# Floating-point layouts

The texts of a binary64 number: the default one, which shows the shortest decimal, positionally
from `1e-4` up to below `1e16` and with an exponent elsewhere; and the three layouts of a message
template with a given number of places.
-/

namespace LogLayout.Binary64

/-- Digits with the point after the first `position` of them, filled up with zeros where digits are
lacking; at least one digit stands on each side. -/
def positional (ds : List Char) (position : Int) : List Char :=
  if position ≤ 0 then '0' :: '.' :: List.replicate (-position).toNat '0' ++ ds
  else
    let n := position.toNat
    let whole := ds.take n ++ List.replicate (n - ds.length) '0'
    let fraction := if ds.length ≤ n then ['0'] else ds.drop n
    whole ++ '.' :: fraction

/-- An exponent: its sign and at least two digits. -/
def exponentText (mark : Char) (e : Int) : List Char :=
  mark :: (if e < 0 then '-' else '+') :: Numeral.padded 2 e.natAbs

/-- One digit before the point, the others after it, and the exponent. -/
def scientific (ds : List Char) (mark : Char) (e : Int) : List Char :=
  (match ds with
    | [] => []
    | [d] => [d]
    | d :: more => d :: '.' :: more) ++ exponentText mark e

/-- The default text of a positive number. -/
def defaultMagnitude (m : Nat) (q : Int) : List Char :=
  let d := shortest m q
  let ds := Numeral.digits d.digits
  let point := ds.length + d.exponent
  if -4 < point && point ≤ 16 then positional ds point else scientific ds 'e' (point - 1)

/-- The default text: the shortest decimal that reads back as the number. -/
def defaultText (x : Binary64) : String :=
  match x.meaning with
  | .notANumber => "nan"
  | .infinite negative => if negative then "-inf" else "inf"
  | .finite negative m q =>
    let magnitude := if m = 0 then ['0', '.', '0'] else defaultMagnitude m q
    String.ofList (if negative then '-' :: magnitude else magnitude)

/-- `m * 2 ^ q` rounded to a multiple of `10 ^ (-places)`, as that many multiples. -/
def roundPlaces (m : Nat) (q : Int) (places : Int) : Nat :=
  roundQuotient (m * Nat.pow 2 q.toNat * Nat.pow 10 places.toNat)
    (Nat.pow 2 (-q).toNat * Nat.pow 10 (-places).toNat)

/-- A fixed number of places after the point. The point is left out with the last place, unless it
is asked for. -/
def fixedMagnitude (keepPoint : Bool) (places m : Nat) (q : Int) : List Char :=
  let ds := Numeral.padded (places + 1) (roundPlaces m q places)
  let whole := ds.take (ds.length - places)
  if places = 0 then (if keepPoint then whole ++ ['.'] else whole)
  else whole ++ '.' :: ds.drop (ds.length - places)

/-- A number of significant digits and the power of ten of the first of them. -/
def significant (count m : Nat) (q : Int) : List Char × Int :=
  if m = 0 then (List.replicate count '0', 0)
  else
    let first := pointPosition m q - 1
    let n := roundPlaces m q (count - 1 - first)
    let ds := Numeral.digits n
    if ds.length > count then (ds.take count, first + 1) else (ds, first)

/-- One digit before the point and `places` after it, with an exponent. -/
def exponentMagnitude (keepPoint : Bool) (mark : Char) (places m : Nat) (q : Int) : List Char :=
  let (ds, e) := significant (places + 1) m q
  let front := ds.take 1
  let point := if places = 0 then (if keepPoint then ['.'] else []) else ['.']
  front ++ point ++ ds.drop 1 ++ exponentText mark e

/-- The zeros at the end taken away. -/
def dropTrailingZeros (ds : List Char) : List Char :=
  (ds.reverse.dropWhile (· == '0')).reverse

/-- No number has more significant digits than this, so that further ones are zeros. -/
def mostDigits : Nat := 767

/-- `count` significant digits, positionally if the power of ten of the first lies from `-4` to
below `count`, with an exponent otherwise; zeros at the end are dropped unless the point is asked
for. -/
def generalMagnitude (keepPoint : Bool) (mark : Char) (count m : Nat) (q : Int) : List Char :=
  let count := max (if keepPoint then count else min count mostDigits) 1
  let (ds, e) := significant count m q
  let shown := if keepPoint then ds else
    match dropTrailingZeros ds with
    | [] => ['0']
    | short => short
  if -4 ≤ e && e < count then
    if e < 0 then '0' :: '.' :: List.replicate (-e - 1).toNat '0' ++ shown
    else
      let n := e.toNat + 1
      let whole := shown.take n ++ List.replicate (n - shown.length) '0'
      let fraction := shown.drop n
      if fraction.isEmpty && !keepPoint then whole else whole ++ '.' :: fraction
  else
    let front := shown.take 1
    let tail := shown.drop 1
    let point := if tail.isEmpty && !keepPoint then [] else ['.']
    front ++ point ++ tail ++ exponentText mark e

end LogLayout.Binary64
