import LogLayout.Numeral

/-!
# Binary64 numbers

Floating-point numbers as words of 64 bits, with everything about them computed exactly on natural
numbers and integers: what a word stands for, the nearest number to a quotient or to a decimal,
and comparison with integers. Halfway cases of every rounding here go to the even neighbour.
-/

namespace LogLayout

/-- A binary64 number, by its bits. -/
structure Binary64 where
  bits : UInt64
  deriving DecidableEq, Repr

/-- The quotient of two natural numbers rounded to the nearest one, ties to the even one. -/
def roundQuotient (num den : Nat) : Nat :=
  let q := num / den
  let twice := 2 * (num % den)
  if den < twice || (den == twice && q % 2 == 1) then q + 1 else q

namespace Binary64

/-- What a word stands for: `± m * 2 ^ q`, an infinity, or no number. -/
inductive Meaning where
  | finite (negative : Bool) (m : Nat) (q : Int)
  | infinite (negative : Bool)
  | notANumber
  deriving DecidableEq, Repr

def negative (x : Binary64) : Bool := x.bits.toNat / Nat.pow 2 63 == 1

def meaning (x : Binary64) : Meaning :=
  let exponent : Nat := x.bits.toNat / Nat.pow 2 52 % Nat.pow 2 11
  let fraction : Nat := x.bits.toNat % Nat.pow 2 52
  if exponent = 2047 then
    if fraction = 0 then .infinite x.negative else .notANumber
  else if exponent = 0 then .finite x.negative fraction (-1074)
  else .finite x.negative (Nat.pow 2 52 + fraction) ((exponent : Int) - 1075)

/-- The number of the given sign whose other bits are those of a natural number; bits that would
exceed those of infinity give infinity. -/
def ofMagnitude (negative : Bool) (bits : Nat) : Binary64 :=
  ⟨UInt64.ofNat ((if negative then Nat.pow 2 63 else 0) + min bits (2047 * Nat.pow 2 52))⟩

def infinity (negative : Bool) : Binary64 := ofMagnitude negative (2047 * Nat.pow 2 52)

def nan : Binary64 := ⟨0x7FF8000000000000⟩

def zero (negative : Bool) : Binary64 := ofMagnitude negative 0

/-- The largest `e` with `2 ^ e ≤ num / den`. -/
def binaryExponent (num den : Nat) : Int :=
  let guess : Int := num.log2 - den.log2
  if den * Nat.pow 2 guess.toNat ≤ num * Nat.pow 2 (-guess).toNat then guess else guess - 1

/-- The binary64 number nearest to `± num / den`. -/
def ofQuotient (negative : Bool) (num den : Nat) : Binary64 :=
  if num = 0 then zero negative
  else
    let q := max (binaryExponent num den - 52) (-1074)
    let m := roundQuotient (num * Nat.pow 2 (-q).toNat) (den * Nat.pow 2 q.toNat)
    ofMagnitude negative ((q + 1074).toNat * Nat.pow 2 52 + m)

/-- The binary64 number nearest to `± digits * 10 ^ exponent`. Exponents far beyond the range are
cut off first, so that no large power is computed. -/
def ofDecimal (negative : Bool) (digits : Nat) (exponent : Int) : Binary64 :=
  if digits = 0 then zero negative
  else if 400 < exponent then infinity negative
  else if (digits.log2 : Int) + 4 * exponent < -4400 && exponent < -400 then zero negative
  else ofQuotient negative (digits * Nat.pow 10 exponent.toNat) (Nat.pow 10 (-exponent).toNat)

/-- The binary64 number nearest to an integer. -/
def ofInt (n : Int) : Binary64 := ofQuotient (n < 0) n.natAbs 1

def isFinite (x : Binary64) : Bool :=
  match x.meaning with
  | .finite .. => true
  | _ => false

def isNaN (x : Binary64) : Bool := x.meaning == .notANumber

/-- The integer between zero and the number that is nearest to the number. -/
def truncate? (x : Binary64) : Option Int :=
  match x.meaning with
  | .finite negative m q =>
    let n : Nat := m * Nat.pow 2 q.toNat / Nat.pow 2 (-q).toNat
    some (if negative then -n else n)
  | _ => none

/-- The integer that a finite number equals, if it is whole. -/
def toInt? (x : Binary64) : Option Int :=
  match x.meaning with
  | .finite negative m q =>
    if m * Nat.pow 2 q.toNat % Nat.pow 2 (-q).toNat = 0 then
      let n : Nat := m * Nat.pow 2 q.toNat / Nat.pow 2 (-q).toNat
      some (if negative then -n else n)
    else none
  | _ => none

/-- Numerical equality: the two zeros are equal, and what is not a number equals nothing. -/
def equals (x y : Binary64) : Bool :=
  !x.isNaN && !y.isNaN && (x == y || (x.toInt? == some 0 && y.toInt? == some 0))

/-- Whether a number is at least an integer. -/
def atLeast (x : Binary64) (n : Int) : Bool :=
  match x.meaning with
  | .finite negative m q =>
    let size : Nat := m * Nat.pow 2 q.toNat
    let scaled : Int := if negative then -size else size
    n * (Nat.pow 2 (-q).toNat : Nat) ≤ scaled
  | .infinite negative => !negative
  | .notANumber => false

/-- Digits, then optionally a point and digits; the value is the first component times ten to the
second. At least one digit is asked for. -/
def readDigits (cs : List Char) : Option (Nat × Int × List Char) :=
  let whole := cs.takeWhile Char.isDigit
  let rest := cs.dropWhile Char.isDigit
  let (fraction, rest) := match rest with
    | '.' :: more => (more.takeWhile Char.isDigit, more.dropWhile Char.isDigit)
    | _ => ([], rest)
  if whole.isEmpty && fraction.isEmpty then none
  else some (Numeral.ofDigits (whole ++ fraction), -fraction.length, rest)

/-- An exponent mark with an optionally signed numeral, or nothing. -/
def readExponent : List Char → Option Int
  | [] => some 0
  | e :: rest =>
    if e = 'e' || e = 'E' then
      let (negative, ds) := match rest with
        | '-' :: ds => (true, ds)
        | '+' :: ds => (false, ds)
        | ds => (false, ds)
      if ds.isEmpty || !ds.all Char.isDigit then none
      else some (if negative then -Numeral.ofDigits ds else Numeral.ofDigits ds)
    else none

/-- The number that a decimal numeral, `inf` or `nan` stands for. -/
def ofText? (s : String) : Option Binary64 :=
  let (negative, body) := match s.toList with
    | '-' :: body => (true, body)
    | '+' :: body => (false, body)
    | body => (false, body)
  let word := String.ofList (body.map Char.toLower)
  if word = "inf" || word = "infinity" then some (infinity negative)
  else if word = "nan" then some nan
  else do
    let (digits, scale, rest) ← readDigits body
    let exponent ← readExponent rest
    return ofDecimal negative digits (scale + exponent)

end Binary64

end LogLayout
