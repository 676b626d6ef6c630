import LogLayout.Binary64

/-!
# Shortest decimals

The decimal with the fewest digits among those that round to a given binary64 number, and of these
the nearest to it. On the grid of each digit count only the two neighbours of the number can be the
nearest, so it is enough to try these two.
-/

namespace LogLayout.Binary64

/-- `digits * 10 ^ exponent` -/
structure Decimal where
  digits : Nat
  exponent : Int
  deriving DecidableEq, Repr

/-- `a * 10 ^ i` against `b * 2 ^ j`. -/
def compareScaled (a : Nat) (i : Int) (b : Nat) (j : Int) : Ordering :=
  compare (a * Nat.pow 10 i.toNat * Nat.pow 2 (-j).toNat)
    (b * Nat.pow 2 j.toNat * Nat.pow 10 (-i).toNat)

/-- Whether a decimal rounds to `m * 2 ^ q`: it lies between the midpoints to the two neighbours,
themselves included when `m` is even. Below a power of two the neighbour is half as far away. -/
def roundsTo (m : Nat) (q : Int) (d : Decimal) : Bool :=
  let narrow := m == Nat.pow 2 52 && q > -1074
  let low := compareScaled d.digits d.exponent (if narrow then 4 * m - 1 else 4 * m - 2) (q - 2)
  let high := compareScaled d.digits d.exponent (4 * m + 2) (q - 2)
  (low == .gt && high == .lt) || (m % 2 == 0 && (low == .eq || high == .eq))

/-- The least `k` from the given one on with `m * 2 ^ q < 10 ^ k`, looked for in a few steps. -/
def decimalExponent (m : Nat) (q : Int) : Nat → Int → Int
  | 0, k => k
  | steps + 1, k => if compareScaled 1 k m q == .gt then k else decimalExponent m q steps (k + 1)

/-- The number of digits before the point of `m * 2 ^ q`, negative if zeros follow the point: the
binary exponent gives it up to one or two. -/
def pointPosition (m : Nat) (q : Int) : Int :=
  decimalExponent m q 4 (((m.log2 : Int) + q) * 30103 / 100000)

/-- The better of the two neighbours of `m * 2 ^ q` on the grid `10 ^ exponent`, if one rounds to
it. -/
def onGrid (m : Nat) (q : Int) (exponent : Int) : Option Decimal :=
  let num := m * Nat.pow 2 q.toNat * Nat.pow 10 (-exponent).toNat
  let den := Nat.pow 2 (-q).toNat * Nat.pow 10 exponent.toNat
  let below : Decimal := ⟨num / den, exponent⟩
  let above : Decimal := ⟨num / den + 1, exponent⟩
  let nearest : Decimal := ⟨roundQuotient num den, exponent⟩
  if roundsTo m q nearest then some nearest
  else if roundsTo m q below then some below
  else if roundsTo m q above then some above
  else none

/-- The decimal without the zeros at its end. -/
def Decimal.trim : Nat → Decimal → Decimal
  | 0, d => d
  | steps + 1, d =>
    if d.digits % 10 = 0 && d.digits ≠ 0 then trim steps ⟨d.digits / 10, d.exponent + 1⟩ else d

/-- The shortest decimal that rounds to `m * 2 ^ q`, for a positive `m`. Seventeen digits always
suffice. -/
def shortest (m : Nat) (q : Int) : Decimal :=
  let point := pointPosition m q
  let found := (List.range 17).findSome? fun n => onGrid m q (point - (n + 1 : Nat))
  (found.getD ⟨m * Nat.pow 2 q.toNat * Nat.pow 5 (-q).toNat, min q 0⟩).trim 800

end LogLayout.Binary64
