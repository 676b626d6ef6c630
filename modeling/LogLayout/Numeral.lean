/-!
# Numerals

Decimal numerals and their length limit: a numeral of more than `4300` digits is neither read nor
written. The sign does not count as a digit, a leading zero does.
-/

namespace LogLayout

namespace Numeral

/-- The most digits that a numeral may have. -/
def digitLimit : Nat := 4300

/-- The refusal to write a number whose numeral would be longer than `digitLimit`. -/
structure TooLong where
  deriving DecidableEq, Repr

def TooLong.message (_ : TooLong) : String :=
  s!"Exceeds the limit ({digitLimit} digits) for integer string conversion; use " ++
    "sys.set_int_max_str_digits() to increase the limit"

/-- The digit of a number below ten. -/
def digit (n : Nat) : Char := Char.ofNat (48 + n % 10)

/-- The value of a decimal digit. -/
def digitValue (c : Char) : Nat := c.toNat - 48

/-- The decimal digits of a number, the highest first; zero has one digit. -/
def digits (n : Nat) : List Char :=
  if n < 10 then [digit n] else digits (n / 10) ++ [digit n]
termination_by n

/-- The number that a row of decimal digits stands for. -/
def ofDigits (cs : List Char) : Nat := cs.foldl (fun n c => 10 * n + digitValue c) 0

/-- The numeral of an integer: its digits, after a minus sign if it is negative. -/
def signed (n : Int) : List Char := if n < 0 then '-' :: digits n.natAbs else digits n.natAbs

/-- The numeral of an integer as a text, refused when it is too long. -/
def write (n : Int) : Except TooLong String :=
  if (digits n.natAbs).length > digitLimit then .error {} else .ok (String.ofList (signed n))

/-- The decimal numeral of a natural number, padded with zeros on the left to a width. -/
def padded (width n : Nat) : List Char :=
  let ds := digits n
  List.replicate (width - ds.length) '0' ++ ds

/-- The small hexadecimal digit of a number below sixteen. -/
def hexDigit (n : Nat) : Char := if n % 16 < 10 then digit (n % 16) else Char.ofNat (87 + n % 16)

/-- The last `width` hexadecimal digits of a number. -/
def hex : Nat → Nat → List Char
  | 0, _ => []
  | width + 1, n => hex width (n / 16) ++ [hexDigit n]

/-- The digits of a number in a base from two to sixteen. -/
def inBase (base n : Nat) : List Char :=
  if h : base < 2 ∨ n < base then [hexDigit n]
  else
    have : n / base < n := Nat.div_lt_self (by omega) (by omega)
    inBase base (n / base) ++ [hexDigit (n % base)]
termination_by n

/-- The value of a hexadecimal digit of either case. -/
def hexValue? (c : Char) : Option Nat :=
  if '0' ≤ c && c ≤ '9' then some (c.toNat - 48)
  else if 'a' ≤ c && c ≤ 'f' then some (c.toNat - 87)
  else if 'A' ≤ c && c ≤ 'F' then some (c.toNat - 55)
  else none

theorem digits_ne_nil (n : Nat) : digits n ≠ [] := by
  rw [digits]
  split <;> simp

theorem digitValue_digit (n : Nat) : digitValue (digit n) = n % 10 := by
  have below : ∀ d, d < 10 → digitValue (Char.ofNat (48 + d)) = d := by decide
  exact below _ (Nat.mod_lt _ (by omega))

theorem ofDigits_append (cs : List Char) (c : Char) :
    ofDigits (cs ++ [c]) = 10 * ofDigits cs + digitValue c := by
  simp [ofDigits]

/-- Reading back the digits of a number gives the number. -/
theorem ofDigits_digits (n : Nat) : ofDigits (digits n) = n := by
  fun_induction digits n with
  | case1 n h => simp [ofDigits, digitValue_digit, Nat.mod_eq_of_lt h]
  | case2 n _ ih =>
    rw [ofDigits_append, ih, digitValue_digit]
    omega

end Numeral

end LogLayout
