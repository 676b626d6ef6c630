/-!
# Blanks

The characters that count as white space inside an option list and around a level name. The set
is wider than the ASCII one: it holds the four separators `U+001C`–`U+001F`, the next-line
control, the no-break space and the space separators of Unicode.
-/

namespace LogLayout.Text

/-- White space: the controls from tab to carriage return, the four information separators, the
space, and every Unicode space, line or paragraph separator. -/
def isBlank (c : Char) : Bool :=
  let n := c.toNat
  (9 ≤ n && n ≤ 13) || (28 ≤ n && n ≤ 32) || n == 0x85 || n == 0xA0 || n == 0x1680 ||
    (0x2000 ≤ n && n ≤ 0x200A) || n == 0x2028 || n == 0x2029 || n == 0x202F || n == 0x205F ||
    n == 0x3000

/-- The characters without the blanks at either end. -/
def strip (cs : List Char) : List Char :=
  (cs.dropWhile isBlank).reverse.dropWhile isBlank |>.reverse

end LogLayout.Text
