/-!
# Machine words

Indices, the parts of a date and the counts of a template are kept in signed words of 32 or 64 bits,
and a long run of one character needs memory. What does not fit is refused, and the refusals say by
which bound.
-/

namespace LogLayout.Word

/-- Whether a signed word of so many bits holds the number. -/
def holds (bits : Nat) (n : Int) : Bool :=
  n < Nat.pow 2 (bits - 1) && -(Nat.pow 2 (bits - 1) : Int) ≤ n

/-- The longest run of one character that there is memory for. -/
def longestRun : Nat := Nat.pow 2 27

end LogLayout.Word
