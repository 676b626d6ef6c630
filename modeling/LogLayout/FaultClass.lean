/-!
# Classes of faults

Faults are told apart by what is wrong in general, whatever part of the library they come from.
-/

namespace LogLayout

/-- What is wrong in general. -/
inductive FaultClass where
  /-- A value of the right kind is not acceptable. -/
  | value
  /-- A value is of the wrong kind. -/
  | kind
  /-- A place lies outside a row. -/
  | place
  /-- A dictionary lacks a key. -/
  | key
  /-- A value lacks an ability. -/
  | ability
  /-- A number is too large. -/
  | overflow
  /-- A device refuses. -/
  | device
  /-- There is not enough memory. -/
  | memory
  deriving DecidableEq, Repr

end LogLayout
