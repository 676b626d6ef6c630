import LogLayout.Pattern.Fault
import LogLayout.Datum.Lenient
import LogLayout.FaultClass
import LogLayout.Word

/-!
# Reports from data

A report on a rejected pattern can be rebuilt from its parts. The parts are read leniently; only the
class must be one of the known names and the message must say something. The position may then lie
far beyond the pattern, and `formatted` says whether the caret can be put there.
-/

namespace LogLayout.ParseError

/-- The name of a class of faults. -/
def readCode (d : Datum) : Except Reason ErrorCode :=
  match d.lenientText.toOption.bind ErrorCode.ofName? with
  | some code => .ok code
  | none => .error (.noCase (ErrorCode.all.map ErrorCode.name))

/-- A message that is not empty. -/
def readMessage (d : Datum) : Except Reason String :=
  match d.lenientText with
  | .error reason => .error reason
  | .ok s => if s.isEmpty then .error (.tooShort 1) else .ok s

/-- A position, which is not negative. -/
def readPosition (d : Datum) : Except Reason Nat :=
  match d.lenientInteger with
  | .error reason => .error reason
  | .ok n => if n < 0 then .error (.below 0) else .ok n.toNat

/-- The report made of the given parts. -/
def ofData (code message position pattern : Datum) : Checked ParseError :=
  ((((Checked.at' ["code"] (readCode code)).map ParseError.mk).apply
    (.at' ["message"] (readMessage message))).apply
    (.at' ["position"] (readPosition position))).apply
    (.at' ["pattern"] pattern.lenientText)

/-- Why there is no text with a caret below the position. -/
inductive CaretFault where
  /-- The number of blanks before the caret does not fit into a word of 64 bits. -/
  | beyondIndex
  | noMemory
  deriving DecidableEq, Repr

def CaretFault.message : CaretFault → String
  | beyondIndex => "cannot fit 'int' into an index-sized integer"
  | noMemory => ""

def CaretFault.faultClass : CaretFault → FaultClass
  | beyondIndex => .overflow
  | noMemory => .memory

/-- The message with the line and the caret, if there is room for the blanks before the caret. -/
def formatted (e : ParseError) : Except CaretFault String :=
  if e.pattern.isEmpty || e.indent ≤ Word.longestRun then .ok e.format
  else .error (if Word.holds 64 e.indent then .noMemory else .beyondIndex)

theorem formatted_of_indent_le {e : ParseError} (h : e.indent ≤ Word.longestRun) :
    e.formatted = .ok e.format := by
  simp [formatted, h]

end LogLayout.ParseError
