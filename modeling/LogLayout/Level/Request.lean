import LogLayout.Level
import LogLayout.Datum.Display
import LogLayout.FaultClass

/-!
# Levels on request

A caller names a level by a text, by a host's level number, or by the level itself. A truth value
counts as a number.
-/

namespace LogLayout

/-- Why a datum names no level. -/
inductive LevelFault where
  /-- No level has this name, which is given as it is shown. -/
  | unknown (shown : String)
  /-- The datum is neither a text nor a number. -/
  | noText (kind : String)
  deriving DecidableEq, Repr

def LevelFault.message : LevelFault → String
  | unknown shown =>
    "Unknown level: " ++ shown ++ ". Use one of " ++ Datum.commaSeparated (Level.all.map Level.name)
  | noText kind => s!"'{kind}' object has no attribute 'strip'"

def LevelFault.faultClass : LevelFault → FaultClass
  | unknown _ => .value
  | noText _ => .ability

namespace Level

/-- The level that a datum names. -/
def ofDatum : Datum → Except LevelFault Level
  | .level l => .ok l
  | .int n => .ok (ofNumber n)
  | .bool b => .ok (ofNumber (if b then 1 else 0))
  | .text s =>
    match ofText? s with
    | some l => .ok l
    | none => .error (.unknown (Text.quoted s))
  | .bytes content => .error (.unknown (Text.quotedBytes content))
  | d => .error (.noText d.kindName)

/-- The fault that a datum cannot be compared with a level. -/
structure Incomparable where
  kind : String
  deriving DecidableEq, Repr

def Incomparable.message (fault : Incomparable) : String :=
  s!"'>=' not supported between instances of '{fault.kind}' and 'Level'"

/-- The level that a host's level number stands for, where the number may be any numeric datum. -/
def ofNumericDatum : Datum → Except Incomparable Level
  | .float x => .ok (ofReach x.atLeast)
  | d =>
    match d.integer? with
    | some n => .ok (ofNumber n)
    | none => .error ⟨d.kindName⟩

end Level

end LogLayout
