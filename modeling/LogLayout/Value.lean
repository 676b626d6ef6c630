import LogLayout.Datum

/-!
# Field values

What is attached to an event or a span under a name. A captured value is built of truth values,
integers, floating-point numbers, texts and sequences of these; `Captured` says so. Only a field
that its caller built by hand can hold anything else, and such a datum is kept as it is.
-/

namespace LogLayout

/-- The value of a field. -/
inductive Value where
  | bool (b : Bool)
  | int (n : Int)
  | float (x : Binary64)
  | text (s : String)
  | seq (items : List Value)
  /-- A datum that was attached without being captured. -/
  | foreign (source : Datum)
  deriving Inhabited

/-- A named value. -/
structure Field where
  name : String
  value : Value
  deriving Inhabited

namespace Value

mutual

/-- The value as a datum; a sequence is a tuple. -/
def toDatum : Value → Datum
  | bool b => .bool b
  | int n => .int n
  | float x => .float x
  | text s => .text s
  | seq items => .tuple (toData items)
  | foreign source => source

def toData : List Value → List Datum
  | [] => []
  | v :: rest => toDatum v :: toData rest

end

mutual

/-- Whether the value holds nothing foreign at any depth. -/
def isCaptured : Value → Bool
  | seq items => areCaptured items
  | foreign _ => false
  | _ => true

def areCaptured : List Value → Bool
  | [] => true
  | v :: rest => isCaptured v && areCaptured rest

end

/-- Two values are equal when they are so as data. -/
def equals (v w : Value) : Bool := v.toDatum.equals w.toDatum

end Value

/-- Two fields are equal when their names and values are. -/
def Field.equals (f g : Field) : Bool := f.name == g.name && f.value.equals g.value

/-- Equality of two rows of fields. -/
def Field.equalsAll : List Field → List Field → Bool
  | [], [] => true
  | f :: fs, g :: gs => f.equals g && equalsAll fs gs
  | _, _ => false

end LogLayout
