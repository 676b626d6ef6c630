import LogLayout.Datum

/-!
# JSON values

The values of a JSON text. The members of an object keep their order, and no name occurs twice in
an object that was read.
-/

namespace LogLayout

/-- A JSON value. A number without fraction and exponent is an integer. -/
inductive Json where
  | null
  | bool (b : Bool)
  | int (n : Int)
  | float (x : Binary64)
  | text (s : String)
  | list (items : List Json)
  | object (members : List (String × Json))
  deriving Inhabited

namespace Json

mutual

/-- The value as a datum; an object is a dictionary with texts as keys. -/
def toDatum : Json → Datum
  | null => .null
  | bool b => .bool b
  | int n => .int n
  | float x => .float x
  | text s => .text s
  | list items => .list (toData items)
  | object members => .dictionary (toEntries members)

def toData : List Json → List Datum
  | [] => []
  | j :: rest => toDatum j :: toData rest

def toEntries : List (String × Json) → List (Datum × Datum)
  | [] => []
  | (name, j) :: rest => (.text name, toDatum j) :: toEntries rest

end

/-- Puts a member into an object: in the place of a member of that name, or at the end. -/
def insert (members : List (String × Json)) (name : String) (value : Json) :
    List (String × Json) :=
  if members.any fun m => m.1 == name then
    members.map fun m => if m.1 == name then (name, value) else m
  else members ++ [(name, value)]

end Json

end LogLayout
