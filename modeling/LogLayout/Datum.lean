import LogLayout.Level
import LogLayout.Binary64

/-!
# Data

What callers hand over from outside: option values, field names and values, documents, settings and
message arguments. A datum may be of any shape; the modules that take one in say which shapes they
accept. Truth values and levels count as integers wherever an integer is asked for, and numbers of
different kinds are equal when they are the same number.
-/

namespace LogLayout

/-- A value handed over by a caller. -/
inductive Datum where
  | null
  | bool (b : Bool)
  | int (n : Int)
  | level (l : Level)
  | float (x : Binary64)
  | text (s : String)
  | bytes (content : List UInt8)
  | list (items : List Datum)
  | tuple (items : List Datum)
  | dictionary (entries : List (Datum × Datum))
  /-- Something else, known only by the text that shows it. -/
  | foreign (shown : String)
  deriving Inhabited

namespace Datum

/-- The name of a datum's kind. -/
def kindName : Datum → String
  | null => "NoneType"
  | bool _ => "bool"
  | int _ => "int"
  | level _ => "Level"
  | float _ => "float"
  | text _ => "str"
  | bytes _ => "bytes"
  | list _ => "list"
  | tuple _ => "tuple"
  | dictionary _ => "dict"
  | foreign _ => "Opaque"

/-- The integer that a truth value, an integer or a level is. -/
def integer? : Datum → Option Int
  | bool b => some (if b then 1 else 0)
  | int n => some n
  | level l => some l.number
  | _ => none

/-- Whether the datum is other than nothing, zero, false and the empty text or collection. -/
def isTruthy : Datum → Bool
  | null => false
  | bool b => b
  | int n => n != 0
  | level _ => true
  | float x => x.toInt? != some 0
  | text s => !s.isEmpty
  | bytes content => !content.isEmpty
  | list items => !items.isEmpty
  | tuple items => !items.isEmpty
  | dictionary entries => !entries.isEmpty
  | foreign _ => true

/-- Equality of an integer with a datum. -/
def equalsInt (n : Int) (d : Datum) : Bool :=
  match d with
  | float x => x.toInt? == some n
  | d => d.integer? == some n

mutual

/-- Whether two data are equal: numbers as numbers, collections of one kind element by element,
dictionaries whatever their order. Nothing equals a foreign datum. -/
def equals : Datum → Datum → Bool
  | null, null => true
  | bool b, d => equalsInt (if b then 1 else 0) d
  | int n, d => equalsInt n d
  | level l, d => equalsInt l.number d
  | float x, float y => x.equals y
  | float x, d => x.toInt?.isSome && x.toInt? == d.integer?
  | text s, text t => s == t
  | bytes a, bytes b => a == b
  | list xs, list ys => equalsAll xs ys
  | tuple xs, tuple ys => equalsAll xs ys
  | dictionary xs, dictionary ys => xs.length == ys.length && equalsEntries xs ys
  | _, _ => false

/-- Equality element by element. -/
def equalsAll : List Datum → List Datum → Bool
  | [], [] => true
  | x :: xs, y :: ys => equals x y && equalsAll xs ys
  | _, _ => false

/-- Whether each entry has an equal one among the others. -/
def equalsEntries : List (Datum × Datum) → List (Datum × Datum) → Bool
  | [], _ => true
  | (k, v) :: rest, others =>
    (others.any fun other => equals k other.1 && equals v other.2) && equalsEntries rest others

end

/-- The value under a key. -/
def lookup? (entries : List (Datum × Datum)) (key : Datum) : Option Datum :=
  (entries.find? fun entry => equals key entry.1).map (·.2)

/-- Puts a value under a key: in the place of an equal key, or at the end. -/
def insertEntry (entries : List (Datum × Datum)) (key value : Datum) : List (Datum × Datum) :=
  if entries.any fun entry => equals key entry.1 then
    entries.map fun entry => if equals key entry.1 then (entry.1, value) else entry
  else entries ++ [(key, value)]

/-- The dictionary of a row of entries: of equal keys the first place and the last value count. -/
def ofEntries (entries : List (Datum × Datum)) : Datum :=
  dictionary (entries.foldl (fun acc entry => insertEntry acc entry.1 entry.2) [])

end Datum

end LogLayout
