import LogLayout.Text.Case
import LogLayout.Text.Quoted

/-!
# Token kinds

The nine attributes of an event that a token can stand for, by name.
-/

namespace LogLayout

/-- What a token stands for. -/
inductive Kind where
  | level
  | datetime
  | target
  | message
  | fields
  | span
  | text
  | file
  | line
  deriving DecidableEq, Repr

namespace Kind

def all : List Kind := [level, datetime, target, message, fields, span, text, file, line]

def name : Kind → String
  | level => "level"
  | datetime => "datetime"
  | target => "target"
  | message => "message"
  | fields => "fields"
  | span => "span"
  | text => "text"
  | file => "file"
  | line => "line"

/-- The name of the schema that a kind's options follow. -/
def schema : Kind → String
  | level => "LevelOptions"
  | datetime => "DatetimeOptions"
  | fields => "FieldsOptions"
  | span => "SpanOptions"
  | text => "TextOptions"
  | target | message | file | line => "NoOptions"

/-- The names of a kind's options, in the order in which they are checked. -/
def optionNames : Kind → List String
  | level => ["width", "alignment"]
  | datetime => ["fmt"]
  | fields => ["prefix", "suffix", "quote"]
  | span => ["prefix", "suffix", "args", "args_prefix", "args_suffix", "quote"]
  | text => ["value"]
  | target | message | file | line => []

/-- The kind of a name in any letter case. Only ASCII letters have a case here: no other letter's
small form occurs in the name of a kind. -/
def ofName? (s : String) : Option Kind := all.find? fun k => Text.sameName k.name s

/-- The kind of a name spelled exactly. -/
def ofExactName? (s : String) : Option Kind := all.find? fun k => k.name == s

/-- The fault that no kind has a name spelled exactly so. -/
structure Unnamed where
  name : String
  deriving DecidableEq, Repr

def Unnamed.message (fault : Unnamed) : String :=
  Text.quoted fault.name ++ " is not a valid TokenKind"

theorem ofExactName?_name (k : Kind) : ofExactName? k.name = some k := by
  cases k <;> decide +kernel

theorem ofName?_name (k : Kind) : ofName? k.name = some k := by
  cases k <;> decide +kernel

end Kind

end LogLayout
