import LogLayout.Text.Blank
import LogLayout.Text.Case

/-!
# Severity levels

The five severities of an event, their numbers and their names. Other level numbers stand for the
highest severity at or below them, and a caller may use three further names besides the five. Main
statement here: `ofNumber_number`, every level is the one its own number stands for.
-/

namespace LogLayout

/-- How severe an event is. -/
inductive Level where
  | trace
  | debug
  | info
  | warn
  | error
  deriving DecidableEq, Repr

namespace Level

/-- Every level, the least severe first. -/
def all : List Level := [trace, debug, info, warn, error]

/-- The number by which a host's level numbers are compared with the level. -/
def number : Level → Int
  | trace => 5
  | debug => 10
  | info => 20
  | warn => 30
  | error => 40

def name : Level → String
  | trace => "TRACE"
  | debug => "DEBUG"
  | info => "INFO"
  | warn => "WARN"
  | error => "ERROR"

instance : LE Level := ⟨fun a b => a.number ≤ b.number⟩

instance (a b : Level) : Decidable (a ≤ b) := inferInstanceAs (Decidable (a.number ≤ b.number))

theorem le_def {a b : Level} : a ≤ b ↔ a.number ≤ b.number := Iff.rfl

/-- The highest level that a number reaches, by a test whether it reaches a level's number; `trace`
if it reaches none. -/
def ofReach (reaches : Int → Bool) : Level :=
  ([error, warn, info, debug].find? fun l => reaches l.number).getD trace

/-- The level that a host's level number stands for. -/
def ofNumber (n : Int) : Level := ofReach (· ≤ n)

theorem ofNumber_number (l : Level) : ofNumber l.number = l := by
  cases l <;> rfl

/-- The names by which a caller may ask for a level, in capitals: those of the levels and three
names that hosts use. -/
def names : List (String × Level) :=
  all.map (fun l => (l.name, l)) ++ [("WARNING", warn), ("CRITICAL", error), ("FATAL", error)]

/-- The level of a name in any letter case, blanks around it ignored. -/
def ofText? (s : String) : Option Level :=
  names.lookup (Text.upper (String.ofList (Text.strip s.toList)))

end Level

end LogLayout
