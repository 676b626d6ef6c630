import LogLayout.Datum.Lenient
import LogLayout.Datum.Display
import LogLayout.Level
import LogLayout.Pattern.Options

/-!
# Settings

How a program is set up from outside: the general level, the pattern and its sigil, the output, the
time zone, and levels for single targets. The members are read leniently and checked one after the
other, so that every complaint is reported.
-/

namespace LogLayout

/-- The standard stream that texts go to. -/
inductive StandardStream where
  | error
  | output
  deriving DecidableEq, Repr

def StandardStream.name : StandardStream → String
  | error => "stderr"
  | output => "stdout"

structure Settings where
  level : Level := .info
  pattern : String
  sigil : Char := '$'
  output : StandardStream := .error
  utc : Bool := false
  /-- The least level for single targets, each named once. -/
  targets : List (String × Level) := []
  deriving DecidableEq, Repr

namespace Settings

/-- The pattern unless another is set. -/
def defaultPattern : String :=
  "$datetime $level(width = 5, alignment = '>') " ++
    "$target$span(prefix = '::', args, args_prefix = '\x7b', args_suffix = '\x7d')" ++
    "$fields(prefix = '\x7b', suffix = '\x7d'): $message"

/-- Whether there is a level for some single target. -/
def hasOverrides (s : Settings) : Bool := !s.targets.isEmpty

/-- The members, in the order in which they are checked. -/
def memberNames : List String := ["level", "pattern", "sigil", "output", "utc", "targets"]

/-- The names of levels that settings hold. -/
def levelNames : List (String × Level) :=
  [("TRACE", .trace), ("DEBUG", .debug), ("INFO", .info), ("WARN", .warn), ("ERROR", .error)]

/-- Names that hosts use for levels, and what settings hold in their stead. -/
def levelAliases : List (String × String) :=
  [("WARNING", "WARN"), ("CRITICAL", "ERROR"), ("FATAL", "ERROR")]

/-- The name in capitals, or what settings hold in its stead. -/
def canonicalLevel (s : String) : String :=
  let name := Text.upper s
  (levelAliases.lookup name).getD name

/-- The level of a name in any letter case. Blanks around the name are not left out. -/
def readLevel (d : Datum) : Except Reason Level :=
  let refused := Reason.noneOf (levelNames.map (·.1))
  match d with
  | .text s =>
    match levelNames.lookup (canonicalLevel s) with
    | some l => .ok l
    | none => .error refused
  | _ => .error refused

theorem readLevel_name (l : Level) : readLevel (.text l.name) = .ok l := by
  have named : levelNames.lookup (canonicalLevel l.name) = some l := by
    cases l <;> decide +kernel
  simp only [readLevel, named]

/-- A text of one character. -/
def readSigil (d : Datum) : Except Reason Char :=
  match d.lenientText with
  | .error reason => .error reason
  | .ok s =>
    match s.toList with
    | [] => .error (.tooShort 1)
    | [c] => .ok c
    | _ => .error (.tooLong 1)

/-- The name of a standard stream. -/
def readOutput (d : Datum) : Except Reason StandardStream :=
  let refused := Reason.noneOf [StandardStream.error.name, StandardStream.output.name]
  match d with
  | .text s =>
    if s = StandardStream.error.name then .ok .error
    else if s = StandardStream.output.name then .ok .output
    else .error refused
  | _ => .error refused

/-- Puts a level under a target: in the place of that target, or at the end. -/
def insertTarget (targets : List (String × Level)) (name : String) (level : Level) :
    List (String × Level) :=
  if targets.any fun entry => entry.1 == name then
    targets.map fun entry => if entry.1 == name then (name, level) else entry
  else targets ++ [(name, level)]

/-- The complaints about one entry of the levels for single targets. -/
def targetEntry (key value : Datum) : Checked (String × Level) :=
  let place := match key with
    | .text s => s
    | d => d.keyName
  ((Checked.at' ["targets", place, "[key]"] key.lenientText).map Prod.mk).apply
    (.at' ["targets", place] (readLevel value))

/-- The levels for single targets. -/
def readEntries : List (Datum × Datum) → Checked (List (String × Level))
  | [] => .valid []
  | (key, value) :: rest =>
    ((targetEntry key value).map fun entry entries => entry :: entries).apply (readEntries rest)

/-- The levels for single targets, from a dictionary. -/
def readTargets (d : Datum) : Checked (List (String × Level)) :=
  match d with
  | .dictionary entries => (readEntries entries).map fun found =>
      found.foldl (fun acc entry => insertTarget acc entry.1 entry.2) []
  | _ => .invalid ⟨["targets"], .notDictionary⟩ []

/-- A member with a default, read from the values that are given. -/
def member {α : Type} (given : String → Option Datum) (name : String) (default : α)
    (read : Datum → Except Reason α) : Checked α :=
  match given name with
  | some d => .at' [name] (read d)
  | none => .valid default

/-- The settings with the given members. -/
def ofMembers (given : String → Option Datum) : Checked Settings :=
  let targets := match given "targets" with
    | some d => readTargets d
    | none => .valid []
  ((((((member given "level" .info readLevel).map Settings.mk).apply
    (member given "pattern" defaultPattern Datum.lenientText)).apply
    (member given "sigil" '$' readSigil)).apply
    (member given "output" .error readOutput)).apply
    (member given "utc" false Datum.lenientFlag)).apply targets

end Settings

end LogLayout
