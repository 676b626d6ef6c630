import LogLayout.Json.Reader
import LogLayout.Settings

/-!
# Settings from the environment

Members of the settings can be given by environment variables, whose names have a common beginning
and no letter case, and directly; what is given directly counts more. The levels for single targets
are given as a JSON object, or one by one in variables whose names continue with two underscores and
the target; dictionaries from several places are merged, entry by entry.
-/

namespace LogLayout

/-- Environment variables in the order in which they were set. -/
abbrev Environment := List (String × String)

/-- Why a variable cannot be set. -/
inductive VariableFault where
  /-- A name or a value holds the character zero, which ends texts in an environment. -/
  | zeroCharacter
  /-- A name holds the sign that parts names from values. -/
  | malformedName
  deriving DecidableEq, Repr

def VariableFault.message : VariableFault → String
  | zeroCharacter => "embedded null byte"
  | malformedName => "illegal environment variable name"

/-- Sets a variable: in its place, or at the end. -/
def Environment.set (env : Environment) (name value : String) : Environment :=
  if env.any fun entry => entry.1 == name then
    env.map fun entry => if entry.1 == name then (name, value) else entry
  else env ++ [(name, value)]

/-- Sets a variable if an environment can hold it. -/
def Environment.put (env : Environment) (name value : String) :
    Except VariableFault Environment :=
  if name.toList.contains '\x00' || value.toList.contains '\x00' then .error .zeroCharacter
  else if name.toList.contains '=' then .error .malformedName
  else .ok (env.set name value)

/-- The variables with their names in small letters; of equal names the last counts. -/
def Environment.normalize (env : Environment) : Environment :=
  env.foldl (fun acc entry => Environment.set acc (Text.lower entry.1) entry.2) []

namespace Settings

/-- Why there are no settings. -/
inductive Fault where
  /-- A variable is not the JSON text that its member needs. -/
  | unreadable (name : String)
  | invalid (first : Complaint) (rest : List Complaint)
  deriving DecidableEq, Repr

def Fault.message : Fault → String
  | unreadable name =>
    "error parsing value for field \"" ++ name ++ "\" from source \"EnvSettingsSource\""
  | invalid first _ => first.reason.message

/-- How the names of the variables begin. -/
def variableStart : String := "patternlog_"

/-- What parts the name of a member from the names of what is in it. -/
def nesting : List Char := ['_', '_']

/-- The parts of a name between the places where it is parted; `part` is the part being read, its
last character first. -/
def splitNested (part : List Char) : List Char → List (List Char)
  | '_' :: '_' :: rest => part.reverse :: splitNested [] rest
  | c :: rest => splitNested (c :: part) rest
  | [] => [part.reverse]

/-- Puts a value into nested dictionaries at the end of a path of keys. Where a key of the path has
a value that is no dictionary already, nothing is changed. -/
def insertAt : List String → Datum → Datum → Datum
  | [], value, _ => value
  | [key], value, .dictionary entries => .dictionary (Datum.insertEntry entries (.text key) value)
  | key :: path, value, .dictionary entries =>
    let inner := (Datum.lookup? entries (.text key)).getD (.dictionary [])
    .dictionary (Datum.insertEntry entries (.text key) (insertAt path value inner))
  | _ :: _, _, d => d

/-- The levels for single targets from variables of their own. -/
def nestedTargets (env : Environment) : Datum :=
  let start := variableStart.toList ++ "targets".toList ++ nesting
  env.foldl (fun acc (name, value) =>
    if start.isPrefixOf name.toList then
      let path := (splitNested [] (name.toList.drop start.length)).map String.ofList
      insertAt path (.text value) acc
    else acc) (.dictionary [])

mutual

/-- A dictionary with the entries of another one put over its own; dictionaries under the same key
are merged likewise. Any other datum takes the place of what it is put over. -/
def overlay (lower : Datum) : Datum → Datum
  | .dictionary upper =>
    match lower with
    | .dictionary entries => .dictionary (overlayEntries entries upper)
    | _ => .dictionary upper
  | upper => upper

def overlayEntries (lower : List (Datum × Datum)) : List (Datum × Datum) → List (Datum × Datum)
  | [] => lower
  | (key, value) :: rest =>
    let merged := match Datum.lookup? lower key with
      | some under => overlay under value
      | none => value
    overlayEntries (Datum.insertEntry lower key merged) rest

end

/-- The levels for single targets from all variables. -/
def environmentTargets (env : Environment) : Except Fault (Option Datum) :=
  let nested := nestedTargets env
  match env.lookup (variableStart ++ "targets") with
  | none => .ok (if nested.isTruthy then some nested else none)
  | some text =>
    match Json.read .wide text with
    | none => .error (.unreadable "targets")
    | some .null => .ok none
    | some (.object members) => .ok (some (overlay (Json.object members).toDatum nested))
    | some j => .ok (some j.toDatum)

/-- The value given directly for a member: the first one under its name in any letter case. -/
def direct (given : List (String × Datum)) (name : String) : Option Datum :=
  (given.find? fun entry => Text.lower entry.1 == name).map (·.2)

/-- The settings of an environment and of what is given directly. -/
def ofSources (env : Environment) (given : List (String × Datum)) : Except Fault Settings :=
  let env := env.normalize
  match environmentTargets env with
  | .error fault => .error fault
  | .ok targets =>
    let found (name : String) : Option Datum :=
      let exported := if name = "targets" then targets
        else (env.lookup (variableStart ++ name)).map .text
      match exported, direct given name with
      | some lower, some upper => some (overlay lower upper)
      | exported, none => exported
      | none, some upper => some upper
    match ofMembers found with
    | .valid s => .ok s
    | .invalid first rest => .error (.invalid first rest)

end Settings

end LogLayout
