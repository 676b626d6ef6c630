import LogLayout.Datum

/-!
# Complaints about input

What a reader of structured input says about a member it does not accept. A complaint names the
member by its path and gives one reason out of a fixed list. `Checked` collects every complaint of
a reader in the order of its members, so the first one is well defined.
-/

namespace LogLayout

/-- Why a member of some input is refused. -/
inductive Reason where
  | notInteger
  | unreadableInteger
  | numeralTooLong
  | fractionalInteger
  | notFinite
  | below (least : Nat)
  | above (most : Nat)
  | notText
  | notUnicode
  | tooShort (least : Nat)
  | tooLong (most : Nat)
  | notFlag
  | unreadableFlag
  /-- The member is none of the texts allowed. -/
  | noneOf (choices : List String)
  /-- The member names no case of an enumeration. -/
  | noCase (choices : List String)
  | unexpected
  | absent
  | notDictionary
  /-- Neither a dictionary nor a ready value of the named schema. -/
  | notOptions (schema : String)
  | keyNotText
  deriving DecidableEq, Repr

namespace Reason

/-- The short name of a reason. -/
def code : Reason → String
  | notInteger => "int_type"
  | unreadableInteger => "int_parsing"
  | numeralTooLong => "int_parsing_size"
  | fractionalInteger => "int_from_float"
  | notFinite => "finite_number"
  | below _ => "greater_than_equal"
  | above _ => "less_than_equal"
  | notText => "string_type"
  | notUnicode => "string_unicode"
  | tooShort _ => "string_too_short"
  | tooLong _ => "string_too_long"
  | notFlag => "bool_type"
  | unreadableFlag => "bool_parsing"
  | noneOf _ => "literal_error"
  | noCase _ => "enum"
  | unexpected => "extra_forbidden"
  | absent => "missing"
  | notDictionary => "dict_type"
  | notOptions _ => "model_type"
  | keyNotText => "invalid_key"

/-- Quoted choices, the last two joined by a word and the others by commas. -/
def choicesText (choices : List String) : String :=
  let quoted := choices.map fun c => "'" ++ c ++ "'"
  match quoted.reverse with
  | [] => ""
  | [one] => one
  | last :: others => ", ".intercalate others.reverse ++ " or " ++ last

/-- A count of characters. -/
def charactersText (n : Nat) : String :=
  String.ofList (Numeral.digits n) ++ (if n = 1 then " character" else " characters")

/-- The wording of a reason. -/
def message : Reason → String
  | notInteger => "Input should be a valid integer"
  | unreadableInteger =>
    "Input should be a valid integer, unable to parse string as an integer"
  | numeralTooLong => "Unable to parse input string as an integer, exceeded maximum size"
  | fractionalInteger =>
    "Input should be a valid integer, got a number with a fractional part"
  | notFinite => "Input should be a finite number"
  | below least =>
    "Input should be greater than or equal to " ++ String.ofList (Numeral.digits least)
  | above most => "Input should be less than or equal to " ++ String.ofList (Numeral.digits most)
  | notText => "Input should be a valid string"
  | notUnicode => "Input should be a valid string, unable to parse raw data as a unicode string"
  | tooShort least => "String should have at least " ++ charactersText least
  | tooLong most => "String should have at most " ++ charactersText most
  | notFlag => "Input should be a valid boolean"
  | unreadableFlag => "Input should be a valid boolean, unable to interpret input"
  | noneOf choices => "Input should be " ++ choicesText choices
  | noCase choices => "Input should be " ++ choicesText choices
  | unexpected => "Extra inputs are not permitted"
  | absent => "Field required"
  | notDictionary => "Input should be a valid dictionary"
  | notOptions schema => "Input should be a valid dictionary or instance of " ++ schema
  | keyNotText => "Keys should be strings"

end Reason

/-- A member that is refused, and why. -/
structure Complaint where
  path : List String
  reason : Reason
  deriving DecidableEq, Repr

/-- A value that was read, or every complaint about the input, at least one. -/
inductive Checked (α : Type) where
  | valid (value : α)
  | invalid (first : Complaint) (rest : List Complaint)

namespace Checked

variable {α β : Type}

/-- All the complaints, in order. -/
def complaints : Checked α → List Complaint
  | valid _ => []
  | invalid first rest => first :: rest

def map (f : α → β) : Checked α → Checked β
  | valid a => valid (f a)
  | invalid first rest => invalid first rest

/-- Applies a function that was read to an argument that was read; the complaints about the
function come first. -/
def apply : Checked (α → β) → Checked α → Checked β
  | valid f, checked => checked.map f
  | invalid first rest, checked => invalid first (rest ++ checked.complaints)

/-- Adds complaints behind those already there. -/
def butFor (checked : Checked α) (further : List Complaint) : Checked α :=
  match checked, further with
  | valid a, [] => valid a
  | valid _, first :: rest => invalid first rest
  | invalid first rest, further => invalid first (rest ++ further)

/-- One reading with its path. -/
def at' (path : List String) : Except Reason α → Checked α
  | .ok a => valid a
  | .error reason => invalid ⟨path, reason⟩ []

@[simp] theorem complaints_map (f : α → β) (c : Checked α) :
    (c.map f).complaints = c.complaints := by
  cases c <;> rfl

@[simp] theorem complaints_apply (f : Checked (α → β)) (a : Checked α) :
    (f.apply a).complaints = f.complaints ++ a.complaints := by
  cases f <;> cases a <;> simp [apply, map, complaints]

@[simp] theorem complaints_butFor (c : Checked α) (further : List Complaint) :
    (c.butFor further).complaints = c.complaints ++ further := by
  cases c <;> cases further <;> simp [butFor, complaints]

end Checked

/-- A member of a dictionary read strictly; an absent one has a default. -/
def Checked.member {α : Type} (entries : List (Datum × Datum)) (name : String) (default : α)
    (read : Datum → Except Reason α) : Checked α :=
  match Datum.lookup? entries (.text name) with
  | some d => .at' [name] (read d)
  | none => .valid default

/-- A member of a dictionary that must be there. -/
def Checked.required {α : Type} (entries : List (Datum × Datum)) (name : String)
    (read : Datum → Except Reason α) : Checked α :=
  match Datum.lookup? entries (.text name) with
  | some d => .at' [name] (read d)
  | none => .invalid ⟨[name], .absent⟩ []

end LogLayout
