import LogLayout.Json.Lexeme

/-!
# Reading JSON

The value of a JSON text. The lexemes are taken in one after the other; what has been read so far is
kept as the stack of the lists and objects that are still open. A text is one value, and nothing may
follow it.
-/

namespace LogLayout.Json

/-- A list or an object that is still open, with what it holds so far. -/
inductive Open where
  /-- The items, the last one first. -/
  | list (items : List Json)
  /-- The members, and the name that waits for its value. -/
  | object (members : List (String × Json)) (name : Option String)

/-- What may come next. -/
inductive Expected where
  | value
  /-- A value, or the end of the list that has just begun. -/
  | firstItem
  /-- A name, or the end of the object that has just begun. -/
  | firstName
  | name
  | colon
  /-- A comma, or the end of the list or object. -/
  | separator
  /-- Nothing. -/
  | nothing
  deriving DecidableEq

/-- The state of a reader. -/
structure Reader where
  stack : List Open := []
  expected : Expected := .value
  result : Option Json := none

namespace Reader

/-- Takes in a value that is complete. -/
def complete (r : Reader) (j : Json) : Option Reader :=
  match r.stack with
  | [] => some ⟨[], .nothing, some j⟩
  | .list items :: rest => some ⟨.list (j :: items) :: rest, .separator, none⟩
  | .object members (some name) :: rest =>
    some ⟨.object (insert members name j) none :: rest, .separator, none⟩
  | .object _ none :: _ => none

/-- Whether a value may come next. -/
def wantsValue (r : Reader) : Bool := r.expected == .value || r.expected == .firstItem

/-- Takes in the start of a list or an object. -/
def start (d : Dialect) (r : Reader) (o : Open) (expected : Expected) : Option Reader :=
  if r.wantsValue && r.stack.length < d.maxDepth then some ⟨o :: r.stack, expected, none⟩ else none

/-- Takes in a lexeme, if it may come next. -/
def step (d : Dialect) (r : Reader) : Lexeme → Option Reader
  | .openList => r.start d (.list []) .firstItem
  | .openObject => r.start d (.object [] none) .firstName
  | .closeList =>
    match r.stack with
    | .list items :: rest =>
      if r.expected == .separator || r.expected == .firstItem then
        complete ⟨rest, .value, none⟩ (.list items.reverse)
      else none
    | _ => none
  | .closeObject =>
    match r.stack with
    | .object members none :: rest =>
      if r.expected == .separator || r.expected == .firstName then
        complete ⟨rest, .value, none⟩ (.object members)
      else none
    | _ => none
  | .comma =>
    if r.expected == .separator then
      match r.stack with
      | .list _ :: _ => some { r with expected := .value }
      | .object .. :: _ => some { r with expected := .name }
      | [] => none
    else none
  | .colon => if r.expected == .colon then some { r with expected := .value } else none
  | .text s =>
    if r.expected == .name || r.expected == .firstName then
      match r.stack with
      | .object members none :: rest => some ⟨.object members (some s) :: rest, .colon, none⟩
      | _ => none
    else if r.wantsValue then r.complete (.text s)
    else none
  | .scalar j => if r.wantsValue then r.complete j else none

/-- Takes in lexemes one after the other. -/
def run (d : Dialect) (r : Reader) : List Lexeme → Option Reader
  | [] => some r
  | lexeme :: rest =>
    match r.step d lexeme with
    | none => none
    | some next => next.run d rest

end Reader

/-- The value of a JSON text. -/
def read (d : Dialect) (text : String) : Option Json := do
  let lexemes ← Lexeme.readAll d text.toList
  let r ← Reader.run d {} lexemes
  r.result

end LogLayout.Json
