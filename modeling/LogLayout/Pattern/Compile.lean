import LogLayout.Pattern.Scan
import LogLayout.Pattern.Options
import LogLayout.Outcome

/-!
# Compiling pattern texts

A pattern text is compiled in two steps: it is scanned as a whole, and then each token gets its
meaning, from left to right. A fault of the scan therefore comes before any fault of a meaning.
Within one token an unknown kind comes first, then a name given twice, then the options in the
order of the kind. Nothing of a text with a fault is compiled.
-/

namespace LogLayout

/-- Why a pattern text is not compiled. -/
inductive CompileError where
  /-- The sigil is not a single punctuation character. -/
  | badSigil (sigil : String)
  /-- A numeral of the text has too many digits to be read. -/
  | numeralTooLong (digits : Nat)
  /-- The text has a fault. -/
  | rejected (report : ParseError)
  deriving DecidableEq, Repr

def CompileError.message : CompileError → String
  | badSigil sigil => "sigil must be a single punctuation character, got " ++ Text.quoted sigil
  | numeralTooLong digits =>
    "Exceeds the limit (" ++ String.ofList (Numeral.digits Numeral.digitLimit) ++
      " digits) for integer string conversion: value has " ++
      String.ofList (Numeral.digits digits) ++
      " digits; use sys.set_int_max_str_digits() to increase the limit"
  | rejected report => report.head

/-- The sigil of a token unless another is asked for. -/
def defaultSigil : String := "$"

/-- Whether a character can be a sigil: it occurs neither in names nor between the parts of an
option list. -/
def isSigil (c : Char) : Bool :=
  !isNameChar c && !isQuote c && !(['(', ')', ',', '=', ' '].contains c)

/-- Whether a text can be a sigil: it is one such character. -/
def isSigilText (s : String) : Bool :=
  match s.toList with
  | [c] => isSigil c
  | _ => false

/-- The value of a written option as a datum. -/
def Literal.toDatum : Literal → Datum
  | integer n => .int n
  | text s => .text s
  | char c => .text (String.ofList [c])
  | flag b => .bool b

namespace WrittenToken

/-- The first option whose name was given before. -/
def duplicate? (seen : List String) : List WrittenOption → Option WrittenOption
  | [] => none
  | o :: rest => if seen.contains o.name then some o else duplicate? (o.name :: seen) rest

/-- The options as a dictionary. -/
def entries (t : WrittenToken) : Token.Entries :=
  t.options.map fun o => (.text o.name, o.value.toDatum)

/-- The position of an option's name, or that of the token if it has no such option. -/
def positionOf (t : WrittenToken) (name : String) : Nat :=
  ((t.options.find? fun o => o.name == name).map (·.position)).getD t.position

/-- The meaning of a written token. -/
def resolve (t : WrittenToken) : Except Rejection Token :=
  match Kind.ofName? t.name with
  | none => .error ⟨.unknownKind t.name, t.position⟩
  | some kind =>
    match duplicate? [] t.options with
    | some o => .error ⟨.duplicateOption o.name kind, o.position⟩
    | none =>
      match Token.ofEntries kind t.entries with
      | .valid token => .ok token
      | .invalid complaint _ =>
        .error ⟨.ofComplaint kind complaint, t.positionOf (complaint.path.headD "")⟩

end WrittenToken

/-- The meaning of a scanned item. -/
def Item.resolve : Item → Except Rejection Segment
  | literal text => .ok (.literal text)
  | token t => t.resolve.map .token

namespace Pattern

/-- Gives each item its meaning, up to the first that has none. -/
def ofItems (items : List Item) : Except Rejection (List Segment) :=
  Id.run (traverse (fun item => pure item.resolve) items)

/-- Compiles a pattern text whose sigil is accepted. -/
def compileWith (sigil text : String) : Except CompileError Pattern :=
  match scan sigil text with
  | .error (.numeralTooLong digits) => .error (.numeralTooLong digits)
  | .error (.rejected r) => .error (.rejected (r.report text))
  | .ok items =>
    match ofItems items with
    | .error r => .error (.rejected (r.report text))
    | .ok segments => .ok ⟨segments, text⟩

/-- Compiles a pattern text. -/
def compile (sigil text : String) : Except CompileError Pattern :=
  if isSigilText sigil then compileWith sigil text else .error (.badSigil sigil)

end Pattern

end LogLayout
