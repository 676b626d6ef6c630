import LogLayout.Pattern
import LogLayout.Complaint
import LogLayout.Datum.Display

/-!
# Reading token options

The options of a token are read from a dictionary, strictly: an integer is an integer and no truth
value, a text is a text. The options of the kind are checked one after the other in the order of
`Kind.optionNames`, and then every further name is a complaint of its own, in the order given. The
order in which a dictionary lists known options therefore does not matter.
-/

namespace LogLayout

open Numeral (TooLong)

namespace Datum

/-- A text. -/
def readText : Datum → Except Reason String
  | text s => .ok s
  | _ => .error .notText

/-- A text that is not empty. -/
def readTimeFormat (d : Datum) : Except Reason TimeFormat :=
  match d with
  | text s => if h : s = "" then .error (.tooShort 1) else .ok ⟨s, h⟩
  | _ => .error .notText

/-- A text of at most one character. -/
def readQuote (d : Datum) : Except Reason (Option Char) :=
  match d with
  | text s =>
    match s.toList with
    | [] => .ok none
    | [c] => .ok (some c)
    | _ => .error (.tooLong 1)
  | _ => .error .notText

/-- A truth value. -/
def readFlag : Datum → Except Reason Bool
  | bool b => .ok b
  | _ => .error .notFlag

/-- An integer from zero to the greatest width, or nothing. -/
def readWidth (d : Datum) : Except Reason (Option (Fin (maxLevelWidth + 1))) :=
  let within (n : Int) : Except Reason (Option (Fin (maxLevelWidth + 1))) :=
    if n < 0 then .error (.below 0)
    else if h : n.toNat < maxLevelWidth + 1 then .ok (some ⟨n.toNat, h⟩)
    else .error (.above maxLevelWidth)
  match d with
  | null => .ok none
  | int n => within n
  | level l => within l.number
  | _ => .error .notInteger

/-- One of the two signs of alignment. -/
def readAlignment (d : Datum) : Except Reason Alignment :=
  let refused := Reason.noneOf [Alignment.left.sign, Alignment.right.sign]
  match d with
  | text s =>
    if s = Alignment.left.sign then .ok .left
    else if s = Alignment.right.sign then .ok .right
    else .error refused
  | _ => .error refused

/-- How a key that is no text is named in a path. -/
def keyName (d : Datum) : String :=
  match d.integer? with
  | some n => String.ofList (Numeral.signed n)
  | none => d.shown.toOption.getD ""

end Datum

namespace Token

/-- A dictionary of options, as it is handed over. -/
abbrev Entries := List (Datum × Datum)

/-- The complaints about the keys that are no options of the kind. -/
def strangers (kind : Kind) (entries : Entries) : List Complaint :=
  entries.filterMap fun
    | (.text name, _) =>
      if kind.optionNames.contains name then none else some ⟨[name], .unexpected⟩
    | (key, _) => some ⟨[key.keyName], .keyNotText⟩

def readLevelOptions (entries : Entries) : Checked LevelOptions :=
  ((Checked.member entries "width" none Datum.readWidth).map LevelOptions.mk).apply
    (.member entries "alignment" .left Datum.readAlignment)

def readFieldsOptions (entries : Entries) : Checked FieldsOptions :=
  (((Checked.member entries "prefix" "" Datum.readText).map FieldsOptions.mk).apply
    (.member entries "suffix" "" Datum.readText)).apply
    (.member entries "quote" (some defaultQuote) Datum.readQuote)

def readSpanOptions (entries : Entries) : Checked SpanOptions :=
  ((((((Checked.member entries "prefix" "" Datum.readText).map SpanOptions.mk).apply
    (.member entries "suffix" "" Datum.readText)).apply
    (.member entries "args" false Datum.readFlag)).apply
    (.member entries "args_prefix" "" Datum.readText)).apply
    (.member entries "args_suffix" "" Datum.readText)).apply
    (.member entries "quote" (some defaultQuote) Datum.readQuote)

/-- The known options of a kind. -/
def readKnown (kind : Kind) (entries : Entries) : Checked Token :=
  match kind with
  | .level => (readLevelOptions entries).map .level
  | .datetime => (Checked.member entries "fmt" .standard Datum.readTimeFormat).map .datetime
  | .target => .valid .target
  | .message => .valid .message
  | .fields => (readFieldsOptions entries).map .fields
  | .span => (readSpanOptions entries).map .span
  | .text => (Checked.required entries "value" Datum.readText).map .text
  | .file => .valid .file
  | .line => .valid .line

/-- The token of a kind with the options of a dictionary. -/
def ofEntries (kind : Kind) (entries : Entries) : Checked Token :=
  (readKnown kind entries).butFor (strangers kind entries)

/-- The token of a kind that is named exactly, with the options of a dictionary. -/
def of (name : String) (entries : Entries) : Except Kind.Unnamed (Checked Token) :=
  match Kind.ofExactName? name with
  | some kind => .ok (ofEntries kind entries)
  | none => .error ⟨name⟩

/-- The token of a kind with the options of a datum, which has to be a dictionary. -/
def ofDatum (kind : Kind) : Datum → Checked Token
  | .dictionary entries => ofEntries kind entries
  | _ => .invalid ⟨[], .notOptions kind.schema⟩ []

/-- A token is made directly for the names of kinds and for no others, and its options are checked
as anywhere else. -/
theorem of_eq_ok_iff {name : String} {entries : Entries} {checked : Checked Token} :
    of name entries = .ok checked ↔
      ∃ kind : Kind, kind.name = name ∧ checked = ofEntries kind entries := by
  constructor
  · intro h
    rw [of] at h
    split at h
    · next kind found =>
        have named : kind.name = name := by simpa using List.find?_some found
        exact ⟨kind, named, (Except.ok.inj h).symm⟩
    · cases h
  · rintro ⟨kind, rfl, rfl⟩
    rw [of, Kind.ofExactName?_name]

theorem complaints_ofEntries (kind : Kind) (entries : Entries) :
    (ofEntries kind entries).complaints =
      (readKnown kind entries).complaints ++ strangers kind entries := by
  simp [ofEntries]

/-- The text of a quote option. -/
def quoteText : Option Char → String
  | none => ""
  | some c => String.ofList [c]

/-- The options of a token by name, each with its value, defaults included. -/
def options : Token → List (String × Datum)
  | level o =>
    [("width", match o.width with
      | none => .null
      | some w => .int w.val), ("alignment", .text o.alignment.sign)]
  | datetime format => [("fmt", .text format.text)]
  | fields o =>
    [("prefix", .text o.opening), ("suffix", .text o.closing), ("quote", .text (quoteText o.quote))]
  | span o =>
    [("prefix", .text o.opening), ("suffix", .text o.closing), ("args", .bool o.args),
      ("args_prefix", .text o.argsOpening), ("args_suffix", .text o.argsClosing),
      ("quote", .text (quoteText o.quote))]
  | text value => [("value", .text value)]
  | target | message | file | line => []

end Token

end LogLayout
