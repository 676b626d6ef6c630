import LogLayout.Calendar
import LogLayout.Template
import LogLayout.Value.Capture

/-!
# Host records

A record is a logging call as a host's own logging system hands it over: the message may be any
datum and a template for arguments, the time is a count of seconds, and an error may be attached.
-/

namespace LogLayout

/-- An error that is attached to a record: its class and its text. -/
structure AttachedError where
  kind : String
  text : String
  deriving DecidableEq, Repr

/-- The class, and the text behind it if there is one. The text of an error about a missing key is
the key, which is quoted. -/
def AttachedError.line (e : AttachedError) : String :=
  let text := if e.kind = "KeyError" then Text.quoted e.text else e.text
  if text.isEmpty then e.kind else e.kind ++ ": " ++ text

/-- A logging call of a host. -/
structure Record where
  name : String
  message : Datum
  args : List Datum := []
  level : Int := 20
  fields : FieldSource := .datum .null
  /-- Seconds since the start of 1970. -/
  created : Binary64
  file : String
  line : Int
  error : Option AttachedError := none

namespace Record

/-- The text of the message: as it stands, or filled with the arguments if there are any; the
attached error is on lines of its own. -/
def text (r : Record) : Except Template.Fault String := do
  let template ← r.message.display.mapError .numeral
  let message ← if r.args.isEmpty then .ok template else Template.fill template r.args
  return match r.error with
    | none => message
    | some e => message ++ "\n" ++ e.line

/-- The name under which the library itself logs. -/
def ownName : String := "patternlog"

/-- Whether the record comes from the library itself. -/
def isOwn (r : Record) : Bool :=
  r.name == ownName || (ownName ++ ".").toList.isPrefixOf r.name.toList

end Record

end LogLayout
