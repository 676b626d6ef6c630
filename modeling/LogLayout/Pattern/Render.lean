import LogLayout.Calendar.Format
import LogLayout.Event
import LogLayout.Pattern.Options

/-!
# Rendering

A pattern is rendered by writing the texts of its segments one after the other. Each token shows one
attribute of the event. The only thing that can go wrong is an integer too long to be written.
-/

namespace LogLayout

open Numeral (TooLong)

/-- A text filled up with blanks to a width, on the side that the alignment leaves free. -/
def Alignment.pad (a : Alignment) (width : Nat) (s : String) : String :=
  let blanks := String.ofList (List.replicate (width - s.length) ' ')
  match a with
  | left => s ++ blanks
  | right => blanks ++ s

/-- The name of a level in its column. -/
def LevelOptions.render (o : LevelOptions) (l : Level) : String :=
  match o.width with
  | none => l.name
  | some w => o.alignment.pad w l.name

/-- The fields of an event between their brackets, or nothing if there are none. -/
def FieldsOptions.render (o : FieldsOptions) (fields : List Field) : Except TooLong String :=
  if fields.isEmpty then .ok ""
  else do return o.opening ++ (← Field.renderAll (Token.quoteText o.quote) fields) ++ o.closing

/-- One span: its name between brackets, and its arguments between theirs if they are shown. -/
def SpanOptions.renderFrame (o : SpanOptions) (f : Frame) : Except TooLong String := do
  let args ← if o.args then
      (Field.renderAll (Token.quoteText o.quote) f.args).map fun s =>
        o.argsOpening ++ s ++ o.argsClosing
    else .ok ""
  return o.opening ++ f.name ++ args ++ o.closing

/-- The text of a token. -/
def Token.render (e : Event) : Token → Except TooLong String
  | level o => .ok (o.render e.level)
  | datetime format => .ok (e.timestamp.format format.text)
  | target => .ok e.target
  | message => .ok e.message
  | fields o => o.render e.fields
  | span o => do return String.join (← e.spanChain.mapM o.renderFrame)
  | text value => .ok value
  | file => .ok (e.file.getD "")
  | line =>
    match e.line with
    | none => .ok ""
    | some n => Numeral.write n

/-- The text of a segment. -/
def Segment.render (e : Event) : Segment → Except TooLong String
  | literal text => .ok text
  | token t => t.render e

/-- The text of an event by a pattern. -/
def Pattern.render (p : Pattern) (e : Event) : Except TooLong String := do
  return String.join (← p.segments.mapM (Segment.render e))

end LogLayout
