import LogLayout.Pattern.Kind
import LogLayout.Value.Render

/-!
# Patterns

A compiled pattern: literal texts and tokens in the order in which they are rendered, along with the
text it was compiled from. The options of a token are typed so that only acceptable ones exist:
a width is at most 1024, a time format is not empty, a quote is at most one character.
-/

namespace LogLayout

/-- On which side of its column a level name stands. -/
inductive Alignment where
  | left
  | right
  deriving DecidableEq, Repr

/-- The sign by which an alignment is chosen. -/
def Alignment.sign : Alignment → String
  | left => "<"
  | right => ">"

/-- The greatest width of a level column. -/
def maxLevelWidth : Nat := 1024

structure LevelOptions where
  width : Option (Fin (maxLevelWidth + 1)) := none
  alignment : Alignment := .left
  deriving DecidableEq, Repr

/-- A format of date and time, not empty. -/
structure TimeFormat where
  text : String
  nonempty : text ≠ ""
  deriving DecidableEq, Repr

/-- Date, time and microseconds. -/
def TimeFormat.standard : TimeFormat := ⟨"%Y-%m-%d %H:%M:%S.%f", by decide⟩

structure FieldsOptions where
  opening : String := ""
  closing : String := ""
  quote : Option Char := some defaultQuote
  deriving DecidableEq, Repr

structure SpanOptions where
  opening : String := ""
  closing : String := ""
  /-- Whether the arguments of a span follow its name. -/
  args : Bool := false
  argsOpening : String := ""
  argsClosing : String := ""
  quote : Option Char := some defaultQuote
  deriving DecidableEq, Repr

/-- A placeholder for an attribute of the event, with its options. -/
inductive Token where
  | level (options : LevelOptions)
  | datetime (format : TimeFormat)
  | target
  | message
  | fields (options : FieldsOptions)
  | span (options : SpanOptions)
  | text (value : String)
  | file
  | line
  deriving DecidableEq, Repr

def Token.kind : Token → Kind
  | level _ => .level
  | datetime _ => .datetime
  | target => .target
  | message => .message
  | fields _ => .fields
  | span _ => .span
  | text _ => .text
  | file => .file
  | line => .line

/-- A part of a pattern. -/
inductive Segment where
  | literal (text : String)
  | token (t : Token)
  deriving DecidableEq, Repr

/-- A compiled pattern. -/
structure Pattern where
  segments : List Segment := []
  /-- The text that the pattern was compiled from; it has no part in rendering. -/
  source : String := ""

namespace Pattern

/-- Two patterns are the same when their segments are, whatever they were compiled from. -/
def same (p q : Pattern) : Bool := p.segments == q.segments

/-- The tokens alone. -/
def tokens (p : Pattern) : List Token :=
  p.segments.filterMap fun
    | .token t => some t
    | .literal _ => none

/-- Whether the pattern has no tokens. -/
def isLiteral (p : Pattern) : Bool := p.tokens.isEmpty

end Pattern

end LogLayout
