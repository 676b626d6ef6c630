import LogLayout.Level.Request
import LogLayout.Span
import LogLayout.Calendar

/-!
# Events

One logging call as the renderer sees it: what was said, how severe it is, when and where it
happened, and the spans around it. An event is built from what a caller hands over: the level is
looked up, the fields are captured, and the innermost span has to be in the arena.
-/

namespace LogLayout

/-- A logging call. -/
structure Event where
  level : Level
  target : String
  message : String := ""
  fields : List Field := []
  timestamp : Timestamp
  spans : SpanArena := {}
  /-- The innermost active span. -/
  span : Option Handle := none
  file : Option String := none
  line : Option Int := none

/-- Why no event can be built. -/
inductive EventFault where
  | level (cause : LevelFault)
  | fields (cause : FieldFault)
  | span (cause : SpanFault)

def EventFault.message : EventFault → String
  | level cause => cause.message
  | fields cause => cause.message
  | span cause => cause.message

def EventFault.faultClass : EventFault → FaultClass
  | level cause => cause.faultClass
  | fields cause => cause.faultClass
  | span cause => cause.faultClass

namespace Event

/-- The active spans, innermost first. -/
def spanChain (e : Event) : List Frame :=
  match e.span with
  | none => []
  | some h => SpanArena.chainAmong e.spans.newestFirst h.number.toNat

/-- The event, if its innermost span is in its arena. -/
def checked (e : Event) : Except EventFault Event :=
  match e.spans.check e.span .spanOutside with
  | .ok () => .ok e
  | .error cause => .error (.span cause)

/-- What the caller says about an event, besides its spans. -/
structure Details where
  level : Datum := .level .info
  target : String
  message : String := ""
  fields : FieldSource := .datum .null
  timestamp : Timestamp
  file : Option String := none
  line : Option Int := none

/-- The event with the given details, within a span of an arena. -/
def within (d : Details) (spans : SpanArena) (span : Option Handle) : Except EventFault Event := do
  let level ← (Level.ofDatum d.level).mapError .level
  let fields ← (Field.ofSource d.fields).mapError .fields
  checked ⟨level, d.target, d.message, fields, d.timestamp, spans, span, d.file, d.line⟩

/-- The event with the given details, within spans given from the outermost inwards. -/
def create (d : Details) (spans : List (String × FieldSource)) : Except EventFault Event := do
  let arena ← (SpanArena.nested spans).mapError .span
  within d arena arena.innermost

end Event

end LogLayout
