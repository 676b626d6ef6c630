import LogLayout.Value.Capture
import LogLayout.Word

/-!
# Spans

Spans are kept in an arena: frames in the order in which they were pushed, each with a handle to its
parent among the frames before it. An arena never changes; pushing gives a new one. The chain of a
handle is its frame, then that of the frame's parent, and so on up to a frame without parent; since
the search for a parent only goes on among older frames, every chain ends.
-/

namespace LogLayout

/-- How a frame is referred to: by its number, or by a truth value that stands for 0 or 1. -/
inductive Handle where
  | index (n : Int)
  | flag (b : Bool)
  deriving DecidableEq, Repr

namespace Handle

/-- The number of the frame. -/
def number : Handle → Int
  | index n => n
  | flag b => if b then 1 else 0

def shown : Handle → Except Numeral.TooLong String
  | index n => Numeral.write n
  | flag b => (Datum.bool b).shown

end Handle

/-- One span: its name, its own arguments, and the span around it. -/
structure Frame where
  name : String
  args : List Field := []
  parent : Option Handle := none

/-- Why an arena refuses a handle or a frame. -/
inductive SpanFault where
  /-- The parent of a new frame is not in the arena. -/
  | parentOutside (shown : String)
  /-- The innermost span of an event is not in the arena. -/
  | spanOutside (shown : String)
  /-- No frame has this handle. -/
  | noFrame
  /-- A handle is no index, since it does not fit into a word of 64 bits. -/
  | noIndex
  /-- A handle is missing where a frame is asked for. -/
  | noHandle
  | fields (cause : FieldFault)
  | numeral (cause : Numeral.TooLong)

def SpanFault.message : SpanFault → String
  | parentOutside shown => "parent handle " ++ shown ++ " is not in the arena"
  | spanOutside shown => "span handle " ++ shown ++ " is not in the arena"
  | noFrame => "tuple index out of range"
  | noIndex => "cannot fit 'int' into an index-sized integer"
  | noHandle => "tuple indices must be integers or slices, not NoneType"
  | fields cause => cause.message
  | numeral cause => cause.message

def SpanFault.faultClass : SpanFault → FaultClass
  | parentOutside _ | spanOutside _ | numeral _ => .value
  | noFrame | noIndex => .place
  | noHandle => .kind
  | fields cause => cause.faultClass

/-- The frames pushed so far, the newest first. -/
structure SpanArena where
  newestFirst : List Frame := []

namespace SpanArena

def size (a : SpanArena) : Nat := a.newestFirst.length

/-- The frames in the order of their handles. -/
def frames (a : SpanArena) : List Frame := a.newestFirst.reverse

/-- The arena without frames. -/
def empty : SpanArena := {}

/-- The handle of the frame pushed last. -/
def innermost (a : SpanArena) : Option Handle :=
  if a.newestFirst.isEmpty then none else some (.index (a.size - 1))

/-- Whether a handle refers to a frame of the arena. -/
def contains (a : SpanArena) (h : Handle) : Bool := 0 ≤ h.number && h.number < a.size

/-- Adds a frame whose fields are captured already, and its handle. -/
def pushFrame (a : SpanArena) (name : String) (args : List Field) (parent : Option Handle) :
    SpanArena × Handle :=
  (⟨⟨name, args, parent⟩ :: a.newestFirst⟩, .index a.size)

/-- Lets a handle through that is in the arena, or none at all. -/
def check (a : SpanArena) (h : Option Handle) (refusal : String → SpanFault) :
    Except SpanFault Unit :=
  match h with
  | none => .ok ()
  | some h =>
    if a.contains h then .ok ()
    else match h.shown with
      | .ok shown => .error (refusal shown)
      | .error cause => .error (.numeral cause)

/-- Adds a frame: its parent has to be in the arena, and its arguments are captured. -/
def push (a : SpanArena) (name : String) (args : FieldSource) (parent : Option Handle) :
    Except SpanFault (SpanArena × Handle) := do
  a.check parent .parentOutside
  let captured ← (Field.ofSource args).mapError .fields
  return a.pushFrame name captured parent

/-- Adds spans to an arena, each within the one before; the first lies within `parent`. -/
def pushAll (a : SpanArena) (parent : Option Handle) :
    List (String × FieldSource) → Except SpanFault SpanArena
  | [] => .ok a
  | (name, args) :: rest => do
    let (a, h) ← a.push name args parent
    a.pushAll (some h) rest

/-- The arena that holds a single chain, given from the outermost span inwards. -/
def nested (spans : List (String × FieldSource)) : Except SpanFault SpanArena :=
  empty.pushAll none spans

/-- The chain of the frame with a number, among frames of which the newest comes first. -/
def chainAmong : List Frame → Nat → List Frame
  | [], _ => []
  | f :: older, n =>
    if n = older.length then
      f :: match f.parent with
        | none => []
        | some p => chainAmong older p.number.toNat
    else chainAmong older n

/-- The number that a handle counts to; a negative one counts from the newest frame back. -/
def locate (a : SpanArena) (h : Handle) : Except SpanFault Nat :=
  if a.contains h then .ok h.number.toNat
  else if h.number < 0 && 0 ≤ h.number + a.size then .ok (h.number + a.size).toNat
  else if Word.holds 64 h.number then .error .noFrame
  else .error .noIndex

/-- The spans from the one with a handle outwards; without a handle there are none. -/
def chain (a : SpanArena) : Option Handle → Except SpanFault (List Frame)
  | none => .ok []
  | some h => (a.locate h).map (chainAmong a.newestFirst)

/-- The frame with a handle. -/
def frame (a : SpanArena) : Option Handle → Except SpanFault Frame
  | none => .error .noHandle
  | some h => do
    match a.frames[← a.locate h]? with
    | some f => .ok f
    | none => .error .noFrame

end SpanArena

/-- Two frames are equal when their names, arguments and the numbers of their parents are. -/
def Frame.equals (f g : Frame) : Bool :=
  f.name == g.name && Field.equalsAll f.args g.args &&
    f.parent.map Handle.number == g.parent.map Handle.number

/-- Two arenas are equal when their frames are. The first `shared` frames are the same in both and
are not compared, since a frame is equal to itself whatever it holds. -/
def SpanArena.equals (a b : SpanArena) (shared : Nat) : Bool :=
  a.size == b.size && ((a.frames.zip b.frames).drop shared).all fun (f, g) => f.equals g

end LogLayout
