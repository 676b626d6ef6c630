/-!
# Sinks

The places where rendered texts go. A sink keeps its texts in memory, appends them to a stream, or
takes only so many of them; every text that a sink took is also entered in a journal. A write that
is refused changes nothing.
-/

namespace LogLayout

/-- Which sink is meant: one that was set up under a name, or one of the standard streams. -/
inductive SinkId where
  | named (name : String)
  | standardOutput
  | standardError
  deriving DecidableEq, Repr

/-- What a sink holds. -/
inductive Sink where
  /-- The texts taken so far, the oldest first. -/
  | memory (lines : List String)
  /-- The content of a stream on which every text is followed by a terminator. -/
  | stream (terminator : String) (content : String)
  /-- A sink that takes no more than `room` further texts. -/
  | limited (room : Nat)
  deriving DecidableEq, Repr

/-- The refusal of a text by a sink that has no room left. -/
structure WriteFault where
  deriving DecidableEq, Repr

def WriteFault.message (_ : WriteFault) : String := "disk full"

/-- The sink after it has taken a text. -/
def Sink.take (text : String) : Sink → Except WriteFault Sink
  | memory lines => .ok (memory (lines ++ [text]))
  | stream terminator content => .ok (stream terminator (content ++ text ++ terminator))
  | limited (room + 1) => .ok (limited room)
  | limited 0 => .error {}

/-- The content of a stream, or the texts kept in memory between line feeds. -/
def Sink.text : Sink → String
  | memory lines => "\n".intercalate lines
  | stream _ content => content
  | limited _ => ""

/-- The texts kept in memory. -/
def Sink.lines : Sink → List String
  | memory lines => lines
  | _ => []

/-- All sinks, and the journal of the texts they took. -/
structure Outputs where
  holds : SinkId → Sink
  journal : List (SinkId × String) := []

namespace Outputs

/-- The standard streams, on which every text is a line; other sinks have no room before they are
set up. -/
def initial : Outputs where
  holds
    | .named _ => .limited 0
    | .standardOutput | .standardError => .stream "\n" ""

/-- Sets a sink up anew. -/
def place (out : Outputs) (id : SinkId) (sink : Sink) : Outputs :=
  { out with holds := fun other => if other = id then sink else out.holds other }

@[simp] theorem holds_place (out : Outputs) (id : SinkId) (sink : Sink) :
    (out.place id sink).holds id = sink := by
  simp [place]

theorem holds_place_of_ne (out : Outputs) {id other : SinkId} (sink : Sink) (h : other ≠ id) :
    (out.place id sink).holds other = out.holds other := by
  simp [place, h]

/-- Hands a text to a sink. -/
def write (out : Outputs) (id : SinkId) (text : String) : Except WriteFault Outputs :=
  match (out.holds id).take text with
  | .error fault => .error fault
  | .ok sink => .ok { out.place id sink with journal := out.journal ++ [(id, text)] }

/-- Forgets the texts that a sink keeps in memory. -/
def clear (out : Outputs) (id : SinkId) : Outputs :=
  match out.holds id with
  | .memory _ => out.place id (.memory [])
  | _ => out

end Outputs

end LogLayout
