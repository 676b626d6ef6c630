import LogLayout.Span

/-!
# Span scopes

A context holds the spans that are active: the arena and the innermost frame. A scope makes its span
the innermost one while it is open. Entering it pushes a frame and remembers the context found;
leaving it puts that context back, whatever happened in between, and forgets it. So a second leave
does nothing, and of two entries the later one is undone.
-/

namespace LogLayout

/-- The active spans. -/
structure SpanContext where
  arena : SpanArena := {}
  innermost : Option Handle := none

/-- The active spans from the innermost outwards. -/
def SpanContext.chain (c : SpanContext) : List Frame :=
  match c.innermost with
  | none => []
  | some h => SpanArena.chainAmong c.arena.newestFirst h.number.toNat

/-- A span that can be entered and left. -/
structure SpanScope where
  name : String
  args : List Field := []
  /-- The context to go back to, while the scope is open. -/
  restore : Option SpanContext := none
  /-- The handle from the last entry. -/
  handle : Option Handle := none

namespace SpanScope

/-- The scope of a span whose arguments are captured now. -/
def ofSource (name : String) (args : FieldSource) : Except FieldFault SpanScope := do
  return ⟨name, ← Field.ofSource args, none, none⟩

/-- Enters the scope: the frame is pushed below the innermost one. -/
def enter (s : SpanScope) (c : SpanContext) : Except SpanFault (SpanScope × SpanContext) :=
  match c.arena.check c.innermost .parentOutside with
  | .error fault => .error fault
  | .ok () =>
    let (arena, h) := c.arena.pushFrame s.name s.args c.innermost
    .ok (⟨s.name, s.args, some c, some h⟩, ⟨arena, some h⟩)

/-- Leaves the scope. -/
def leave (s : SpanScope) (c : SpanContext) : SpanScope × SpanContext :=
  match s.restore with
  | none => (s, c)
  | some before => (⟨s.name, s.args, none, s.handle⟩, before)

end SpanScope

end LogLayout
