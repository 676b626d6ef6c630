/-!
# Targets

A target names the module that an event comes from. Targets are nested by dots and by double colons:
`a.b` and `a::b` lie under `a`, but `ab` does not.
-/

namespace LogLayout.Target

/-- Whether a text starts with a boundary between the parts of a target. -/
def startsAtBoundary (cs : List Char) : Bool :=
  ['.'].isPrefixOf cs || [':', ':'].isPrefixOf cs

/-- Whether a target is the given one or lies under it, on the characters of both. -/
def coversChars (outer inner : List Char) : Bool :=
  outer.isEmpty || outer == inner ||
    (outer.isPrefixOf inner && startsAtBoundary (inner.drop outer.length))

/-- Whether a target is the given one or lies under it. Everything lies under the empty target. -/
def covers (outer inner : String) : Bool := coversChars outer.toList inner.toList

end LogLayout.Target
