import LogLayout.Level
import LogLayout.Pattern
import LogLayout.Sink
import LogLayout.Target

/-!
# Routing policies

A policy decides which events are enabled and which appenders get them. It is a list of routes, each
for the events of a target that are severe enough, of which either all matching ones count or the
first whose target fits; or it is fixed, the same for every event.
-/

namespace LogLayout

/-- A destination: how events are rendered for it, and where the texts go. -/
structure Appender where
  pattern : Pattern
  sink : SinkId

/-- Sends the events of a target and of what lies under it, from a level on, to appenders. -/
structure Route where
  appenders : List Appender
  level : Level := .trace
  target : String := ""

namespace Route

/-- Whether events from a target concern the route. -/
def covers (r : Route) (target : String) : Bool := Target.covers r.target target

/-- Whether the route takes events of a level from a target. -/
def takes (r : Route) (level : Level) (target : String) : Bool :=
  r.level ≤ level && r.covers target

end Route

/-- Which events are enabled, and who gets them. -/
inductive Policy where
  /-- Every route that takes an event counts. -/
  | allMatching (routes : List Route)
  /-- Only the first route whose target covers that of the event counts. -/
  | firstMatching (routes : List Route)
  /-- The same appenders for every event, if events are enabled at all. -/
  | fixed (appenders : List Appender) (allow : Bool)

namespace Policy

/-- The policy that sends the events of a target from a level on to one appender. -/
def single (appender : Appender) (level : Level := .trace) (target : String := "") : Policy :=
  allMatching [⟨[appender], level, target⟩]

/-- The first route whose target covers the given one. -/
def firstRoute? (routes : List Route) (target : String) : Option Route :=
  routes.find? fun r => r.covers target

def enabled (level : Level) (target : String) : Policy → Bool
  | allMatching routes => routes.any fun r => r.takes level target
  | firstMatching routes =>
    match firstRoute? routes target with
    | some r => r.level ≤ level
    | none => false
  | fixed _ allow => allow

/-- The appenders that get the events of a level from a target, in order. -/
def appendersFor (level : Level) (target : String) : Policy → List Appender
  | allMatching routes => (routes.filter fun r => r.takes level target).flatMap Route.appenders
  | firstMatching routes =>
    match firstRoute? routes target with
    | some r => if r.level ≤ level then r.appenders else []
    | none => []
  | fixed appenders _ => appenders

/-- The routes of a policy, if it has any. -/
def routes? : Policy → Option (List Route)
  | allMatching routes => some routes
  | firstMatching routes => some routes
  | fixed .. => none

end Policy

end LogLayout
