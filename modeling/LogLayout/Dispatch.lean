import LogLayout.Pattern.Render
import LogLayout.Policy

/-!
# Dispatching events

A dispatcher renders an enabled event once for each appender that its policy selects, in order, and
hands each text to the appender's sink before it goes on to the next. The first failure ends the
delivery; what was written before it stays written.
-/

namespace LogLayout

/-- Why a delivery ends early. -/
inductive DispatchFault where
  /-- The event holds an integer too long to be written. -/
  | numeral (cause : Numeral.TooLong)
  | write (cause : WriteFault)
  deriving DecidableEq, Repr

def DispatchFault.message : DispatchFault → String
  | numeral cause => cause.message
  | write cause => cause.message

def DispatchFault.faultClass : DispatchFault → FaultClass
  | numeral _ => .value
  | write _ => .device

/-- Delivers events by a policy. -/
structure Dispatcher where
  policy : Policy

namespace Dispatcher

/-- Whether events of a level from a target are delivered. -/
def enabled (d : Dispatcher) (level : Level) (target : String) : Bool :=
  d.policy.enabled level target

/-- Delivers an event to appenders; `written` of them have it already. The result is how many have
it in the end, or what went wrong. -/
def deliver (e : Event) (written : Nat) (out : Outputs) :
    List Appender → Except DispatchFault Nat × Outputs
  | [] => (.ok written, out)
  | a :: rest =>
    match a.pattern.render e with
    | .error cause => (.error (.numeral cause), out)
    | .ok text =>
      match out.write a.sink text with
      | .error cause => (.error (.write cause), out)
      | .ok out => deliver e (written + 1) out rest

/-- Delivers an event, if it is enabled, to the appenders selected for it. -/
def dispatch (d : Dispatcher) (e : Event) (out : Outputs) : Except DispatchFault Nat × Outputs :=
  if d.enabled e.level e.target then
    deliver e 0 out (d.policy.appendersFor e.level e.target)
  else (.ok 0, out)

end Dispatcher

end LogLayout
