/-!
# Outcomes

A computation that can fail ends in a value or in an error. Here are the ways to take such an
outcome apart and to go on from its value, and the run of a computation over a list, which stops at
the first error. The functions that are called on values may have effects, and on an error none is
called.
-/

namespace LogLayout

/-- Runs a computation on the items of a list from left to right, and collects the values. The first
error ends the run: no later item is touched. -/
def traverse {m : Type → Type} {α β ε : Type} [Monad m] (f : α → m (Except ε β)) :
    List α → m (Except ε (List β))
  | [] => pure (.ok [])
  | a :: rest => do
    match ← f a with
    | .error e => return .error e
    | .ok b =>
      match ← traverse f rest with
      | .error e => return .error e
      | .ok bs => return .ok (b :: bs)

namespace Outcome

variable {α ε : Type}

/-- The attempt to take out of an outcome what is not in it. -/
inductive Fault where
  /-- A value was asked for, and there is the error that is displayed. -/
  | noValue (displayed : String)
  /-- An error was asked for, and there is the value that is shown. -/
  | noError (shown : String)
  deriving DecidableEq, Repr

def Fault.message : Fault → String
  | noValue displayed => "unwrap() on Err: " ++ displayed
  | noError shown => "unwrap_err() on Ok: " ++ shown

def isOk : Except ε α → Bool
  | .ok _ => true
  | .error _ => false

/-- The value, if there is one. -/
def value? : Except ε α → Option α
  | .ok a => some a
  | .error _ => none

/-- The error, if there is one. -/
def error? : Except ε α → Option ε
  | .ok _ => none
  | .error e => some e

/-- The value, or another one in its stead. -/
def valueOr (default : α) : Except ε α → α
  | .ok a => a
  | .error _ => default

/-- What a function makes of the value, as an outcome. -/
def map {m : Type → Type} {β : Type} [Monad m] (f : α → m β) : Except ε α → m (Except ε β)
  | .ok a => do return .ok (← f a)
  | .error e => return .error e

/-- Goes on from the value with a function that can fail, too. -/
def flatMap {m : Type → Type} {β : Type} [Monad m] (f : α → m (Except ε β)) :
    Except ε α → m (Except ε β)
  | .ok a => f a
  | .error e => return .error e

/-- The value; an error is displayed in the fault. -/
def unwrap (display : ε → String) : Except ε α → Except Fault α
  | .ok a => .ok a
  | .error e => .error (.noValue (display e))

/-- The error; a value is shown in the fault. -/
def unwrapError (show' : α → String) : Except ε α → Except Fault ε
  | .ok a => .error (.noError (show' a))
  | .error e => .ok e

/-- The text that shows an outcome. -/
def shown (showValue : α → String) (showError : ε → String) : Except ε α → String
  | .ok a => "Ok(" ++ showValue a ++ ")"
  | .error e => "Err(" ++ showError e ++ ")"

/-- Whether both outcomes are values, or both errors, and these are equal. -/
def equals (equalValues : α → α → Bool) (equalErrors : ε → ε → Bool) :
    Except ε α → Except ε α → Bool
  | .ok a, .ok b => equalValues a b
  | .error e, .error f => equalErrors e f
  | _, _ => false

end Outcome

end LogLayout
