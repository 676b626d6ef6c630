import LogLayout.Dispatch

/-!
# Loggers

A logger speaks for one target and carries fields of its own, which come before those of a call.
Loggers do not change: binding and unbinding fields gives a new one. Bound fields have distinct
names once a field was bound; binding a name again replaces the value in its place.
-/

namespace LogLayout

structure Logger where
  target : String := "root"
  fields : List Field := []
  /-- The dispatcher to be used instead of the one installed for the program. -/
  dispatcher : Option Dispatcher := none

namespace Logger

/-- Puts a value under a name: in the place of a field of that name, or at the end. -/
def putField (fields : List Field) (name : String) (value : Value) : List Field :=
  if fields.any fun f => f.name == name then
    fields.map fun f => if f.name == name then ⟨name, value⟩ else f
  else fields ++ [⟨name, value⟩]

/-- Puts fields one after the other. -/
def putFields (fields : List Field) (further : List Field) : List Field :=
  further.foldl (fun acc f => putField acc f.name f.value) fields

/-- The logger with further fields, whose values are captured. -/
def bind (l : Logger) (given : List (String × Datum)) : Except Numeral.TooLong Logger := do
  let further ← given.mapM fun (name, d) => do return (⟨name, ← Value.capture d⟩ : Field)
  return ⟨l.target, putFields (putFields [] l.fields) further, l.dispatcher⟩

/-- The logger without the fields of the given names. -/
def unbind (l : Logger) (names : List String) : Logger :=
  ⟨l.target, l.fields.filter fun f => !names.contains f.name, l.dispatcher⟩

end Logger

end LogLayout
