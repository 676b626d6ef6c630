import LogLayout.Value
import LogLayout.Datum.Display
import LogLayout.FaultClass

/-!
# Capturing values and fields

A value is captured when it is attached, so that nothing a caller changes later can show. Truth
values, numbers and texts stay what they are, lists and tuples become sequences, and anything else
is kept as the text that shows it. Fields come from a dictionary, from a row of pairs, or ready
made; their order is kept and equal names are not merged.
-/

namespace LogLayout

open Numeral (TooLong)

mutual

/-- Captures a datum. -/
def Value.capture : Datum → Except TooLong Value
  | .bool b => .ok (.bool b)
  | .int n => .ok (.int n)
  | .level l => .ok (.int l.number)
  | .float x => .ok (.float x)
  | .text s => .ok (.text s)
  | .list items => do return .seq (← captureAll items)
  | .tuple items => do return .seq (← captureAll items)
  | .null => do return .text (← Datum.shown .null)
  | .bytes content => do return .text (← (Datum.bytes content).shown)
  | .dictionary entries => do return .text (← (Datum.dictionary entries).shown)
  | .foreign shown => .ok (.text shown)

/-- Captures each datum of a row. -/
def Value.captureAll : List Datum → Except TooLong (List Value)
  | [] => .ok []
  | d :: rest => do
    let first ← Value.capture d
    return first :: (← Value.captureAll rest)

end

mutual

/-- Attaches a datum without capturing it: what is a value already stays one. -/
def Value.attach : Datum → Value
  | .bool b => .bool b
  | .int n => .int n
  | .level l => .int l.number
  | .float x => .float x
  | .text s => .text s
  | .tuple items => .seq (attachAll items)
  | d => .foreign d

def Value.attachAll : List Datum → List Value
  | [] => []
  | d :: rest => Value.attach d :: Value.attachAll rest

end

/-- Why a source of fields is refused. -/
inductive FieldFault where
  /-- The source is no collection. -/
  | notIterable (kind : String)
  /-- An element has no first and second item because it has no items at all. -/
  | notSubscriptable (kind : String)
  /-- An element has too few items. -/
  | tooShort (element : Datum)
  /-- An element is a dictionary without the key 0 or 1. -/
  | missingKey (key : Nat)
  /-- A name or a value holds an integer too long to be written. -/
  | numeral (cause : TooLong)

namespace FieldFault

def message : FieldFault → String
  | notIterable kind => s!"'{kind}' object is not iterable"
  | notSubscriptable kind => s!"'{kind}' object is not subscriptable"
  | tooShort (.text _) => "string index out of range"
  | tooShort (.bytes _) => "index out of range"
  | tooShort element => s!"{element.kindName} index out of range"
  | missingKey key => String.ofList (Numeral.digits key)
  | numeral cause => cause.message

def faultClass : FieldFault → FaultClass
  | notIterable _ | notSubscriptable _ => .kind
  | tooShort _ => .place
  | missingKey _ => .key
  | numeral _ => .value

end FieldFault

/-- Where fields come from. -/
inductive FieldSource where
  /-- Any datum: nothing, a dictionary, a row of pairs, or something unfit. -/
  | datum (d : Datum)
  /-- A row of pairs that can be read only once. -/
  | stream (items : List Datum)
  /-- Fields built by hand, whose values are not captured. -/
  | ready (fields : List Field)

namespace Field

/-- The item of an element at a place. -/
def item (element : Datum) (place : Nat) : Except FieldFault Datum :=
  let pick (found : Option Datum) := match found with
    | some d => .ok d
    | none => .error (.tooShort element)
  match element with
  | .list items => pick items[place]?
  | .tuple items => pick items[place]?
  | .text s => pick (s.toList[place]?.map fun c => .text (String.ofList [c]))
  | .bytes content => pick (content[place]?.map fun b => .int b.toNat)
  | .dictionary entries =>
    match Datum.lookup? entries (.int place) with
    | some d => .ok d
    | none => .error (.missingKey place)
  | d => .error (.notSubscriptable d.kindName)

/-- Lifts a refusal to show a datum to the faults of fields. -/
def shownOr {α : Type} (r : Except TooLong α) : Except FieldFault α := r.mapError .numeral

/-- The field of a name and a value. -/
def ofData (name value : Datum) : Except FieldFault Field := do
  return ⟨← shownOr name.display, ← shownOr (Value.capture value)⟩

/-- The field of an element: its first item names it, its second is the value, the rest is not
looked at. -/
def ofPair (element : Datum) : Except FieldFault Field := do
  let name ← shownOr (← item element 0).display
  let value ← shownOr (Value.capture (← item element 1))
  return ⟨name, value⟩

/-- The elements of a collection, one after the other. -/
def elements (d : Datum) : Except FieldFault (List Datum) :=
  match d with
  | .list items => .ok items
  | .tuple items => .ok items
  | .text s => .ok (s.toList.map fun c => .text (String.ofList [c]))
  | .bytes content => .ok (content.map fun b => .int b.toNat)
  | d => .error (.notIterable d.kindName)

/-- The fields of a source. An empty or absent source has none. -/
def ofSource : FieldSource → Except FieldFault (List Field)
  | .ready fields => .ok fields
  | .stream items => items.mapM ofPair
  | .datum d =>
    if !d.isTruthy then .ok []
    else match d with
      | .dictionary entries => entries.mapM fun entry => ofData entry.1 entry.2
      | d => do (← elements d).mapM ofPair

end Field

end LogLayout
