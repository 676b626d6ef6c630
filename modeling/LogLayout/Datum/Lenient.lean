import LogLayout.Complaint
import LogLayout.Numeral.Lenient
import LogLayout.Text.Case

/-!
# Lenient reading

Readers that accept a datum of a neighbouring kind where its meaning is clear: integers from whole
numbers and numerals, truth values from numbers and words, texts from bytes in UTF-8.
-/

namespace LogLayout.Datum

/-- The text that bytes in UTF-8 stand for. -/
def utf8? (content : List UInt8) : Option String :=
  String.fromUTF8? ⟨content.toArray⟩

/-- The integer of a numeral. -/
def readNumeral (s : String) : Except Reason Int :=
  let cs := s.toList
  if Numeral.startsTooLong cs then .error .numeralTooLong
  else match Numeral.lenient? cs with
  | some n => .ok n
  | none => .error .unreadableInteger

/-- An integer, a truth value as 0 or 1, a whole number, or a numeral. -/
def lenientInteger : Datum → Except Reason Int
  | bool b => .ok (if b then 1 else 0)
  | int n => .ok n
  | level l => .ok l.number
  | float x =>
    match x.toInt? with
    | some n => .ok n
    | none => .error (if x.isFinite then .fractionalInteger else .notFinite)
  | text s => readNumeral s
  | bytes content =>
    match utf8? content with
    | some s => readNumeral s
    | none => .error .unreadableInteger
  | _ => .error .notInteger

/-- A text, or bytes in UTF-8. -/
def lenientText : Datum → Except Reason String
  | text s => .ok s
  | bytes content =>
    match utf8? content with
    | some s => .ok s
    | none => .error .notUnicode
  | _ => .error .notText

/-- The words for true and for false. -/
def flagWords : List (String × Bool) :=
  [("0", false), ("off", false), ("f", false), ("false", false), ("n", false), ("no", false),
    ("1", true), ("on", true), ("t", true), ("true", true), ("y", true), ("yes", true)]

/-- The truth value of a word in any letter case. -/
def readFlagWord (s : String) : Except Reason Bool :=
  match flagWords.find? fun entry => Text.sameName entry.1 s with
  | some (_, b) => .ok b
  | none => .error .unreadableFlag

/-- The truth value that 0 or 1 stands for. A number that is too large for binary64 is not taken for
a whole number at all. -/
def readFlagNumber (n : Int) : Except Reason Bool :=
  if n = 0 then .ok false
  else if n = 1 then .ok true
  else .error (if (Binary64.ofInt n).isFinite then .unreadableFlag else .notFlag)

/-- A truth value, one of the numbers 0 and 1, or a word for it. -/
def lenientFlag : Datum → Except Reason Bool
  | bool b => .ok b
  | int n => readFlagNumber n
  | level _ => .error .unreadableFlag
  | float x =>
    match x.toInt? with
    | some n => readFlagNumber n
    | none => .error .notFlag
  | text s => readFlagWord s
  | bytes content =>
    match utf8? content with
    | some s => readFlagWord s
    | none => .error .unreadableFlag
  | _ => .error .notFlag

end LogLayout.Datum
