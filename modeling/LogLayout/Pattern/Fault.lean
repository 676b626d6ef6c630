import LogLayout.Complaint
import LogLayout.Pattern.Kind
import LogLayout.Text.Quoted

/-!
# Faults of patterns

Every way in which a pattern text or a pattern document is at fault, the class each fault belongs
to and its wording; and the report on a fault, which knows the text and can point at the place.
Main statement here: `ParseError.lineStart_le`, the reported line starts at or before the position.
-/

namespace LogLayout

/-- The classes of faults. -/
inductive ErrorCode where
  | unknownToken
  | unknownOption
  | invalidOption
  | missingOption
  | duplicateOption
  | unterminatedToken
  | unterminatedQuote
  | invalidSyntax
  deriving DecidableEq, Repr

namespace ErrorCode

def all : List ErrorCode :=
  [unknownToken, unknownOption, invalidOption, missingOption, duplicateOption, unterminatedToken,
    unterminatedQuote, invalidSyntax]

def name : ErrorCode → String
  | unknownToken => "UNKNOWN_TOKEN"
  | unknownOption => "UNKNOWN_OPTION"
  | invalidOption => "INVALID_OPTION"
  | missingOption => "MISSING_OPTION"
  | duplicateOption => "DUPLICATE_OPTION"
  | unterminatedToken => "UNTERMINATED_TOKEN"
  | unterminatedQuote => "UNTERMINATED_QUOTE"
  | invalidSyntax => "INVALID_SYNTAX"

def ofName? (s : String) : Option ErrorCode := all.find? fun c => c.name == s

end ErrorCode

/-- What is wrong with a pattern text or a pattern document. -/
inductive Fault where
  /-- No name follows the sigil. -/
  | missingTokenName (sigil : String)
  /-- An option list does not end. -/
  | missingParenthesis
  /-- A quoted value does not end. -/
  | missingQuote
  | missingOptionName
  | missingOptionValue
  | malformedInteger
  /-- An option value is a bare word. -/
  | unquotedValue (word : String)
  /-- Something else than a comma or the end follows an option. -/
  | missingSeparator
  | unknownKind (name : String)
  | duplicateOption (name : String) (kind : Kind)
  | unknownOption (name : String) (kind : Kind)
  | missingOption (name : String) (kind : Kind)
  | invalidOption (name : String) (kind : Kind) (reason : Reason)
  /-- The document is no object with a list of segments. -/
  | notADocument
  /-- A segment of a document is neither a literal nor a token. -/
  | malformedSegment (shown : String)
  /-- The document is not JSON. What the decoder says of it and where it stopped are left out. -/
  | notJson
  deriving DecidableEq, Repr

namespace Fault

def code : Fault → ErrorCode
  | missingTokenName _ | missingOptionName | missingOptionValue | malformedInteger
  | unquotedValue _ | missingSeparator | notADocument | malformedSegment _ | notJson =>
    .invalidSyntax
  | missingParenthesis => .unterminatedToken
  | missingQuote => .unterminatedQuote
  | unknownKind _ => .unknownToken
  | duplicateOption .. => .duplicateOption
  | unknownOption .. => .unknownOption
  | missingOption .. => .missingOption
  | invalidOption .. => .invalidOption

def message : Fault → String
  | missingTokenName sigil => "expected a token name after " ++ Text.quoted sigil
  | missingParenthesis => "missing closing parenthesis"
  | missingQuote => "unterminated quoted value"
  | missingOptionName => "expected an option name"
  | missingOptionValue => "expected an option value"
  | malformedInteger => "malformed integer"
  | unquotedValue word =>
    "unquoted option value " ++ Text.quoted word ++ " (quote text values)"
  | missingSeparator => "expected ',' or ')'"
  | unknownKind name => "unknown token kind " ++ Text.quoted name
  | duplicateOption name kind =>
    "option " ++ Text.quoted name ++ " given twice for token " ++ Text.quoted kind.name
  | unknownOption name kind =>
    "unknown option " ++ Text.quoted name ++ " for token " ++ Text.quoted kind.name
  | missingOption name kind =>
    "token " ++ Text.quoted kind.name ++ " requires option " ++ Text.quoted name
  | invalidOption name kind reason =>
    "invalid value for option " ++ Text.quoted name ++ " of token " ++ Text.quoted kind.name ++
      ": " ++ reason.message
  | notADocument => "pattern document must be an object with a 'segments' list"
  | malformedSegment shown => "malformed segment " ++ shown
  | notJson => "invalid pattern document"

/-- The fault that a complaint about the options of a token amounts to. -/
def ofComplaint (kind : Kind) (complaint : Complaint) : Fault :=
  let name := complaint.path.headD ""
  match complaint.reason with
  | .unexpected => .unknownOption name kind
  | .absent => .missingOption name kind
  | reason => .invalidOption name kind reason

end Fault

/-- A fault and where it is: a count of characters before it, or of segments of a document. Where a
document stops being JSON is not counted, and the position of `notJson` is always zero. -/
structure Rejection where
  fault : Fault
  position : Nat
  deriving DecidableEq, Repr

/-- The report on a pattern that was rejected. -/
structure ParseError where
  code : ErrorCode
  message : String
  position : Nat := 0
  pattern : String := ""
  deriving DecidableEq, Repr

/-- The report on a fault of the given text. -/
def Rejection.report (r : Rejection) (pattern : String) : ParseError :=
  ⟨r.fault.code, r.fault.message, r.position, pattern⟩

namespace ParseError

/-- The number of characters of the pattern before the line that holds the position. -/
def lineStart (e : ParseError) : Nat :=
  let before := e.pattern.toList.take e.position
  before.length - (before.reverse.takeWhile (· ≠ '\n')).length

theorem lineStart_le (e : ParseError) : e.lineStart ≤ e.position := by
  simp only [lineStart, List.length_take]
  omega

/-- The column of the position within its line, counted from one. -/
def column (e : ParseError) : Nat := e.position - e.lineStart + 1

/-- The line that holds the position. -/
def line (e : ParseError) : List Char :=
  let cs := e.pattern.toList
  (cs.take e.position).drop e.lineStart ++ (cs.drop e.position).takeWhile (· ≠ '\n')

/-- The message with the position. -/
def head (e : ParseError) : String :=
  e.message ++ " at position " ++ String.ofList (Numeral.digits e.position)

/-- The number of blanks before the caret. -/
def indent (e : ParseError) : Nat := e.position - e.lineStart

/-- The message, and under it the line with a caret below the position. -/
def format (e : ParseError) : String :=
  if e.pattern.isEmpty then e.head
  else e.head ++ "\n  " ++ String.ofList e.line ++ "\n  " ++
    String.ofList (List.replicate e.indent ' ') ++ "^"

end ParseError

end LogLayout
