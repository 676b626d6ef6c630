import LogLayout.Pattern.Options
import LogLayout.Pattern.Fault
import LogLayout.Json.Reader
import LogLayout.Json.Writer
import LogLayout.Datum.Lenient

/-!
# Pattern documents

A compiled pattern as data, so that it can be stored and sent. A document holds the source text and
the segments; a token is written with those of its options that differ from their defaults. Reading
checks every token anew, in the order of the segments, and reports the first one at fault by its
number.
-/

namespace LogLayout

open Numeral (TooLong)

namespace Token

/-- A member for an option, unless it has its default value. -/
def changed {α : Type} [DecidableEq α] (name : String) (value default : α) (toJson : α → Json) :
    List (String × Json) :=
  if value = default then [] else [(name, toJson value)]

/-- The options that differ from their defaults. -/
def changedOptions : Token → List (String × Json)
  | level o =>
    changed "width" o.width none (fun w => (w.map fun n => Json.int n.val).getD .null) ++
      changed "alignment" o.alignment .left (fun a => .text a.sign)
  | datetime format => changed "fmt" format .standard (fun f => .text f.text)
  | fields o =>
    changed "prefix" o.opening "" .text ++ changed "suffix" o.closing "" .text ++
      changed "quote" o.quote (some defaultQuote) (fun q => .text (quoteText q))
  | span o =>
    changed "prefix" o.opening "" .text ++ changed "suffix" o.closing "" .text ++
      changed "args" o.args false .bool ++ changed "args_prefix" o.argsOpening "" .text ++
      changed "args_suffix" o.argsClosing "" .text ++
      changed "quote" o.quote (some defaultQuote) (fun q => .text (quoteText q))
  | text value => [("value", .text value)]
  | target | message | file | line => []

end Token

/-- A segment of a document. -/
def Segment.toJson : Segment → Json
  | literal text => .object [("text", .text text)]
  | token t => .object [("token", .text t.kind.name), ("options", .object t.changedOptions)]

/-- Why a document is refused. -/
inductive DocumentError where
  | rejected (r : Rejection)
  /-- An integer in it is too long to be shown. -/
  | numeral (cause : TooLong)

namespace Segment

/-- The segment of a document that is number `index` in its list. A text comes before a token. -/
def ofDatum (index : Nat) (d : Datum) : Except DocumentError Segment :=
  let malformed : Except DocumentError Segment :=
    match d.shown with
    | .ok shown => .error (.rejected ⟨.malformedSegment shown, index⟩)
    | .error cause => .error (.numeral cause)
  match d with
  | .dictionary entries =>
    match Datum.lookup? entries (.text "text"), Datum.lookup? entries (.text "token") with
    | some (.text text), _ => .ok (.literal text)
    | _, some (.text name) =>
      match Kind.ofName? name with
      | none => .error (.rejected ⟨.unknownKind name, index⟩)
      | some kind =>
        let options := (Datum.lookup? entries (.text "options")).getD .null
        match Token.ofDatum kind (if options.isTruthy then options else .dictionary []) with
        | .valid t => .ok (.token t)
        | .invalid complaint _ => .error (.rejected ⟨.ofComplaint kind complaint, index⟩)
    | _, _ => malformed
  | _ => malformed

/-- The segments of a document from number `index` on. -/
def ofData (index : Nat) : List Datum → Except DocumentError (List Segment)
  | [] => .ok []
  | d :: rest => do
    let first ← ofDatum index d
    return first :: (← ofData (index + 1) rest)

end Segment

namespace Pattern

/-- The document of a pattern. -/
def toJson (p : Pattern) : Json :=
  .object [("source", .text p.source), ("segments", .list (p.segments.map Segment.toJson))]

/-- The text of the document of a pattern. -/
def dump (p : Pattern) : String := String.ofList p.toJson.write

/-- The pattern of a document. Without a list of segments it has none, without a source its source
is empty. -/
def ofDatum (d : Datum) : Except DocumentError Pattern :=
  match d with
  | .dictionary entries =>
    match (Datum.lookup? entries (.text "segments")).getD (.list []) with
    | .list items => do
      let segments ← Segment.ofData 0 items
      let source := (Datum.lookup? entries (.text "source")).getD (.text "")
      match source.display with
      | .ok s => .ok ⟨segments, s⟩
      | .error cause => .error (.numeral cause)
    | _ => .error (.rejected ⟨.notADocument, 0⟩)
  | _ => .error (.rejected ⟨.notADocument, 0⟩)

/-- The pattern of the text of a document. A text that is not JSON is refused without the message
and the position of the decoder. -/
def load (text : String) : Except DocumentError Pattern :=
  match Json.read .strict text with
  | some j => ofDatum j.toDatum
  | none => .error (.rejected ⟨.notJson, 0⟩)

/-- The pattern of the text of a document in UTF-8. -/
def loadBytes (content : List UInt8) : Except DocumentError Pattern :=
  match Datum.utf8? content with
  | some text => load text
  | none => .error (.rejected ⟨.notJson, 0⟩)

end Pattern

end LogLayout
