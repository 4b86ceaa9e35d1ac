import SoftMenu.Diagnostic.Basic
import SoftMenu.Json.Reader
import SoftMenu.Json.Writer

/-!
# The JSON form of diagnostics

A diagnostic is an object with the fields `id`, `severity`, `message`, `span` and `context`, of
which the last two are left out if they are not set. It can also be read from the array of all five.
-/

namespace SoftMenu

/-- The JSON form of a span. -/
def Span.toJson (span : Span) : Json := .obj [("start", .nat span.start), ("end", .nat span.stop)]

/-- Reads the JSON form of a span. The bounds need not be in order. -/
def Span.ofJson? (value : Json) : Option Span := do
  let [start, stop] ← value.record? ["start", "end"] | none
  return ⟨← start.word64?, ← stop.word64?⟩

/-- The JSON form of details. -/
def Context.toJson (context : Context) : Json :=
  .obj (context.pairs.map fun pair => (pair.1, .str pair.2))

/-- Reads the JSON form of details. Where a key is repeated, its last value counts. -/
def Context.ofJson? : Json → Option Context
  | .obj fields => do
    let pairs ← fields.mapM fun (field : String × Json) => field.2.str?.map (field.1, ·)
    return .ofPairs pairs
  | _ => none

namespace Diagnostic

/-- The JSON form of a diagnostic. -/
def toJson (diagnostic : Diagnostic) : Json :=
  .obj <| Json.present
    [("id", some (.str diagnostic.id)),
      ("severity", some (.str diagnostic.severity.word)),
      ("message", some (.str diagnostic.message)),
      ("span", diagnostic.span.map Span.toJson),
      ("context", diagnostic.context.map Context.toJson)]

/-- Reads the JSON form of a diagnostic. -/
def ofJson? (value : Json) : Option Diagnostic := do
  let [id, severity, message, span, context] ←
    value.record? ["id", "severity", "message", "span", "context"] | none
  return {
    id := ← id.str?
    severity := ← severity.choice?.bind Severity.ofWord?
    message := ← message.str?
    span := ← span.nullable? Span.ofJson?
    context := ← context.nullable? Context.ofJson? }

/-- The JSON text of a diagnostic on one line. -/
def toText (diagnostic : Diagnostic) : String := diagnostic.toJson.write .compact

/-- Reads the JSON text of a diagnostic. -/
def ofText? (text : String) : Option Diagnostic := (Json.read? text).bind ofJson?

end Diagnostic

end SoftMenu
