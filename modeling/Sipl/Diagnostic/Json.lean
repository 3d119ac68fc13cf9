import Sipl.Diagnostic.Basic
import Sipl.Text.Json

namespace Sipl

def Label.json (label : Label) : JsonValue :=
  .object [("start", .ofNat label.span.start), ("end", .ofNat label.span.stop),
    ("message", .string label.message), ("primary", .bool label.primary)]

/-- A token is shown by its text and the end of the input by a word of its own. -/
def Place.json : Place → JsonValue
  | .token text => .string text
  | .inputEnd => .string "end"

namespace Diagnostic

def json (diagnostic : Diagnostic) : JsonValue :=
  .object [("code", .string diagnostic.code.text), ("severity", .string diagnostic.severity.text),
    ("message", .string diagnostic.message), ("line", .ofOption diagnostic.line? .ofNat),
    ("at", .ofOption diagnostic.place? Place.json),
    ("labels", .array (diagnostic.labels.map Label.json)),
    ("notes", .array (diagnostic.notes.map .string))]

/-- All diagnostics as one document, its last line ended. -/
def jsonDocument (diagnostics : List Diagnostic) : String :=
  (JsonValue.array (diagnostics.map json)).spread 0 ++ "\n"

end Diagnostic

end Sipl
