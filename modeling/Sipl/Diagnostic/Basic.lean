import Sipl.Diagnostic.Code
import Sipl.Reader.SyntaxError

namespace Sipl

inductive Severity where
  | error
  | warning
  | note
  deriving DecidableEq, Inhabited

def Severity.text : Severity → String
  | error => "error"
  | warning => "warning"
  | note => "note"

/-- A remark on a stretch of the source. -/
structure Label where
  span : Span
  message : String
  primary : Bool
  deriving DecidableEq, Inhabited

structure Diagnostic where
  code : Code
  severity : Severity := .error
  message : String := ""
  line? : Option Nat := none
  place? : Option Place := none
  labels : List Label := []
  notes : List String := []
  deriving DecidableEq, Inhabited

namespace Diagnostic

/-- The span of the first primary label. -/
def primarySpan? (diagnostic : Diagnostic) : Option Span :=
  (diagnostic.labels.find? Label.primary).map Label.span

def isError (diagnostic : Diagnostic) : Bool := diagnostic.severity == .error

/-- What a headline starts with. -/
def linePart (diagnostic : Diagnostic) : String :=
  match diagnostic.line? with
  | some line => "[line " ++ toString line ++ "] "
  | none => ""

def codePart (diagnostic : Diagnostic) : String := "[" ++ diagnostic.code.text ++ "]"

/-- What a headline ends with: the place and the message. -/
def messagePart (diagnostic : Diagnostic) : String :=
  let place := match diagnostic.place? with
    | some place => " " ++ place.text
    | none => ""
  place ++ ": " ++ diagnostic.message

/-- The problem on one line. -/
def headline (diagnostic : Diagnostic) : String :=
  diagnostic.linePart ++ diagnostic.severity.text ++ diagnostic.codePart ++ diagnostic.messagePart

/-- The headline with the notes below it. -/
def display (diagnostic : Diagnostic) : String :=
  diagnostic.headline ++ String.join (diagnostic.notes.map fun note => "\n  = note: " ++ note)

end Diagnostic

end Sipl
