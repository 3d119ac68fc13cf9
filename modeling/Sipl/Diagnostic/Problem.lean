import Sipl.Diagnostic.Basic
import Sipl.Run.RuntimeError
import Sipl.Token.Scan

namespace Sipl

namespace LexicalFault

def code : LexicalFault → Code
  | unexpectedCharacter _ => .unexpectedCharacter
  | loneColon => .loneColon
  | loneBang => .loneBang

def label : LexicalFault → String
  | unexpectedCharacter _ => "not part of any token"
  | loneColon => "expected ':='"
  | loneBang => "expected '!='"

def notes : LexicalFault → List String
  | unexpectedCharacter _ => []
  | loneColon => ["assignment is written ':='"]
  | loneBang => ["negation is written 'not'"]

end LexicalFault

def LexicalError.diagnostic (error : LexicalError) : Diagnostic where
  code := error.fault.code
  message := error.fault.message
  line? := some error.site.line
  place? := some (.token error.text)
  labels := [⟨error.site.span, error.fault.label, true⟩]
  notes := error.fault.notes

namespace SyntaxFault

def code : SyntaxFault → Code
  | unexpectedToken _ => .unexpectedToken
  | expectedExpression => .expectedExpression
  | invalidStatement => .invalidStatement
  | expectedIdentifier => .expectedIdentifier
  | trailingInput => .trailingInput

def label : SyntaxFault → String
  | unexpectedToken expected => "expected '" ++ expected.text ++ "' here"
  | expectedExpression => "expected an expression"
  | invalidStatement => "not an assignment, 'if', or 'while'"
  | expectedIdentifier => "expected a name"
  | trailingInput => "program already ended"

end SyntaxFault

def SyntaxError.diagnostic (error : SyntaxError) : Diagnostic where
  code := error.fault.code
  message := error.message
  line? := some error.site.line
  place? := some error.place
  labels := [⟨error.site.span, error.fault.label, true⟩]

namespace Cause

def code : Cause → Code
  | typeMismatch _ _ _ => .typeMismatch
  | divisionByZero => .divisionByZero
  | undefinedVariable _ => .undefinedVariable
  | undefinedFunction _ => .undefinedFunction
  | arityMismatch _ _ _ => .arityMismatch
  | missingElse => .missingElse
  | callDepthExceeded _ => .callDepthExceeded
  | internal _ => .internal

def notes : Cause → List String
  | undefinedVariable _ => ["function bodies only see their own parameters"]
  | missingElse => ["an 'if' expression needs an 'else' branch to produce a value when false"]
  | callDepthExceeded _ => ["the limit can be changed with --max-depth=<n>"]
  | _ => []

end Cause

namespace Backtrace

/-- How many calls a note shows. -/
def shownFrames : Nat := 8

/-- The latest calls, and how many there are besides. -/
def note (backtrace : Backtrace) : String :=
  let shown := (Frame.numbered backtrace.frames).take shownFrames
  let hidden := backtrace.frames.length - shownFrames
  "call stack:" ++ String.join (shown.map fun line => "\n    " ++ line)
    ++ (if hidden > 0 then "\n    ... " ++ toString hidden ++ " more" else "")

/-- A backtrace without calls has no note. -/
def notes (backtrace : Backtrace) : List String :=
  if backtrace.frames.isEmpty then [] else [backtrace.note]

end Backtrace

namespace RuntimeError

def diagnostic (error : RuntimeError) : Diagnostic where
  code := error.cause.code
  message := error.message
  line? := error.site?.map Site.line
  labels := (error.site?.map fun site => ⟨site.span, "evaluation failed here", true⟩).toList
  notes := error.cause.notes ++ (error.backtrace?.map Backtrace.notes).getD []

/-- The diagnostic of a failure of the interpreter itself. -/
def internalDiagnostic (message : String) : Diagnostic :=
  let base := ({ cause := .internal message } : RuntimeError).diagnostic
  { base with notes := base.notes ++ ["this is a bug in the interpreter, not in the program"] }

end RuntimeError

end Sipl
