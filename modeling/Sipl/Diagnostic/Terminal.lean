import Sipl.Diagnostic.Basic

namespace Sipl

/-- When colours are used. -/
inductive ColorMode where
  | auto
  | always
  | never
  deriving DecidableEq, Inhabited

namespace ColorMode

def ofText? : String → Option ColorMode
  | "auto" => some auto
  | "always" => some always
  | "never" => some never
  | _ => none

/-- Whether a writer uses colours, given whether it writes to a terminal. -/
def colorful (mode : ColorMode) (terminal : Bool) : Bool :=
  match mode with
  | auto => terminal
  | always => true
  | never => false

end ColorMode

/-- How diagnostics are written. -/
structure TerminalStyle where
  colors : Bool := false
  notes : Bool := false
  deriving DecidableEq, Inhabited

namespace TerminalStyle

/-- An escape sequence that changes how the terminal shows text. -/
def sequence (parameters : String) : String := "\x1b[" ++ parameters ++ "m"

/-- Text shown as the parameters say, and everything behind it as before. -/
def paint (style : TerminalStyle) (parameters : String) (text : String) : String :=
  if style.colors then sequence parameters ++ text ++ sequence "0" else text

def bold : String := "1"

/-- Errors are bold red, warnings bold yellow and notes bold cyan. -/
def severityColor : Severity → String
  | .error => "1;31"
  | .warning => "1;33"
  | .note => "1;36"

def severity (style : TerminalStyle) (severity : Severity) : String :=
  style.paint (severityColor severity) severity.text

def noteLine (style : TerminalStyle) (note : String) : String :=
  "  = " ++ style.paint bold "note" ++ ": " ++ note ++ "\n"

def diagnostic (style : TerminalStyle) (diagnostic : Diagnostic) : String :=
  diagnostic.linePart ++ style.severity diagnostic.severity ++ style.paint bold diagnostic.codePart
    ++ diagnostic.messagePart ++ "\n"
    ++ (if style.notes then String.join (diagnostic.notes.map style.noteLine) else "")

def diagnostics (style : TerminalStyle) (diagnostics : List Diagnostic) : String :=
  String.join (diagnostics.map style.diagnostic)

def warningCount (count : Nat) : String :=
  toString count ++ (if count = 1 then " warning" else " warnings") ++ " emitted"

/-- The line that ends a report of so many errors and warnings.  Without any there is none. -/
def summary (style : TerminalStyle) (errors warnings : Nat) : String :=
  if errors > 0 then
    let previous := if errors = 1 then "previous error" else toString errors ++ " previous errors"
    style.severity .error ++ ": aborting due to " ++ previous
      ++ (if warnings > 0 then "; " ++ warningCount warnings else "") ++ "\n"
  else if warnings > 0 then
    style.severity .warning ++ ": " ++ warningCount warnings ++ "\n"
  else
    ""

end TerminalStyle

end Sipl
