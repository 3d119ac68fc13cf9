import Sipl.Run.Value

namespace Sipl

/-- Why a run stopped. -/
inductive Cause where
  | typeMismatch (context : String) (expected found : ValueType)
  | divisionByZero
  | undefinedVariable (name : String)
  | undefinedFunction (name : String)
  | arityMismatch (name : String) (expected given : Nat)
  | missingElse
  | callDepthExceeded (limit : Nat)
  | internal (message : String)
  deriving DecidableEq, Inhabited

def Cause.message : Cause → String
  | typeMismatch context expected found =>
    "type mismatch in " ++ context ++ ": expected " ++ expected.name ++ ", found " ++ found.name
  | divisionByZero => "division by zero"
  | undefinedVariable name => "undefined variable '" ++ name ++ "'"
  | undefinedFunction name => "undefined function '" ++ name ++ "'"
  | arityMismatch name expected given =>
    "function '" ++ name ++ "' expects " ++ toString expected
      ++ (if expected = 1 then " argument" else " arguments") ++ ", got " ++ toString given
  | missingElse => "'if' expression has no 'else' branch for a false condition"
  | callDepthExceeded limit =>
    "maximum call depth exceeded (limit: " ++ toString limit ++ ")"
  | internal message => "internal error: " ++ message

/-- One call that had not returned: the function and the line of the call. -/
structure Frame where
  name : String
  line : Nat
  deriving DecidableEq, Inhabited

namespace Frame

def text (frame : Frame) : String :=
  frame.name ++ " called at line " ++ toString frame.line

/-- Number the frames of a backtrace, the latest call first. -/
def numbered (frames : List Frame) : List String :=
  frames.zipIdx.map fun (frame, number) => toString number ++ ": " ++ frame.text

end Frame

/-- The calls that had not returned when an error was raised, the latest one first. -/
structure Backtrace where
  frames : List Frame
  deriving DecidableEq, Inhabited

def Backtrace.text (backtrace : Backtrace) : String :=
  "\n".intercalate (Frame.numbered backtrace.frames)

structure RuntimeError where
  cause : Cause
  site? : Option Site := none
  backtrace? : Option Backtrace := none
  deriving DecidableEq, Inhabited

namespace RuntimeError

def message (error : RuntimeError) : String := error.cause.message

/-- Place an error that has no site yet. -/
def orAt (error : RuntimeError) (site : Site) : RuntimeError :=
  { error with site? := error.site?.or (some site) }

def withBacktrace (error : RuntimeError) (backtrace : Backtrace) : RuntimeError :=
  { error with backtrace? := some backtrace }

def display (error : RuntimeError) : String :=
  match error.site? with
  | some site => "[line " ++ toString site.line ++ "] " ++ error.message
  | none => error.message

end RuntimeError

end Sipl
