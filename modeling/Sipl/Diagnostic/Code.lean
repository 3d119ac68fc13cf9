import Sipl.Text.Blank

namespace Sipl

/-- Every kind of problem that has a code. -/
inductive Code where
  | unexpectedCharacter
  | loneColon
  | loneBang
  | unexpectedToken
  | expectedExpression
  | invalidStatement
  | expectedIdentifier
  | trailingInput
  | typeMismatch
  | divisionByZero
  | undefinedVariable
  | undefinedFunction
  | arityMismatch
  | missingElse
  | callDepthExceeded
  | internal
  deriving DecidableEq, Inhabited

/-- The part of a run in which a problem is found. -/
inductive Phase where
  | scanning
  | reading
  | running
  | internal
  deriving DecidableEq, Inhabited

namespace Code

/-- Every code, in the order of their numbers. -/
def all : List Code :=
  [unexpectedCharacter, loneColon, loneBang, unexpectedToken, expectedExpression, invalidStatement,
    expectedIdentifier, trailingInput, typeMismatch, divisionByZero, undefinedVariable,
    undefinedFunction, arityMismatch, missingElse, callDepthExceeded, internal]

def text : Code → String
  | unexpectedCharacter => "E0001"
  | loneColon => "E0002"
  | loneBang => "E0003"
  | unexpectedToken => "E1001"
  | expectedExpression => "E1002"
  | invalidStatement => "E1003"
  | expectedIdentifier => "E1004"
  | trailingInput => "E1005"
  | typeMismatch => "E6001"
  | divisionByZero => "E6002"
  | undefinedVariable => "E6003"
  | undefinedFunction => "E6004"
  | arityMismatch => "E6005"
  | missingElse => "E6006"
  | callDepthExceeded => "E6007"
  | internal => "E9001"

def description : Code → String
  | unexpectedCharacter => "unexpected character in source"
  | loneColon => "':' not followed by '='"
  | loneBang => "'!' not followed by '='"
  | unexpectedToken => "unexpected token"
  | expectedExpression => "expected expression"
  | invalidStatement => "invalid statement"
  | expectedIdentifier => "expected identifier"
  | trailingInput => "input after the end of the program"
  | typeMismatch => "operand has the wrong type"
  | divisionByZero => "division by zero"
  | undefinedVariable => "undefined variable"
  | undefinedFunction => "undefined function"
  | arityMismatch => "wrong number of arguments"
  | missingElse => "if expression took a missing else branch"
  | callDepthExceeded => "call depth limit exceeded"
  | internal => "internal interpreter error"

def phase : Code → Phase
  | unexpectedCharacter | loneColon | loneBang => .scanning
  | unexpectedToken | expectedExpression | invalidStatement | expectedIdentifier
  | trailingInput => .reading
  | typeMismatch | divisionByZero | undefinedVariable | undefinedFunction | arityMismatch
  | missingElse | callDepthExceeded => .running
  | internal => .internal

/-- Whether the problem is found before anything is run. -/
def isCompileTime (code : Code) : Bool := code.phase == .scanning || code.phase == .reading

/-- ASCII letters are raised to upper case; other characters stay. -/
def raise (char : Char) : Char := char.toUpper

/-- Find the code that a text names.  Blanks around it and the case of its letters do not
matter. -/
def ofText? (text : String) : Option Code :=
  let name := (Blank.trim text.toList).map raise
  all.find? fun code => code.text.toList == name

end Code

end Sipl
