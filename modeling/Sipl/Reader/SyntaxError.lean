import Sipl.Token.Basic

namespace Sipl

/-- What could not be read. -/
inductive SyntaxFault where
  | unexpectedToken (expected : Kind)
  | expectedExpression
  | invalidStatement
  | expectedIdentifier
  | trailingInput
  deriving DecidableEq, Inhabited

/-- Where a problem was met: at a token with the given text, or at the end of the input. -/
inductive Place where
  | token (text : String)
  | inputEnd
  deriving DecidableEq, Inhabited

def Place.text : Place → String
  | .token text => "at '" ++ text ++ "'"
  | .inputEnd => "at end"

/-- A fault together with the token at which it was met. -/
structure SyntaxError where
  fault : SyntaxFault
  message : String
  token : Token
  deriving DecidableEq, Inhabited

namespace SyntaxError

def site (error : SyntaxError) : Site := error.token.site

def place (error : SyntaxError) : Place :=
  if error.token.kind = .eof then .inputEnd else .token error.token.lexeme

def display (error : SyntaxError) : String :=
  "[line " ++ toString error.site.line ++ "] " ++ error.place.text ++ ": " ++ error.message

end SyntaxError

end Sipl
