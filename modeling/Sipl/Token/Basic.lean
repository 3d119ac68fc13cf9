import Sipl.Text.Span
import Sipl.Token.Kind

namespace Sipl

/-- A constant as written in a program: an integer of any size, or a truth value. -/
inductive Literal where
  | int (value : Int)
  | bool (value : Bool)
  deriving DecidableEq, Inhabited

def Literal.text : Literal → String
  | .int value => toString value
  | .bool value => toString value

/-- One token of a source text.  The end marker has an empty lexeme. -/
structure Token where
  kind : Kind
  lexeme : String
  site : Site
  literal? : Option Literal
  deriving DecidableEq, Inhabited

namespace Token

/-- Tokens count as equal when they are spelled alike, wherever they stand. -/
def sameLexeme (left right : Token) : Bool := left.lexeme == right.lexeme

/-- A stream that can be read to its end: its last token is the end marker. -/
def Closed (tokens : List Token) : Prop := tokens.getLast?.map Token.kind = some .eof

instance (tokens : List Token) : Decidable (Closed tokens) :=
  inferInstanceAs (Decidable (_ = _))

/-- All pairs `i < j` of places whose tokens are spelled alike. -/
def equalPairs (tokens : List Token) : List (Nat × Nat) :=
  let numbered := tokens.zipIdx
  numbered.flatMap fun (left, i) =>
    (numbered.drop (i + 1)).filterMap fun (right, j) =>
      if left.sameLexeme right then some (i, j) else none

end Token

end Sipl
