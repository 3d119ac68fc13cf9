namespace Sipl

inductive Kind where
  | leftParen
  | rightParen
  | comma
  | semicolon
  | slash
  | star
  | plus
  | minus
  | assign
  | eq
  | notEq
  | lt
  | ltEq
  | gt
  | gtEq
  | number
  | ident
  | beginWord
  | endWord
  | andWord
  | orWord
  | notWord
  | ifWord
  | thenWord
  | elseWord
  | trueWord
  | falseWord
  | whileWord
  | doWord
  | funcWord
  | programWord
  | eof
  deriving DecidableEq, Inhabited

namespace Kind

/-- Every kind, in the order of their numbers. -/
def all : List Kind :=
  [leftParen, rightParen, comma, semicolon, slash, star, plus, minus, assign, eq, notEq, lt, ltEq,
    gt, gtEq, number, ident, beginWord, endWord, andWord, orWord, notWord, ifWord, thenWord,
    elseWord, trueWord, falseWord, whileWord, doWord, funcWord, programWord, eof]

/-- The number of a kind: its place in `all`. -/
def index (kind : Kind) : Nat := all.idxOf kind

def ofIndex? (index : Nat) : Option Kind := all[index]?

theorem ofIndex?_index (kind : Kind) : ofIndex? kind.index = some kind := by
  cases kind <;> rfl

theorem index_lt (kind : Kind) : kind.index < 32 := by
  cases kind <;> decide

theorem index_injective {left right : Kind} (same : left.index = right.index) :
    left = right := by
  have found := ofIndex?_index left
  rw [same, ofIndex?_index right] at found
  exact (Option.some.inj found).symm

/-- The name under which a token listing shows the kind. -/
def label : Kind → String
  | leftParen => "LParen"
  | rightParen => "RParen"
  | comma => "Comma"
  | semicolon => "Semicolon"
  | slash => "Slash"
  | star => "Star"
  | plus => "Plus"
  | minus => "Minus"
  | assign => "Assign"
  | eq => "Eq"
  | notEq => "NotEq"
  | lt => "Lt"
  | ltEq => "LtEq"
  | gt => "Gt"
  | gtEq => "GtEq"
  | number => "Number"
  | ident => "Ident"
  | beginWord => "Begin"
  | endWord => "End"
  | andWord => "And"
  | orWord => "Or"
  | notWord => "Not"
  | ifWord => "If"
  | thenWord => "Then"
  | elseWord => "Else"
  | trueWord => "True"
  | falseWord => "False"
  | whileWord => "While"
  | doWord => "Do"
  | funcWord => "Func"
  | programWord => "Program"
  | eof => "Eof"

def ofLabel? (label : String) : Option Kind := all.find? fun kind => kind.label == label

/-- How messages spell the kind.  Operators and reserved words are spelled as they are written. -/
def text : Kind → String
  | leftParen => "("
  | rightParen => ")"
  | comma => ","
  | semicolon => ";"
  | slash => "/"
  | star => "*"
  | plus => "+"
  | minus => "-"
  | assign => ":="
  | eq => "="
  | notEq => "<>"
  | lt => "<"
  | ltEq => "<="
  | gt => ">"
  | gtEq => ">="
  | number => "number"
  | ident => "identifier"
  | beginWord => "begin"
  | endWord => "end"
  | andWord => "and"
  | orWord => "or"
  | notWord => "not"
  | ifWord => "if"
  | thenWord => "then"
  | elseWord => "else"
  | trueWord => "true"
  | falseWord => "false"
  | whileWord => "while"
  | doWord => "do"
  | funcWord => "func"
  | programWord => "program"
  | eof => "end of file"

def isComparison : Kind → Bool
  | eq | notEq | lt | ltEq | gt | gtEq => true
  | _ => false

/-- The fourteen words that cannot be used as names. -/
def reserved : List Kind :=
  [beginWord, endWord, andWord, orWord, notWord, ifWord, thenWord, elseWord, trueWord, falseWord,
    whileWord, doWord, funcWord, programWord]

def isReserved (kind : Kind) : Bool := reserved.contains kind

/-- The kind of a word: its own if it is reserved, a name otherwise.  Case matters. -/
def ofWord (word : String) : Kind :=
  (reserved.find? fun kind => kind.text == word).getD ident

end Kind

end Sipl
