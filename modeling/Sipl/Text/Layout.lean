namespace Sipl

/-! Written text is a sequence of words, single spaces and line breaks.  Words carry the tokens; the
rest only separates them. -/

namespace Layout

def emit (written : String) (text : String) : String := written ++ text

def newline (written : String) : String := written.push '\n'

def space (written : String) : String := written.push ' '

def indent (written : String) (columns : Nat) : String :=
  written ++ String.ofList (List.replicate columns ' ')

/-- End the last line, unless it is ended already. -/
def endLine (written : String) : String :=
  if written.toList.getLast? = some '\n' then written else newline written

end Layout

/-- One element of written text. -/
inductive Ink where
  | word (text : String)
  | space
  /-- A line break followed by an indentation. -/
  | line (columns : Nat)
  deriving DecidableEq, Inhabited

namespace Ink

def write (written : String) : Ink → String
  | word text => Layout.emit written text
  | space => Layout.space written
  | line columns => Layout.indent (Layout.newline written) columns

def render (inks : List Ink) : String := inks.foldl write ""

/-- Put a comma and a space between the groups. -/
def commaSeparated : List (List Ink) → List Ink
  | [] => []
  | [last] => last
  | first :: rest => first ++ word "," :: space :: commaSeparated rest

end Ink

end Sipl
