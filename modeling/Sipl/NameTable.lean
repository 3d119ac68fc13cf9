namespace Sipl

/-! A name table numbers texts by the order in which they were first seen.  The empty text is always
number zero. -/

structure NameTable where
  names : List String
  deriving DecidableEq

namespace NameTable

def initial : NameTable := ⟨[""]⟩

instance : Inhabited NameTable := ⟨initial⟩

/-- The number of a text, with the table that knows it. -/
def intern (table : NameTable) (text : String) : Nat × NameTable :=
  match table.names.idxOf? text with
  | some number => (number, table)
  | none => (table.names.length, ⟨table.names ++ [text]⟩)

/-- The text with a number; a number never given out stands for the empty text. -/
def lookup (table : NameTable) (number : Nat) : String := (table.names[number]?).getD ""

def size (table : NameTable) : Nat := table.names.length

/-- Number the texts one after the other. -/
def internAll (table : NameTable) (texts : List String) : NameTable :=
  texts.foldl (fun known text => (known.intern text).2) table

/-- How a number is shown. -/
def describe (number : Nat) : String := "Name(" ++ toString number ++ ")"

end NameTable

end Sipl
