import Sipl.Tree.Basic

namespace Sipl

/-- The functions that can be called.  Of several declarations of one name the last one counts. -/
structure FunctionTable where
  functions : List Function
  deriving Inhabited

namespace FunctionTable

/-- Declare a function in place of one with the same name. -/
def declare : List Function → Function → List Function
  | [], declared => [declared]
  | other :: rest, declared =>
    if other.name = declared.name then declared :: rest else other :: declare rest declared

def ofProgram (program : Program) : FunctionTable := ⟨program.functions.foldl declare []⟩

def get? (table : FunctionTable) (name : String) : Option Function :=
  table.functions.find? fun function => function.name == name

def size (table : FunctionTable) : Nat := table.functions.length

end FunctionTable

end Sipl
