import Sipl.Run.Value
import Sipl.Text.Json

namespace Sipl

def Value.json : Value → JsonValue
  | int value => .number value
  | bool value => .bool value

structure Bindings where
  entries : List (String × Value)
  deriving DecidableEq, Inhabited

namespace Bindings

def empty : Bindings := ⟨[]⟩

/-- Put an entry where the order of names wants it, in place of one with the same name. -/
def insertEntry (name : String) (value : Value) : List (String × Value) → List (String × Value)
  | [] => [(name, value)]
  | (other, bound) :: rest =>
    if name = other then (name, value) :: rest
    else if name < other then (name, value) :: (other, bound) :: rest
    else (other, bound) :: insertEntry name value rest

def insert (bindings : Bindings) (name : String) (value : Value) : Bindings :=
  ⟨insertEntry name value bindings.entries⟩

def get? (bindings : Bindings) (name : String) : Option Value := bindings.entries.lookup name

def size (bindings : Bindings) : Nat := bindings.entries.length

/-- Bind the names one after the other, in any order. -/
def ofList (entries : List (String × Value)) : Bindings :=
  entries.foldl (fun bindings (name, value) => bindings.insert name value) empty

def text (bindings : Bindings) : String :=
  let members := bindings.entries.map fun (name, value) => name ++ ": " ++ value.text
  "\x7b" ++ ", ".intercalate members ++ "\x7d"

/-- The bindings as a JSON object, with one member for each name. -/
def json (bindings : Bindings) : JsonValue :=
  .object (bindings.entries.map fun (name, value) => (name, value.json))

end Bindings

end Sipl
