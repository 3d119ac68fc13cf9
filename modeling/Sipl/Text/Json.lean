import Sipl.Text.JsonString

namespace Sipl

inductive JsonValue where
  | null
  | bool (value : Bool)
  | number (value : Int)
  | string (text : String)
  | array (items : List JsonValue)
  | object (members : List (String × JsonValue))
  deriving Inhabited

namespace JsonValue

def ofOption {α : Type} (value? : Option α) (encode : α → JsonValue) : JsonValue :=
  (value?.map encode).getD null

def ofNat (value : Nat) : JsonValue := number value

/-- A member of an object, up to its value. -/
def memberName (name : String) : String := JsonString.quote name ++ ": "

mutual

/-- The document on one line. -/
def inline : JsonValue → String
  | null => "null"
  | bool value => toString value
  | number value => toString value
  | string text => JsonString.quote text
  | array items => "[" ++ inlineItems items ++ "]"
  | object members => "\x7b" ++ inlineMembers members ++ "\x7d"

def inlineItems : List JsonValue → String
  | [] => ""
  | [last] => last.inline
  | item :: rest => item.inline ++ ", " ++ inlineItems rest

def inlineMembers : List (String × JsonValue) → String
  | [] => ""
  | [(name, last)] => memberName name ++ last.inline
  | (name, value) :: rest => memberName name ++ value.inline ++ ", " ++ inlineMembers rest

end

def indentation (depth : Nat) : String := String.ofList (List.replicate (2 * depth) ' ')

mutual

/-- The document spread over lines, inside brackets nested to the given depth. -/
def spread (depth : Nat) : JsonValue → String
  | null => "null"
  | bool value => toString value
  | number value => toString value
  | string text => JsonString.quote text
  | array items => "[\n" ++ spreadItems (depth + 1) items ++ indentation depth ++ "]"
  | object members => "\x7b\n" ++ spreadMembers (depth + 1) members ++ indentation depth ++ "\x7d"

def spreadItems (depth : Nat) : List JsonValue → String
  | [] => ""
  | [last] => indentation depth ++ last.spread depth ++ "\n"
  | item :: rest => indentation depth ++ item.spread depth ++ ",\n" ++ spreadItems depth rest

def spreadMembers (depth : Nat) : List (String × JsonValue) → String
  | [] => ""
  | [(name, last)] => indentation depth ++ memberName name ++ last.spread depth ++ "\n"
  | (name, value) :: rest =>
    indentation depth ++ memberName name ++ value.spread depth ++ ",\n" ++ spreadMembers depth rest

end

end JsonValue

end Sipl
