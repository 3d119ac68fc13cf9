namespace Sipl

namespace JsonString

/-- Control characters are those below the space and those from delete up to U+009F. -/
def isControl (char : Char) : Bool := char.toNat < 32 || (127 ≤ char.toNat && char.toNat < 160)

def hexDigit (value : Nat) : Char := "0123456789abcdef".toList.getD value '0'

/-- The last four hexadecimal digits of a number. -/
def hex4 (value : Nat) : List Char :=
  [hexDigit (value / 4096 % 16), hexDigit (value / 256 % 16), hexDigit (value / 16 % 16),
    hexDigit (value % 16)]

def escapeChar (char : Char) : List Char :=
  if char = '"' then ['\\', '"']
  else if char = '\\' then ['\\', '\\']
  else if char = '\n' then ['\\', 'n']
  else if char = '\r' then ['\\', 'r']
  else if char = '\t' then ['\\', 't']
  else if isControl char then '\\' :: 'u' :: hex4 char.toNat
  else [char]

/-- The inside of the JSON string literal for a text. -/
def escape (text : String) : String := String.ofList (text.toList.flatMap escapeChar)

/-- The JSON string literal for a text. -/
def quote (text : String) : String := "\"" ++ escape text ++ "\""

end JsonString

end Sipl
