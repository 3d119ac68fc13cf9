import Sipl.Token.Basic

namespace Sipl

/-! The text is cut into pieces from the front: blanks, tokens, and stray characters that belong to
no token.  `Piece.front` always takes the longest piece, and `scan` keeps the tokens and the stray
characters with the places where they stand. -/

/-- Why a character belongs to no token. -/
inductive LexicalFault where
  | unexpectedCharacter (char : Char)
  | loneColon
  | loneBang
  deriving DecidableEq, Inhabited

namespace LexicalFault

def char : LexicalFault → Char
  | unexpectedCharacter char => char
  | loneColon => ':'
  | loneBang => '!'

def message : LexicalFault → String
  | unexpectedCharacter _ => "unexpected character"
  | loneColon => "expected '=' after ':'"
  | loneBang => "expected '=' after '!'"

/-- A colon or an exclamation mark lacks its equals sign; any other character starts no token. -/
def ofChar (char : Char) : LexicalFault :=
  if char = ':' then loneColon else if char = '!' then loneBang else unexpectedCharacter char

@[simp] theorem char_ofChar (char : Char) : (ofChar char).char = char := by
  unfold ofChar
  split
  · simp_all [LexicalFault.char]
  · split <;> simp_all [LexicalFault.char]

end LexicalFault

/-- A stray character and the place where it stands. -/
structure LexicalError where
  fault : LexicalFault
  site : Site
  deriving DecidableEq, Inhabited

def LexicalError.text (error : LexicalError) : String := error.fault.char.toString

def LexicalError.display (error : LexicalError) : String :=
  "[line " ++ toString error.site.line ++ "] " ++ error.fault.message ++ " '" ++ error.text ++ "'"

namespace Scan

def isBlank (char : Char) : Bool :=
  char == ' ' || char == '\t' || char == '\r' || char == '\n'

/-- Decimal digits are the ten ASCII ones. -/
def isDigit (char : Char) : Bool := '0' ≤ char && char ≤ '9'

/-- Words are made of ASCII letters and underscores; a digit ends a word. -/
def isLetter (char : Char) : Bool :=
  ('a' ≤ char && char ≤ 'z') || ('A' ≤ char && char ≤ 'Z') || char == '_'

/-- The operators and separators, each longer one before its own first character alone. -/
def operators : List (List Char × Kind) :=
  [([':', '='], .assign), (['!', '='], .notEq), (['<', '='], .ltEq), (['<', '>'], .notEq),
    (['<'], .lt), (['>', '='], .gtEq), (['>'], .gt), (['('], .leftParen), ([')'], .rightParen),
    ([','], .comma), ([';'], .semicolon), (['/'], .slash), (['*'], .star), (['+'], .plus),
    (['-'], .minus), (['='], .eq)]

/-- The first operator that the text starts with. -/
def operatorAt? (text : List Char) : Option (List Char × Kind) :=
  operators.find? fun operator => operator.1.isPrefixOf text

/-- The value of a run of decimal digits. -/
def decimal (digits : List Char) : Nat :=
  digits.foldl (fun value digit => 10 * value + (digit.toNat - '0'.toNat)) 0

/-- The literal that a token of the given kind and spelling stands for. -/
def literalOf? (kind : Kind) (lexeme : List Char) : Option Literal :=
  match kind with
  | .number => some (.int (decimal lexeme))
  | .trueWord => some (.bool true)
  | .falseWord => some (.bool false)
  | _ => none

def byteSize : List Char → Nat
  | [] => 0
  | char :: rest => char.utf8Size + byteSize rest

/-- The line behind some characters that start on the given one.  Lines are counted in 32 bits:
behind the largest one comes line zero. -/
def lineBehind (line : Nat) : List Char → Nat
  | [] => line
  | char :: rest => lineBehind (if char = '\n' then (line + 1) % 4294967296 else line) rest

end Scan

open Scan

/-- One piece of a source text. -/
inductive Piece where
  | blank (char : Char)
  | token (kind : Kind) (lexeme : List Char)
  | stray (fault : LexicalFault)
  deriving DecidableEq, Inhabited

namespace Piece

/-- The characters that a piece covers. -/
def chars : Piece → List Char
  | blank char => [char]
  | token _ lexeme => lexeme
  | stray fault => [fault.char]

/-- The longest piece at the front of a text, and the text after it. -/
def front (first : Char) (rest : List Char) : Piece × List Char :=
  if isBlank first then
    (blank first, rest)
  else if isDigit first then
    (token .number (first :: rest.takeWhile isDigit), rest.dropWhile isDigit)
  else if isLetter first then
    let lexeme := first :: rest.takeWhile isLetter
    (token (Kind.ofWord (String.ofList lexeme)) lexeme, rest.dropWhile isLetter)
  else
    match operatorAt? (first :: rest) with
    | some (lexeme, kind) => (token kind lexeme, (first :: rest).drop lexeme.length)
    | none => (stray (.ofChar first), rest)

/-- Operators are never empty. -/
theorem operatorAt?_length_pos {text lexeme : List Char} {kind : Kind}
    (found : operatorAt? text = some (lexeme, kind)) : 0 < lexeme.length := by
  have listed := List.mem_of_find?_eq_some found
  have nonempty : ∀ operator ∈ operators, 0 < operator.1.length := by decide
  exact nonempty _ listed

theorem operatorAt?_isPrefixOf {text lexeme : List Char} {kind : Kind}
    (found : operatorAt? text = some (lexeme, kind)) : lexeme.isPrefixOf text = true := by
  unfold operatorAt? at found
  simpa using List.find?_some found

/-- A piece and the text after it make up the text: nothing is lost and nothing is added. -/
theorem chars_front (first : Char) (rest : List Char) :
    (front first rest).1.chars ++ (front first rest).2 = first :: rest := by
  unfold front
  split
  · rfl
  · split
    · simp [chars, List.takeWhile_append_dropWhile]
    · split
      · simp [chars, List.takeWhile_append_dropWhile]
      · split
        · next lexeme kind found =>
            obtain ⟨after, whole⟩ := List.isPrefixOf_iff_prefix.mp (operatorAt?_isPrefixOf found)
            rw [← whole]
            simp [chars]
        · simp [chars]

/-- Every piece covers at least one character, so the text after it is shorter. -/
theorem length_front_lt (first : Char) (rest : List Char) :
    (front first rest).2.length < (first :: rest).length := by
  have covered : 0 < (front first rest).1.chars.length := by
    unfold front
    split
    · simp [chars]
    · split
      · simp [chars]
      · split
        · simp [chars]
        · split
          · next lexeme kind found => simpa [chars] using operatorAt?_length_pos found
          · simp [chars]
  have whole := congrArg List.length (chars_front first rest)
  rw [List.length_append] at whole
  omega

end Piece

/-- The tokens of a text, closed by the end marker, and its stray characters, both in the order in
which they stand. -/
structure Scan where
  tokens : List Token
  errors : List LexicalError
  deriving DecidableEq, Inhabited

namespace Scan

/-- The site of a piece that starts at a byte offset on a line. -/
def siteAt (offset line : Nat) (chars : List Char) : Site :=
  ⟨line, .ofRange offset (offset + byteSize chars)⟩

def tokenAt (offset line : Nat) (kind : Kind) (lexeme : List Char) : Token :=
  ⟨kind, String.ofList lexeme, siteAt offset line lexeme, literalOf? kind lexeme⟩

/-- Put a piece that starts at a byte offset on a line in front of what was scanned after it. -/
def prepend (offset line : Nat) (piece : Piece) (later : Scan) : Scan :=
  match piece with
  | .blank _ => later
  | .token kind lexeme => { later with tokens := tokenAt offset line kind lexeme :: later.tokens }
  | .stray fault =>
    { later with errors := ⟨fault, siteAt offset line [fault.char]⟩ :: later.errors }

/-- Scan a text that starts at a byte offset on a line. -/
def scanFrom (offset line : Nat) : List Char → Scan
  | [] => ⟨[tokenAt offset line .eof []], []⟩
  | first :: rest =>
    let piece := (Piece.front first rest).1
    prepend offset line piece
      (scanFrom (offset + byteSize piece.chars) (lineBehind line piece.chars)
        (Piece.front first rest).2)
termination_by text => text.length
decreasing_by exact Piece.length_front_lt first rest

def hasErrors (scanned : Scan) : Bool := !scanned.errors.isEmpty

end Scan

/-- Scan a whole source text. -/
def scan (source : String) : Scan := Scan.scanFrom 0 1 source.toList

end Sipl
