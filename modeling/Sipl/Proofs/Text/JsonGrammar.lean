import Sipl.Text.Json

namespace Sipl.JsonGrammar

/-! A phrase of JSON is read from the front of a text and leaves the rest of it.  Blanks are skipped
in front of every value and every sign.  A value holds integers only, so a document with fractions
or exponents is not read. -/

/-- The value of a hexadecimal digit of either case. -/
def hexValue? (digit : Char) : Option Nat :=
  if digit.isDigit then some (digit.toNat - 48)
  else if 'a' ≤ digit ∧ digit ≤ 'f' then some (digit.toNat - 87)
  else if 'A' ≤ digit ∧ digit ≤ 'F' then some (digit.toNat - 55)
  else none

/-- The number that four hexadecimal digits stand for. -/
def unit? (first second third fourth : Char) : Option Nat :=
  match hexValue? first, hexValue? second, hexValue? third, hexValue? fourth with
  | some a, some b, some c, some d => some (((a * 16 + b) * 16 + c) * 16 + d)
  | _, _, _, _ => none

/-- What a backslash and one more character stand for. -/
def escape? : Char → Option Char
  | '"' => some '"'
  | '\\' => some '\\'
  | '/' => some '/'
  | 'b' => some '\x08'
  | 'f' => some '\x0c'
  | 'n' => some '\n'
  | 'r' => some '\r'
  | 't' => some '\t'
  | _ => none

/-- The characters of a literal and its closing quote are read, behind the opening one. -/
inductive Chars : List Char → List Char → List Char → Prop where
  | close {rest : List Char} : Chars ('"' :: rest) [] rest
  | plain {char : Char} {text chars rest : List Char} (visible : 32 ≤ char.toNat)
      (noQuote : char ≠ '"') (noEscape : char ≠ '\\') (others : Chars text chars rest) :
      Chars (char :: text) (char :: chars) rest
  | escaped {letter char : Char} {text chars rest : List Char} (known : escape? letter = some char)
      (others : Chars text chars rest) : Chars ('\\' :: letter :: text) (char :: chars) rest
  | unit {a b c d char : Char} {text chars rest : List Char}
      (known : unit? a b c d = some char.toNat) (others : Chars text chars rest) :
      Chars ('\\' :: 'u' :: a :: b :: c :: d :: text) (char :: chars) rest
  /-- Characters beyond the first plane are two units. -/
  | pair {a b c d e f g h char : Char} {high low : Nat} {text chars rest : List Char}
      (first : unit? a b c d = some (0xD800 + high)) (boundHigh : high < 0x400)
      (second : unit? e f g h = some (0xDC00 + low)) (boundLow : low < 0x400)
      (known : char.toNat = 0x10000 + high * 0x400 + low) (others : Chars text chars rest) :
      Chars ('\\' :: 'u' :: a :: b :: c :: d :: '\\' :: 'u' :: e :: f :: g :: h :: text)
        (char :: chars) rest

/-- A natural number is read.  It has no zero in front of other digits, and no digit follows it. -/
inductive Natural : List Char → Nat → List Char → Prop where
  | digits {first : Char} {others rest : List Char} (decimal : first.isDigit = true)
      (more : ∀ digit ∈ others, digit.isDigit = true) (short : first = '0' → others = [])
      (ended : ∀ next ∈ rest.head?, next.isDigit = false) :
      Natural (first :: (others ++ rest)) (Nat.ofDigitChars 10 (first :: others) 0) rest

inductive Number : List Char → Int → List Char → Prop where
  | natural {text rest : List Char} {value : Nat} (digits : Natural text value rest) :
      Number text value rest
  | negative {text rest : List Char} {value : Nat} (digits : Natural text value rest) :
      Number ('-' :: text) (-value) rest

def isBlank (char : Char) : Bool :=
  char = ' ' || char = '\t' || char = '\n' || char = '\r'

/-- The text without the blanks in front. -/
def skip (text : List Char) : List Char := text.dropWhile isBlank

/-- What is read of a document. -/
inductive Phrase where
  | value (value : JsonValue)
  /-- The items of an array and its closing bracket. -/
  | items (items : List JsonValue)
  /-- The same behind an item. -/
  | moreItems (items : List JsonValue)
  | member (name : String) (value : JsonValue)
  | members (members : List (String × JsonValue))
  | moreMembers (members : List (String × JsonValue))

inductive Reads : List Char → Phrase → List Char → Prop where
  | null {text rest : List Char} (word : skip text = 'n' :: 'u' :: 'l' :: 'l' :: rest) :
      Reads text (.value .null) rest
  | true {text rest : List Char} (word : skip text = 't' :: 'r' :: 'u' :: 'e' :: rest) :
      Reads text (.value (.bool true)) rest
  | false {text rest : List Char} (word : skip text = 'f' :: 'a' :: 'l' :: 's' :: 'e' :: rest) :
      Reads text (.value (.bool false)) rest
  | number {text rest : List Char} {value : Int} (number : Number (skip text) value rest) :
      Reads text (.value (.number value)) rest
  | string {text inner chars rest : List Char} (quote : skip text = '"' :: inner)
      (read : Chars inner chars rest) : Reads text (.value (.string (.ofList chars))) rest
  | array {text inner rest : List Char} {items : List JsonValue}
      (opened : skip text = '[' :: inner) (listed : Reads inner (.items items) rest) :
      Reads text (.value (.array items)) rest
  | object {text inner rest : List Char} {members : List (String × JsonValue)}
      (opened : skip text = '\x7b' :: inner) (listed : Reads inner (.members members) rest) :
      Reads text (.value (.object members)) rest
  | noItems {text rest : List Char} (closed : skip text = ']' :: rest) :
      Reads text (.items []) rest
  | items {text middle rest : List Char} {item : JsonValue} {others : List JsonValue}
      (first : Reads text (.value item) middle) (more : Reads middle (.moreItems others) rest) :
      Reads text (.items (item :: others)) rest
  | endItems {text rest : List Char} (closed : skip text = ']' :: rest) :
      Reads text (.moreItems []) rest
  | moreItems {text inner middle rest : List Char} {item : JsonValue} {others : List JsonValue}
      (comma : skip text = ',' :: inner) (next : Reads inner (.value item) middle)
      (more : Reads middle (.moreItems others) rest) :
      Reads text (.moreItems (item :: others)) rest
  | member {text inner chars middle behind rest : List Char} {value : JsonValue}
      (quote : skip text = '"' :: inner) (read : Chars inner chars middle)
      (colon : skip middle = ':' :: behind) (valued : Reads behind (.value value) rest) :
      Reads text (.member (.ofList chars) value) rest
  | noMembers {text rest : List Char} (closed : skip text = '\x7d' :: rest) :
      Reads text (.members []) rest
  | members {text middle rest : List Char} {name : String} {value : JsonValue}
      {others : List (String × JsonValue)} (first : Reads text (.member name value) middle)
      (more : Reads middle (.moreMembers others) rest) :
      Reads text (.members ((name, value) :: others)) rest
  | endMembers {text rest : List Char} (closed : skip text = '\x7d' :: rest) :
      Reads text (.moreMembers []) rest
  | moreMembers {text inner middle rest : List Char} {name : String} {value : JsonValue}
      {others : List (String × JsonValue)} (comma : skip text = ',' :: inner)
      (next : Reads inner (.member name value) middle)
      (more : Reads middle (.moreMembers others) rest) :
      Reads text (.moreMembers ((name, value) :: others)) rest

/-- The text is one value, with nothing but blanks around it. -/
def Document (text : String) (value : JsonValue) : Prop :=
  ∃ rest, Reads text.toList (.value value) rest ∧ skip rest = []

/-- No character is half of a pair. -/
theorem toNat_ne_half (char : Char) {high : Nat} (bound : high < 0x400) :
    char.toNat ≠ 0xD800 + high := by
  intro half
  have valid := char.valid
  simp only [UInt32.isValidChar, Nat.isValidChar] at valid
  change char.val.toNat = _ at half
  omega

theorem Chars.unique {text chars others rest behind : List Char} (read : Chars text chars rest)
    (again : Chars text others behind) : chars = others ∧ rest = behind := by
  induction read generalizing others behind with
  | close =>
      cases again with
      | close => exact ⟨rfl, rfl⟩
      | plain _ noQuote => exact absurd rfl noQuote
  | plain visible noQuote noEscape _ ih =>
      cases again with
      | close => exact absurd rfl noQuote
      | plain _ _ _ more => exact ⟨congrArg _ (ih more).1, (ih more).2⟩
      | escaped | unit | pair => exact absurd rfl noEscape
  | escaped known _ ih =>
      cases again with
      | plain _ _ noEscape => exact absurd rfl noEscape
      | escaped other more =>
          obtain rfl := Option.some.inj (known.symm.trans other)
          exact ⟨congrArg _ (ih more).1, (ih more).2⟩
      | unit | pair => cases known
  | unit known _ ih =>
      cases again with
      | plain _ _ noEscape => exact absurd rfl noEscape
      | escaped other => cases other
      | unit other more =>
          obtain rfl := Char.toNat_inj.mp (Option.some.inj (known.symm.trans other))
          exact ⟨congrArg _ (ih more).1, (ih more).2⟩
      | pair first bound =>
          exact absurd (Option.some.inj (known.symm.trans first)) (toNat_ne_half _ bound)
  | pair first boundHigh second boundLow known _ ih =>
      cases again with
      | plain _ _ noEscape => exact absurd rfl noEscape
      | escaped other => cases other
      | unit other more =>
          exact absurd (Option.some.inj (other.symm.trans first)) (toNat_ne_half _ boundHigh)
      | pair firstAgain _ secondAgain _ other more =>
          have sameHigh := Option.some.inj (first.symm.trans firstAgain)
          have sameLow := Option.some.inj (second.symm.trans secondAgain)
          obtain rfl := Char.toNat_inj.mp (known.trans (by rw [other]; omega))
          exact ⟨congrArg _ (ih more).1, (ih more).2⟩

/-- Digits in front of something else are all the digits at the front. -/
theorem takeWhile_digits {digits rest : List Char}
    (decimal : ∀ digit ∈ digits, digit.isDigit = true)
    (ended : ∀ next ∈ rest.head?, next.isDigit = false) :
    (digits ++ rest).takeWhile Char.isDigit = digits := by
  rw [List.takeWhile_append_of_pos decimal]
  cases rest with
  | nil => exact List.append_nil digits
  | cons next others => simp [ended next rfl]

theorem Natural.unique {text rest behind : List Char} {value other : Nat}
    (read : Natural text value rest) (again : Natural text other behind) :
    value = other ∧ rest = behind := by
  cases read with
  | @digits first digits _ decimal more _ ended =>
      generalize whole : first :: (digits ++ rest) = text at again
      cases again with
      | @digits _ others _ _ moreAgain _ endedAgain =>
          obtain ⟨rfl, same⟩ := List.cons.inj whole
          have sameDigits := congrArg (List.takeWhile Char.isDigit) same
          rw [takeWhile_digits more ended, takeWhile_digits moreAgain endedAgain] at sameDigits
          obtain rfl := sameDigits
          exact ⟨rfl, List.append_cancel_left same⟩

theorem Number.unique {text rest behind : List Char} {value other : Int}
    (read : Number text value rest) (again : Number text other behind) :
    value = other ∧ rest = behind := by
  cases read with
  | natural digits =>
      cases again with
      | natural more => exact ⟨congrArg _ (digits.unique more).1, (digits.unique more).2⟩
      | negative => cases digits with | digits decimal => cases decimal
  | negative digits =>
      cases again with
      | natural more => cases more with | digits decimal => cases decimal
      | negative more =>
          obtain ⟨rfl, rfl⟩ := digits.unique more
          exact ⟨rfl, rfl⟩

/-- The first character of a number tells it from all other values. -/
theorem Number.first {text rest : List Char} {value : Int} (number : Number text value rest) :
    ∃ lead others, text = lead :: others ∧ (lead = '-' ∨ lead.isDigit = true) := by
  cases number with
  | natural digits =>
      cases digits with
      | digits decimal => exact ⟨_, _, rfl, .inr decimal⟩
  | negative => exact ⟨_, _, rfl, .inl rfl⟩

theorem not_number {text rest : List Char} {lead : Char} {others : List Char} {value : Int}
    (starts : text = lead :: others) (other : lead ≠ '-' ∧ lead.isDigit = false) :
    ¬ Number text value rest := by
  intro number
  obtain ⟨first, _, same, numeral⟩ := number.first
  obtain ⟨rfl, _⟩ := List.cons.inj (starts.symm.trans same)
  rcases numeral with minus | digit
  · exact other.1 minus
  · rw [other.2] at digit
    cases digit

theorem value_of_n {text inner rest : List Char} {value : JsonValue}
    (lead : skip text = 'n' :: inner) (reads : Reads text (.value value) rest) :
    value = .null ∧ inner = 'u' :: 'l' :: 'l' :: rest := by
  cases reads with
  | null word => cases lead.symm.trans word; exact ⟨rfl, rfl⟩
  | number number => exact absurd number (not_number lead (by decide))
  | true other | false other | string other | array other | object other =>
      cases lead.symm.trans other

theorem value_of_t {text inner rest : List Char} {value : JsonValue}
    (lead : skip text = 't' :: inner) (reads : Reads text (.value value) rest) :
    value = .bool true ∧ inner = 'r' :: 'u' :: 'e' :: rest := by
  cases reads with
  | true word => cases lead.symm.trans word; exact ⟨rfl, rfl⟩
  | number number => exact absurd number (not_number lead (by decide))
  | null other | false other | string other | array other | object other =>
      cases lead.symm.trans other

theorem value_of_f {text inner rest : List Char} {value : JsonValue}
    (lead : skip text = 'f' :: inner) (reads : Reads text (.value value) rest) :
    value = .bool false ∧ inner = 'a' :: 'l' :: 's' :: 'e' :: rest := by
  cases reads with
  | false word => cases lead.symm.trans word; exact ⟨rfl, rfl⟩
  | number number => exact absurd number (not_number lead (by decide))
  | null other | true other | string other | array other | object other =>
      cases lead.symm.trans other

theorem value_of_number {text rest behind : List Char} {number : Int} {value : JsonValue}
    (read : Number (skip text) number behind) (reads : Reads text (.value value) rest) :
    value = .number number ∧ rest = behind := by
  cases reads with
  | number again => exact ⟨congrArg _ (again.unique read).1, (again.unique read).2⟩
  | null other | true other | false other | string other | array other | object other =>
      exact absurd read (not_number other (by decide))

theorem value_of_quote {text inner rest : List Char} {value : JsonValue}
    (lead : skip text = '"' :: inner) (reads : Reads text (.value value) rest) :
    ∃ chars, value = .string (.ofList chars) ∧ Chars inner chars rest := by
  cases reads with
  | string quote read => cases lead.symm.trans quote; exact ⟨_, rfl, read⟩
  | number number => exact absurd number (not_number lead (by decide))
  | null other | true other | false other | array other | object other =>
      cases lead.symm.trans other

theorem value_of_bracket {text inner rest : List Char} {value : JsonValue}
    (lead : skip text = '[' :: inner) (reads : Reads text (.value value) rest) :
    ∃ items, value = .array items ∧ Reads inner (.items items) rest := by
  cases reads with
  | array opened listed => cases lead.symm.trans opened; exact ⟨_, rfl, listed⟩
  | number number => exact absurd number (not_number lead (by decide))
  | null other | true other | false other | string other | object other =>
      cases lead.symm.trans other

theorem value_of_brace {text inner rest : List Char} {value : JsonValue}
    (lead : skip text = '\x7b' :: inner) (reads : Reads text (.value value) rest) :
    ∃ members, value = .object members ∧ Reads inner (.members members) rest := by
  cases reads with
  | object opened listed => cases lead.symm.trans opened; exact ⟨_, rfl, listed⟩
  | number number => exact absurd number (not_number lead (by decide))
  | null other | true other | false other | string other | array other =>
      cases lead.symm.trans other

/-- A closing bracket is no value. -/
theorem not_value_of_closed {text inner rest : List Char} {value : JsonValue}
    (closed : skip text = ']' :: inner) : ¬ Reads text (.value value) rest := by
  intro reads
  cases reads with
  | number number => exact not_number closed (by decide) number
  | null other | true other | false other | string other | array other | object other =>
      cases closed.symm.trans other

theorem not_member_of_closed {text inner rest : List Char} {name : String} {value : JsonValue}
    (closed : skip text = '\x7d' :: inner) : ¬ Reads text (.member name value) rest := by
  intro reads
  cases reads with
  | member quote => cases closed.symm.trans quote

/-- What a phrase is read as is all that it can be read as. -/
def ReadsOnly (text : List Char) (phrase : Phrase) (rest : List Char) : Prop :=
  match phrase with
  | .value value =>
      ∀ other behind, Reads text (.value other) behind → value = other ∧ rest = behind
  | .items items =>
      ∀ others behind, Reads text (.items others) behind → items = others ∧ rest = behind
  | .moreItems items =>
      ∀ others behind, Reads text (.moreItems others) behind → items = others ∧ rest = behind
  | .member name value =>
      ∀ other found behind, Reads text (.member other found) behind →
        (name = other ∧ value = found) ∧ rest = behind
  | .members members =>
      ∀ others behind, Reads text (.members others) behind → members = others ∧ rest = behind
  | .moreMembers members =>
      ∀ others behind,
        Reads text (.moreMembers others) behind → members = others ∧ rest = behind

theorem readsOnly {text rest : List Char} {phrase : Phrase} (reads : Reads text phrase rest) :
    ReadsOnly text phrase rest := by
  -- The first character that counts tells the only rule that can have read the text.
  induction reads with
  | null word =>
      intro other behind again
      obtain ⟨rfl, same⟩ := value_of_n word again
      cases same
      exact ⟨rfl, rfl⟩
  | true word =>
      intro other behind again
      obtain ⟨rfl, same⟩ := value_of_t word again
      cases same
      exact ⟨rfl, rfl⟩
  | false word =>
      intro other behind again
      obtain ⟨rfl, same⟩ := value_of_f word again
      cases same
      exact ⟨rfl, rfl⟩
  | number number =>
      intro other behind again
      obtain ⟨rfl, rfl⟩ := value_of_number number again
      exact ⟨rfl, rfl⟩
  | string quote read =>
      intro other behind again
      obtain ⟨chars, rfl, readAgain⟩ := value_of_quote quote again
      obtain ⟨rfl, rfl⟩ := read.unique readAgain
      exact ⟨rfl, rfl⟩
  | array opened _ ih =>
      intro other behind again
      obtain ⟨items, rfl, listed⟩ := value_of_bracket opened again
      obtain ⟨rfl, rfl⟩ := ih _ _ listed
      exact ⟨rfl, rfl⟩
  | object opened _ ih =>
      intro other behind again
      obtain ⟨members, rfl, listed⟩ := value_of_brace opened again
      obtain ⟨rfl, rfl⟩ := ih _ _ listed
      exact ⟨rfl, rfl⟩
  | noItems closed =>
      intro others behind again
      cases again with
      | noItems again => cases closed.symm.trans again; exact ⟨rfl, rfl⟩
      | items first => exact absurd first (not_value_of_closed closed)
  | items first _ ihFirst ihMore =>
      intro others behind again
      cases again with
      | noItems closed => exact absurd first (not_value_of_closed closed)
      | items firstAgain more =>
          obtain ⟨rfl, rfl⟩ := ihFirst _ _ firstAgain
          obtain ⟨rfl, rfl⟩ := ihMore _ _ more
          exact ⟨rfl, rfl⟩
  | endItems closed =>
      intro others behind again
      cases again with
      | endItems again => cases closed.symm.trans again; exact ⟨rfl, rfl⟩
      | moreItems comma => cases closed.symm.trans comma
  | moreItems comma _ _ ihNext ihMore =>
      intro others behind again
      cases again with
      | endItems closed => cases comma.symm.trans closed
      | moreItems again next more =>
          cases comma.symm.trans again
          obtain ⟨rfl, rfl⟩ := ihNext _ _ next
          obtain ⟨rfl, rfl⟩ := ihMore _ _ more
          exact ⟨rfl, rfl⟩
  | member quote read colon _ ih =>
      intro other found behind again
      cases again with
      | member again readAgain colonAgain valued =>
          cases quote.symm.trans again
          obtain ⟨rfl, rfl⟩ := read.unique readAgain
          cases colon.symm.trans colonAgain
          obtain ⟨rfl, rfl⟩ := ih _ _ valued
          exact ⟨⟨rfl, rfl⟩, rfl⟩
  | noMembers closed =>
      intro others behind again
      cases again with
      | noMembers again => cases closed.symm.trans again; exact ⟨rfl, rfl⟩
      | members first => exact absurd first (not_member_of_closed closed)
  | members first _ ihFirst ihMore =>
      intro others behind again
      cases again with
      | noMembers closed => exact absurd first (not_member_of_closed closed)
      | members firstAgain more =>
          obtain ⟨⟨rfl, rfl⟩, rfl⟩ := ihFirst _ _ _ firstAgain
          obtain ⟨rfl, rfl⟩ := ihMore _ _ more
          exact ⟨rfl, rfl⟩
  | endMembers closed =>
      intro others behind again
      cases again with
      | endMembers again => cases closed.symm.trans again; exact ⟨rfl, rfl⟩
      | moreMembers comma => cases closed.symm.trans comma
  | moreMembers comma _ _ ihNext ihMore =>
      intro others behind again
      cases again with
      | endMembers closed => cases comma.symm.trans closed
      | moreMembers again next more =>
          cases comma.symm.trans again
          obtain ⟨⟨rfl, rfl⟩, rfl⟩ := ihNext _ _ _ next
          obtain ⟨rfl, rfl⟩ := ihMore _ _ more
          exact ⟨rfl, rfl⟩

/-- A text is no two documents. -/
theorem Document.unique {text : String} {value other : JsonValue} (document : Document text value)
    (again : Document text other) : value = other := by
  obtain ⟨_, reads, _⟩ := document
  obtain ⟨_, readsAgain, _⟩ := again
  exact (readsOnly reads _ _ readsAgain).1

end Sipl.JsonGrammar
