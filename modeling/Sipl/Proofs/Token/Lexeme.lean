import Sipl.Token.Scan

namespace Sipl

open Scan

/-- The kinds of operators and separators. -/
def Kind.symbols : List Kind :=
  [.leftParen, .rightParen, .comma, .semicolon, .slash, .star, .plus, .minus, .assign, .eq, .notEq,
    .lt, .ltEq, .gt, .gtEq]

namespace Spells

/-- The operators and separators as they are written.  Inequality is also written `!=`. -/
def symbols : List (Kind × String) :=
  [(.leftParen, "("), (.rightParen, ")"), (.comma, ","), (.semicolon, ";"), (.slash, "/"),
    (.star, "*"), (.plus, "+"), (.minus, "-"), (.assign, ":="), (.eq, "="), (.notEq, "<>"),
    (.lt, "<"), (.ltEq, "<="), (.gt, ">"), (.gtEq, ">=")]

/-- The fourteen reserved words. -/
def words : List (Kind × String) :=
  [(.beginWord, "begin"), (.endWord, "end"), (.andWord, "and"), (.orWord, "or"), (.notWord, "not"),
    (.ifWord, "if"), (.thenWord, "then"), (.elseWord, "else"), (.trueWord, "true"),
    (.falseWord, "false"), (.whileWord, "while"), (.doWord, "do"), (.funcWord, "func"),
    (.programWord, "program")]

end Spells

/-- A kind of token is spelled by some characters. -/
inductive Spells : Kind → List Char → Prop where
  | symbol {kind : Kind} {text : String} (listed : (kind, text) ∈ Spells.symbols) :
      Spells kind text.toList
  | bang : Spells .notEq ['!', '=']
  | reserved {kind : Kind} {word : String} (listed : (kind, word) ∈ Spells.words) :
      Spells kind word.toList
  | number {digits : List Char} (nonempty : digits ≠ [])
      (decimal : ∀ digit ∈ digits, '0' ≤ digit ∧ digit ≤ '9') : Spells .number digits
  | name {letters : List Char} (nonempty : letters ≠ [])
      (word : ∀ letter ∈ letters,
        ('a' ≤ letter ∧ letter ≤ 'z') ∨ ('A' ≤ letter ∧ letter ≤ 'Z') ∨ letter = '_')
      (free : ∀ reserved ∈ Spells.words, reserved.2.toList ≠ letters) : Spells .ident letters

/-- Nothing that spells a token and starts the text is longer than the lexeme. -/
def Longest (lexeme text : List Char) : Prop :=
  ∀ kind other, Spells kind other → other <+: text → other.length ≤ lexeme.length

namespace Scan

theorem isDigit_iff {char : Char} :
    isDigit char = true ↔ 48 ≤ char.toNat ∧ char.toNat ≤ 57 := by
  simp only [isDigit, Bool.and_eq_true, decide_eq_true_eq]
  exact Iff.rfl

theorem isLetter_iff {char : Char} :
    isLetter char = true ↔ 97 ≤ char.toNat ∧ char.toNat ≤ 122 ∨
      65 ≤ char.toNat ∧ char.toNat ≤ 90 ∨ char.toNat = 95 := by
  simp only [isLetter, Bool.or_eq_true, Bool.and_eq_true, decide_eq_true_eq, beq_iff_eq,
    ← Char.toNat_inj, or_assoc]
  exact Iff.rfl

theorem isBlank_iff {char : Char} :
    isBlank char = true ↔ char.toNat = 32 ∨ char.toNat = 9 ∨ char.toNat = 13 ∨
      char.toNat = 10 := by
  simp only [isBlank, Bool.or_eq_true, beq_iff_eq, ← Char.toNat_inj, or_assoc]
  exact Iff.rfl

theorem isDigit_iff_range {char : Char} : isDigit char = true ↔ '0' ≤ char ∧ char ≤ '9' := by
  simp only [isDigit, Bool.and_eq_true, decide_eq_true_eq]

theorem isLetter_iff_range {char : Char} :
    isLetter char = true ↔
      'a' ≤ char ∧ char ≤ 'z' ∨ 'A' ≤ char ∧ char ≤ 'Z' ∨ char = '_' := by
  simp only [isLetter, Bool.or_eq_true, Bool.and_eq_true, decide_eq_true_eq, beq_iff_eq, or_assoc]

theorem isBlank_iff_mem {char : Char} : isBlank char = true ↔ char ∈ [' ', '\t', '\r', '\n'] := by
  simp only [isBlank, Bool.or_eq_true, beq_iff_eq, List.mem_cons, List.not_mem_nil, or_false,
    or_assoc]

theorem isBlank_eq_false_iff {char : Char} :
    isBlank char = false ↔ char ∉ [' ', '\t', '\r', '\n'] := by
  rw [← Bool.not_eq_true, isBlank_iff_mem]

theorem isLetter_of_isDigit {char : Char} (digit : isDigit char = true) :
    isLetter char = false := by
  rw [isDigit_iff] at digit
  rw [← Bool.not_eq_true, isLetter_iff]
  omega

theorem isBlank_of_isDigit {char : Char} (digit : isDigit char = true) :
    isBlank char = false := by
  rw [isDigit_iff] at digit
  rw [← Bool.not_eq_true, isBlank_iff]
  omega

theorem isBlank_of_isLetter {char : Char} (letter : isLetter char = true) :
    isBlank char = false := by
  rw [isLetter_iff] at letter
  rw [← Bool.not_eq_true, isBlank_iff]
  omega

end Scan

theorem Kind.letters_of_reserved {kind : Kind} (listed : kind ∈ reserved) :
    ∀ char ∈ kind.text.toList, isLetter char = true := by
  have letters : ∀ kind ∈ reserved, kind.text.toList.all isLetter = true := by decide
  exact List.all_eq_true.mp (letters kind listed)

theorem Kind.signs_of_symbol {kind : Kind} (listed : kind ∈ symbols) :
    ∀ char ∈ kind.text.toList,
      isLetter char = false ∧ isDigit char = false ∧ isBlank char = false := by
  have signs : ∀ kind ∈ symbols, (kind.text.toList.all fun char =>
      !isLetter char && (!isDigit char && !isBlank char)) = true := by decide
  intro char member
  simpa using List.all_eq_true.mp (signs kind listed) char member

namespace Spells

/-- The operators and separators are written as messages spell them. -/
theorem mem_symbols {kind : Kind} {text : String} :
    (kind, text) ∈ symbols ↔ kind ∈ Kind.symbols ∧ text = kind.text := by
  have table : symbols = Kind.symbols.map fun kind => (kind, kind.text) := by decide
  rw [table, List.mem_map]
  constructor
  · rintro ⟨_, listed, ⟨⟩⟩
    exact ⟨listed, rfl⟩
  · rintro ⟨listed, rfl⟩
    exact ⟨kind, listed, rfl⟩

theorem mem_words {kind : Kind} {word : String} :
    (kind, word) ∈ words ↔ kind ∈ Kind.reserved ∧ word = kind.text := by
  have table : words = Kind.reserved.map fun kind => (kind, kind.text) := by decide
  rw [table, List.mem_map]
  constructor
  · rintro ⟨_, listed, ⟨⟩⟩
    exact ⟨listed, rfl⟩
  · rintro ⟨listed, rfl⟩
    exact ⟨kind, listed, rfl⟩

theorem of_symbol {kind : Kind} (listed : kind ∈ Kind.symbols) : Spells kind kind.text.toList :=
  .symbol (mem_symbols.mpr ⟨listed, rfl⟩)

theorem of_reserved {kind : Kind} (listed : kind ∈ Kind.reserved) :
    Spells kind kind.text.toList :=
  .reserved (mem_words.mpr ⟨listed, rfl⟩)

theorem of_digits {digits : List Char} (nonempty : digits ≠ [])
    (decimal : ∀ digit ∈ digits, isDigit digit = true) : Spells .number digits :=
  .number nonempty fun digit member => isDigit_iff_range.mp (decimal digit member)

theorem ne_nil {kind : Kind} {lexeme : List Char} (spelled : Spells kind lexeme) :
    lexeme ≠ [] := by
  cases spelled with
  | symbol listed =>
      have filled : ∀ symbol ∈ symbols, symbol.2.toList ≠ [] := by decide
      exact filled _ listed
  | bang => simp
  | reserved listed =>
      have filled : ∀ word ∈ words, word.2.toList ≠ [] := by decide
      exact filled _ listed
  | number nonempty => exact nonempty
  | name nonempty => exact nonempty

theorem ne_eof {kind : Kind} {lexeme : List Char} (spelled : Spells kind lexeme) :
    kind ≠ .eof := by
  rintro rfl
  cases spelled with
  | symbol listed => exact absurd (mem_symbols.mp listed).1 (by decide)
  | reserved listed => exact absurd (mem_words.mp listed).1 (by decide)

/-- A word is spelled with letters only; its kind is found by looking it up. -/
theorem ofWord {letters : List Char} (nonempty : letters ≠ [])
    (word : ∀ letter ∈ letters, isLetter letter = true) :
    Spells (Kind.ofWord (String.ofList letters)) letters := by
  unfold Kind.ofWord
  cases found : Kind.reserved.find? fun kind => kind.text == String.ofList letters with
  | some kind =>
      have same : kind.text = String.ofList letters := by simpa using List.find?_some found
      have spelled := Spells.of_reserved (List.mem_of_find?_eq_some found)
      rwa [same, String.toList_ofList] at spelled
  | none =>
      refine .name nonempty (fun letter member => isLetter_iff_range.mp (word letter member)) ?_
      rintro ⟨kind, written⟩ listed same
      obtain ⟨reserved, rfl⟩ := mem_words.mp listed
      have differs := List.find?_eq_none.mp found kind reserved
      exact differs (by simp [← same])

theorem eq_ofWord {kind : Kind} {first : Char} {rest : List Char}
    (spelled : Spells kind (first :: rest)) (letter : isLetter first = true) :
    kind = Kind.ofWord (String.ofList (first :: rest)) ∧ ∀ next ∈ rest, isLetter next = true := by
  generalize whole : first :: rest = lexeme at spelled
  cases spelled with
  | symbol listed =>
      obtain ⟨symbol, rfl⟩ := mem_symbols.mp listed
      have sign := Kind.signs_of_symbol symbol first (by simp [← whole])
      rw [sign.1] at letter
      contradiction
  | bang => simp_all [isLetter]
  | reserved listed =>
      obtain ⟨reserved, rfl⟩ := mem_words.mp listed
      have own : ∀ kind ∈ Kind.reserved, kind = Kind.ofWord kind.text := by decide
      refine ⟨by rw [String.ofList_toList]; exact own _ reserved, fun next member => ?_⟩
      exact Kind.letters_of_reserved reserved next
        (by rw [← whole]; exact List.mem_cons_of_mem _ member)
  | number nonempty decimal =>
      have digit := isDigit_iff_range.mpr (decimal first (by simp [← whole]))
      rw [isLetter_of_isDigit digit] at letter
      contradiction
  | name nonempty word free =>
      refine ⟨?_, fun next member => isLetter_iff_range.mpr
        (word next (by rw [← whole]; exact List.mem_cons_of_mem _ member))⟩
      have missing :
          (Kind.reserved.find? fun kind => kind.text == String.ofList lexeme) = none := by
        refine List.find?_eq_none.mpr fun kind listed same =>
          free (kind, kind.text) (mem_words.mpr ⟨listed, rfl⟩) ?_
        rw [beq_iff_eq.mp same, String.toList_ofList]
      simp [Kind.ofWord, missing]

theorem eq_number {kind : Kind} {first : Char} {rest : List Char}
    (spelled : Spells kind (first :: rest)) (digit : isDigit first = true) :
    kind = .number ∧ ∀ next ∈ rest, isDigit next = true := by
  generalize whole : first :: rest = lexeme at spelled
  cases spelled with
  | symbol listed =>
      obtain ⟨symbol, rfl⟩ := mem_symbols.mp listed
      have sign := Kind.signs_of_symbol symbol first (by simp [← whole])
      rw [sign.2.1] at digit
      contradiction
  | bang => simp_all [isDigit]
  | reserved listed =>
      obtain ⟨reserved, rfl⟩ := mem_words.mp listed
      have letter := Kind.letters_of_reserved reserved first (by simp [← whole])
      rw [isLetter_of_isDigit digit] at letter
      contradiction
  | number nonempty decimal =>
      exact ⟨rfl, fun next member => isDigit_iff_range.mpr
        (decimal next (by rw [← whole]; exact List.mem_cons_of_mem _ member))⟩
  | name nonempty word free =>
      have letter := isLetter_iff_range.mpr (word first (by simp [← whole]))
      rw [isLetter_of_isDigit digit] at letter
      contradiction

theorem mem_operators {kind : Kind} {first : Char} {rest : List Char}
    (spelled : Spells kind (first :: rest)) (noDigit : ¬ isDigit first = true)
    (noLetter : ¬ isLetter first = true) : (first :: rest, kind) ∈ operators := by
  generalize whole : first :: rest = lexeme at spelled ⊢
  cases spelled with
  | symbol listed =>
      have entered : ∀ symbol ∈ symbols, (symbol.2.toList, symbol.1) ∈ operators := by decide
      exact entered _ listed
  | bang => decide
  | reserved listed =>
      obtain ⟨reserved, rfl⟩ := mem_words.mp listed
      exact absurd (Kind.letters_of_reserved reserved first (by simp [← whole])) noLetter
  | number nonempty decimal =>
      exact absurd (isDigit_iff_range.mpr (decimal first (by simp [← whole]))) noDigit
  | name nonempty word free =>
      exact absurd (isLetter_iff_range.mpr (word first (by simp [← whole]))) noLetter

theorem of_mem_operators {kind : Kind} {lexeme : List Char}
    (listed : (lexeme, kind) ∈ operators) : Spells kind lexeme := by
  have known : ∀ operator ∈ operators, operator = (['!', '='], .notEq) ∨
      operator.2 ∈ Kind.symbols ∧ operator.2.text.toList = operator.1 := by decide
  rcases known _ listed with bang | ⟨symbol, spelling⟩
  · obtain ⟨rfl, rfl⟩ := Prod.mk.inj bang
    exact .bang
  · simpa only [spelling] using Spells.of_symbol symbol

/-- Blanks belong to no token. -/
theorem not_blank {kind : Kind} {lexeme : List Char} (spelled : Spells kind lexeme)
    {char : Char} (member : char ∈ lexeme) : isBlank char = false := by
  cases spelled with
  | symbol listed =>
      obtain ⟨symbol, rfl⟩ := mem_symbols.mp listed
      exact (Kind.signs_of_symbol symbol _ member).2.2
  | bang =>
      have filled : (['!', '='].all fun char => !isBlank char) = true := by decide
      simpa using List.all_eq_true.mp filled _ member
  | reserved listed =>
      obtain ⟨reserved, rfl⟩ := mem_words.mp listed
      exact isBlank_of_isLetter (Kind.letters_of_reserved reserved _ member)
  | number nonempty decimal =>
      exact isBlank_of_isDigit (isDigit_iff_range.mpr (decimal _ member))
  | name nonempty word free =>
      exact isBlank_of_isLetter (isLetter_iff_range.mpr (word _ member))

/-- Only colons and exclamation marks start tokens without being one. -/
theorem singleton {kind : Kind} {first : Char} {rest : List Char}
    (spelled : Spells kind (first :: rest)) (noColon : first ≠ ':') (noBang : first ≠ '!') :
    ∃ other, Spells other [first] := by
  by_cases digit : isDigit first = true
  · exact ⟨.number, .of_digits (by simp) (by simpa)⟩
  · by_cases letter : isLetter first = true
    · exact ⟨_, .ofWord (by simp) (by simpa)⟩
    · have single : ∀ operator ∈ operators, operator.1.take 1 ≠ [':'] → operator.1.take 1 ≠ ['!'] →
          ∃ other ∈ operators, other.1 = operator.1.take 1 := by decide
      obtain ⟨⟨_, other⟩, listed, rfl⟩ := single _ (spelled.mem_operators digit letter)
        (by simpa using noColon) (by simpa using noBang)
      exact ⟨other, .of_mem_operators listed⟩

theorem kind_unique {left right : Kind} {lexeme : List Char} (first : Spells left lexeme)
    (second : Spells right lexeme) : left = right := by
  obtain ⟨head, tail, rfl⟩ := List.exists_cons_of_ne_nil first.ne_nil
  by_cases digit : isDigit head = true
  · rw [(first.eq_number digit).1, (second.eq_number digit).1]
  · by_cases letter : isLetter head = true
    · rw [(first.eq_ofWord letter).1, (second.eq_ofWord letter).1]
    · have keyed : ∀ one ∈ operators, ∀ other ∈ operators, one.1 = other.1 → one.2 = other.2 := by
        decide
      exact keyed _ (first.mem_operators digit letter) _ (second.mem_operators digit letter) rfl

end Spells

/-- Whether a token of the kind would go on with the character. -/
def Kind.continues (kind : Kind) (next : Char) : Bool :=
  match kind with
  | .number => '0' ≤ next && next ≤ '9'
  | .lt => next == '=' || next == '>'
  | .gt => next == '='
  | other => (other == .ident || other.isReserved) &&
      (('a' ≤ next && next ≤ 'z') || ('A' ≤ next && next ≤ 'Z') || next == '_')

theorem Kind.continues_of_isReserved {kind : Kind} {next : Char} (listed : kind.isReserved = true) :
    kind.continues next = isLetter next := by
  cases kind <;> first | rfl | simp [isReserved, reserved] at listed

theorem Kind.ofWord_ident_or_reserved (word : String) :
    ofWord word = .ident ∨ (ofWord word).isReserved = true := by
  unfold ofWord
  cases found : reserved.find? fun kind => kind.text == word with
  | none => exact .inl rfl
  | some listed => exact .inr (List.contains_iff_mem.mpr (List.mem_of_find?_eq_some found))

namespace Longest

variable {kind : Kind} {lexeme after : List Char}

/-- A longer spelling starts with the character that continues the shorter one. -/
theorem continues_of_spells {other : Kind} {next : Char} {more : List Char}
    (spelled : Spells kind lexeme) (longer : Spells other (lexeme ++ next :: more)) :
    kind.continues next = true := by
  obtain ⟨head, tail, rfl⟩ := List.exists_cons_of_ne_nil spelled.ne_nil
  rw [List.cons_append] at longer
  by_cases digit : isDigit head = true
  · rw [(spelled.eq_number digit).1]
    exact (longer.eq_number digit).2 next (by simp)
  · by_cases letter : isLetter head = true
    · have following := (longer.eq_ofWord letter).2 next (by simp)
      rw [(spelled.eq_ofWord letter).1]
      rcases Kind.ofWord_ident_or_reserved (String.ofList (head :: tail)) with named | listed
      · rw [named]
        exact following
      · rw [Kind.continues_of_isReserved listed, following]
    · have extended : ∀ shorter ∈ operators, ∀ longer ∈ operators,
          shorter.1.isPrefixOf longer.1 = true →
            ((longer.1.drop shorter.1.length).take 1).all shorter.2.continues = true := by
        decide
      have following := extended _ (spelled.mem_operators digit letter) _
        (longer.mem_operators digit letter) (List.isPrefixOf_iff_prefix.mpr ⟨next :: more, rfl⟩)
      exact List.all_eq_true.mp following next (by simp)

/-- A character that continues a token makes a longer one. -/
theorem spells_of_continues {next : Char} (spelled : Spells kind lexeme)
    (continued : kind.continues next = true) : ∃ other, Spells other (lexeme ++ [next]) := by
  have word : ∀ letters : List Char, (∀ letter ∈ letters, isLetter letter = true) →
      isLetter next = true → ∃ other, Spells other (letters ++ [next]) := by
    intro letters all letter
    refine ⟨_, .ofWord (by simp) fun char member => ?_⟩
    rcases List.mem_append.mp member with member | member
    · exact all char member
    · rwa [List.mem_singleton.mp member]
  cases spelled with
  | symbol listed =>
      obtain ⟨symbol, rfl⟩ := Spells.mem_symbols.mp listed
      have angle : kind = .lt ∧ (next = '=' ∨ next = '>') ∨ kind = .gt ∧ next = '=' := by
        cases kind <;> simp_all [Kind.continues, Kind.symbols, Kind.isReserved, Kind.reserved]
      rcases angle with ⟨rfl, rfl | rfl⟩ | ⟨rfl, rfl⟩
      · exact ⟨.ltEq, .of_symbol (by decide)⟩
      · exact ⟨.notEq, .of_symbol (by decide)⟩
      · exact ⟨.gtEq, .of_symbol (by decide)⟩
  | bang => simp [Kind.continues, Kind.isReserved, Kind.reserved] at continued
  | reserved listed =>
      obtain ⟨reserved, rfl⟩ := Spells.mem_words.mp listed
      refine word _ (Kind.letters_of_reserved reserved) ?_
      rwa [Kind.continues_of_isReserved (List.contains_iff_mem.mpr reserved)] at continued
  | number nonempty decimal =>
      refine ⟨.number, .of_digits (by simp) fun digit member => ?_⟩
      rcases List.mem_append.mp member with member | member
      · exact isDigit_iff_range.mpr (decimal digit member)
      · rw [List.mem_singleton.mp member]
        exact continued
  | name nonempty letters free =>
      exact word _ (fun letter member => isLetter_iff_range.mpr (letters letter member)) continued

/-- A lexeme is the longest exactly if the character behind it does not continue it. -/
theorem iff_not_continues (spelled : Spells kind lexeme) :
    Longest lexeme (lexeme ++ after) ↔ ∀ next ∈ after.head?, kind.continues next = false := by
  constructor
  · intro longest next following
    obtain ⟨rest, rfl⟩ := List.head?_eq_some_iff.mp following
    rw [← Bool.not_eq_true]
    intro continued
    obtain ⟨other, longer⟩ := spells_of_continues spelled continued
    have bounded := longest other _ longer ((List.prefix_append_right_inj lexeme).mpr (by simp))
    rw [List.length_append, List.length_singleton] at bounded
    omega
  · intro stopped other longer spelledLonger begins
    refine Nat.le_of_not_lt fun shorter => ?_
    obtain ⟨more, rfl⟩ := List.prefix_of_prefix_length_le (List.prefix_append lexeme after) begins
      (by omega)
    obtain ⟨next, more, rfl⟩ : ∃ next rest, more = next :: rest :=
      List.exists_cons_of_ne_nil (by rintro rfl; simp at shorter)
    have following := (List.prefix_append_right_inj lexeme).mp begins
    obtain ⟨rest, rfl⟩ := following
    have continued := continues_of_spells spelled spelledLonger
    rw [stopped next (by simp)] at continued
    contradiction

/-- A text has one longest lexeme. -/
theorem unique {other : Kind} {text longest longer : List Char} (first : Longest longest text)
    (firstSpelled : Spells kind longest) (firstBegins : longest <+: text)
    (second : Longest longer text) (secondSpelled : Spells other longer)
    (secondBegins : longer <+: text) : longest = longer ∧ kind = other := by
  have same : longest = longer :=
    (List.prefix_of_prefix_length_le firstBegins secondBegins
      (second _ _ firstSpelled firstBegins)).eq_of_length
      (Nat.le_antisymm (second _ _ firstSpelled firstBegins) (first _ _ secondSpelled secondBegins))
  subst same
  exact ⟨rfl, firstSpelled.kind_unique secondSpelled⟩

end Longest

namespace Piece

/-- What a piece says about the text that it starts.  A token is the longest one there is, and a
stray character is neither blank nor the start of a token. -/
def Fronts (text : List Char) : Piece → Prop
  | blank char => isBlank char = true
  | token kind lexeme => Spells kind lexeme ∧ Longest lexeme text
  | stray fault =>
      isBlank fault.char = false ∧ fault = .ofChar fault.char ∧
        ∀ kind lexeme, Spells kind lexeme → ¬ lexeme <+: text

/-- No operator continues another one that stands in front of it in the list. -/
theorem operators_longer_first :
    operators.Pairwise fun earlier later => earlier.1.isPrefixOf later.1 = false := by
  decide

theorem longest_operatorAt? {first : Char} {rest lexeme : List Char} {kind : Kind}
    (noDigit : ¬ isDigit first = true) (noLetter : ¬ isLetter first = true)
    (found : operatorAt? (first :: rest) = some (lexeme, kind)) :
    Longest lexeme (first :: rest) := by
  intro otherKind other spelled begins
  obtain ⟨head, tail, rfl⟩ := List.exists_cons_of_ne_nil spelled.ne_nil
  obtain rfl : head = first := (List.cons_prefix_cons.mp begins).1
  have listed := spelled.mem_operators noDigit noLetter
  have starts := List.isPrefixOf_iff_prefix.mp (operatorAt?_isPrefixOf found)
  obtain ⟨_, earlier, later, split, passed⟩ := List.find?_eq_some_iff_append.mp found
  refine Nat.le_of_not_lt fun shorter => ?_
  have continued : lexeme <+: head :: tail :=
    List.prefix_of_prefix_length_le starts begins (by omega)
  rw [split, List.mem_append, List.mem_cons] at listed
  rcases listed with before | same | behind
  · have skipped := passed _ before
    rw [List.isPrefixOf_iff_prefix.mpr begins] at skipped
    contradiction
  · rw [← (Prod.mk.inj same).1] at shorter
    omega
  · have order := operators_longer_first
    rw [split] at order
    have apart := (List.pairwise_cons.mp (List.pairwise_append.mp order).2.1).1 _ behind
    rw [List.isPrefixOf_iff_prefix.mpr continued] at apart
    contradiction

/-- A lexeme whose kind admits one class of characters only is as long as the run of that class. -/
theorem longest_run {inClass : Char → Bool} {first : Char} {rest : List Char}
    (closed : ∀ kind tail, Spells kind (first :: tail) → ∀ next ∈ tail, inClass next = true) :
    Longest (first :: rest.takeWhile inClass) (first :: rest) := by
  intro kind other spelled begins
  obtain ⟨head, tail, rfl⟩ := List.exists_cons_of_ne_nil spelled.ne_nil
  obtain ⟨rfl, after, rfl⟩ := List.cons_prefix_cons.mp begins
  rw [List.takeWhile_append_of_pos (closed kind tail spelled)]
  simp

theorem fronts_front (first : Char) (rest : List Char) :
    (front first rest).1.Fronts (first :: rest) := by
  unfold front
  split
  · assumption
  · next noBlank =>
      split
      · next digit =>
          refine ⟨.of_digits (by simp) ?_, longest_run fun kind tail spelled =>
            (spelled.eq_number digit).2⟩
          intro char member
          rcases List.mem_cons.mp member with rfl | member
          · exact digit
          · exact List.all_eq_true.mp List.all_takeWhile _ member
      · next noDigit =>
          split
          · next letter =>
              refine ⟨Spells.ofWord (by simp) ?_, longest_run fun kind tail spelled =>
                (spelled.eq_ofWord letter).2⟩
              intro char member
              rcases List.mem_cons.mp member with rfl | member
              · exact letter
              · exact List.all_eq_true.mp List.all_takeWhile _ member
          · next noLetter =>
              split
              · next lexeme kind found =>
                  exact ⟨.of_mem_operators (List.mem_of_find?_eq_some found),
                    longest_operatorAt? noDigit noLetter found⟩
              · next nothing =>
                  refine ⟨by simpa using noBlank, by simp, ?_⟩
                  intro kind lexeme spelled begins
                  obtain ⟨head, tail, rfl⟩ := List.exists_cons_of_ne_nil spelled.ne_nil
                  obtain rfl : head = first := (List.cons_prefix_cons.mp begins).1
                  have refused := List.find?_eq_none.mp nothing _
                    (spelled.mem_operators noDigit noLetter)
                  exact refused (List.isPrefixOf_iff_prefix.mpr begins)

/-- The piece at the front of a text is the token that is spelled there, if it is the longest. -/
theorem front_eq_token {kind : Kind} {first : Char} {tail after : List Char}
    (spelled : Spells kind (first :: tail))
    (longest : Longest (first :: tail) (first :: tail ++ after)) :
    front first (tail ++ after) = (token kind (first :: tail), after) := by
  have fronts := fronts_front first (tail ++ after)
  have whole := chars_front first (tail ++ after)
  rcases piece : front first (tail ++ after) with ⟨found, rest⟩
  rw [piece] at fronts whole
  cases found with
  | blank char =>
      obtain rfl : char = first := (List.cons.inj whole).1
      have noBlank := spelled.not_blank List.mem_cons_self
      rw [show isBlank char = true from fronts] at noBlank
      contradiction
  | token other lexeme =>
      have begins : lexeme <+: first :: (tail ++ after) := ⟨rest, whole⟩
      obtain ⟨rfl, rfl⟩ := longest.unique spelled (List.prefix_append _ _) fronts.2 fronts.1 begins
      have same : rest = after := by simpa [chars] using whole
      rw [same]
  | stray fault =>
      exact absurd (List.prefix_append _ _) (fronts.2.2 _ _ spelled)

end Piece

end Sipl
