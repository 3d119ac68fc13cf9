import Sipl.Proofs.Text.JsonGrammar

namespace Sipl

open JsonGrammar

namespace JsonString

theorem hexValue?_hexDigit (digit : Fin 16) : hexValue? (hexDigit digit) = some digit.val := by
  decide +revert

theorem unit?_hex4 {value : Nat} (bound : value < 0x10000) :
    ∃ a b c d, hex4 value = [a, b, c, d] ∧ unit? a b c d = some value := by
  refine ⟨_, _, _, _, rfl, ?_⟩
  have digit (part : Nat) : hexValue? (hexDigit (part % 16)) = some (part % 16) :=
    hexValue?_hexDigit ⟨part % 16, Nat.mod_lt part (by decide)⟩
  simp only [unit?, digit, Option.some.injEq]
  omega

/-- What stands for one character inside a literal.  A quote, a backslash and a control character
never stand for themselves, and a backslash stands in front of an escape only. -/
inductive Piece : List Char → Char → Prop where
  | plain {char : Char} (noQuote : char ≠ '"') (noEscape : char ≠ '\\')
      (visible : isControl char = false) : Piece [char] char
  | letter {letter char : Char} (known : escape? letter = some char) : Piece ['\\', letter] char
  | unit {a b c d char : Char} (known : unit? a b c d = some char.toNat) :
      Piece ['\\', 'u', a, b, c, d] char

theorem toNat_lt_of_isControl {char : Char} (control : isControl char = true) :
    char.toNat < 160 := by
  simp only [isControl, Bool.or_eq_true, decide_eq_true_eq, Bool.and_eq_true] at control
  omega

theorem le_toNat_of_visible {char : Char} (visible : isControl char = false) :
    32 ≤ char.toNat := by
  simp only [isControl, Bool.or_eq_false_iff, decide_eq_false_iff_not] at visible
  omega

theorem piece_escapeChar (char : Char) : Piece (escapeChar char) char := by
  unfold escapeChar
  split
  · next same => subst same; exact .letter rfl
  split
  · next same => subst same; exact .letter rfl
  split
  · next same => subst same; exact .letter rfl
  split
  · next same => subst same; exact .letter rfl
  split
  · next same => subst same; exact .letter rfl
  split
  · next control =>
      have bound : char.toNat < 0x10000 :=
        Nat.lt_trans (toNat_lt_of_isControl control) (by decide)
      obtain ⟨a, b, c, d, digits, known⟩ := unit?_hex4 bound
      rw [digits]
      exact .unit known
  · next noQuote noEscape _ _ _ visible =>
      exact .plain noQuote noEscape (Bool.eq_false_iff.mpr visible)

/-- What stands for a character is read as the character. -/
theorem Piece.chars {piece text chars rest : List Char} {char : Char} (one : Piece piece char)
    (others : Chars text chars rest) : Chars (piece ++ text) (char :: chars) rest := by
  cases one with
  | plain noQuote noEscape visible =>
      exact .plain (le_toNat_of_visible visible) noQuote noEscape others
  | letter known => exact .escaped known others
  | unit known => exact .unit known others

theorem chars_escape (text rest : List Char) :
    Chars (text.flatMap escapeChar ++ '"' :: rest) text rest := by
  induction text with
  | nil => exact .close
  | cons char others ih =>
      rw [List.flatMap_cons, List.append_assoc]
      exact (piece_escapeChar char).chars ih

theorem toList_quote (text : String) :
    (quote text).toList = '"' :: (text.toList.flatMap escapeChar ++ ['"']) := by
  simp [quote, escape]

end JsonString

/-- Only zero is written with a zero in front. -/
theorem toDigits_short (value : Nat) {others : List Char}
    (zero : Nat.toDigits 10 value = '0' :: others) : others = [] := by
  induction value using Nat.strongRecOn generalizing others with
  | ind value ih =>
      by_cases small : value < 10
      · rw [Nat.toDigits_of_lt_base small] at zero
        exact (List.cons.inj zero).2.symm
      · obtain ⟨first, more, digits⟩ :=
          List.exists_cons_of_ne_nil (@Nat.toDigits_ne_nil (value / 10) 10)
        rw [Nat.toDigits_of_base_le (by decide) (by omega), digits] at zero
        obtain rfl := (List.cons.inj zero).1
        obtain rfl := ih (value / 10) (by omega) digits
        have nothing : value / 10 = 0 := by
          rw [← @Nat.ofDigitChars_ten_toDigits (value / 10), digits]
          rfl
        omega

theorem natural_toDigits (value : Nat) {rest : List Char}
    (ended : ∀ next ∈ rest.head?, next.isDigit = false) :
    Natural (Nat.toDigits 10 value ++ rest) value rest := by
  have decimal : ∀ digit ∈ Nat.toDigits 10 value, digit.isDigit = true :=
    fun digit member => Nat.isDigit_of_mem_toDigits (by decide) (by decide) member
  have short := @toDigits_short value
  have same := @Nat.ofDigitChars_ten_toDigits value
  obtain ⟨first, others, digits⟩ := List.exists_cons_of_ne_nil (@Nat.toDigits_ne_nil value 10)
  rw [digits] at decimal same short ⊢
  have read : Natural (first :: (others ++ rest)) _ rest :=
    .digits (decimal first List.mem_cons_self)
      (fun digit member => decimal digit (List.mem_cons_of_mem first member))
      (fun zero => short (by rw [zero])) ended
  rwa [same] at read

theorem number_toString (value : Int) {rest : List Char}
    (ended : ∀ next ∈ rest.head?, next.isDigit = false) :
    Number ((toString value).toList ++ rest) value rest := by
  rw [Int.toString_eq_repr, Int.repr_eq_if]
  split
  · next natural =>
      have read := Number.natural (natural_toDigits value.toNat ended)
      rwa [Int.toNat_of_nonneg natural, ← Nat.toList_repr] at read
  · next negative =>
      have read := Number.negative (natural_toDigits (-value).toNat ended)
      rw [Int.toNat_of_nonneg (by omega), Int.neg_neg, ← Nat.toList_repr] at read
      rwa [String.toList_append]

theorem skip_append {blanks text : List Char} (blank : ∀ char ∈ blanks, isBlank char = true) :
    skip (blanks ++ text) = skip text :=
  List.dropWhile_append_of_pos blank

theorem skip_indentation (depth : Nat) (text : List Char) :
    skip ((JsonValue.indentation depth).toList ++ text) = skip text := by
  refine skip_append fun char member => ?_
  rw [JsonValue.indentation, String.toList_ofList] at member
  rw [List.eq_of_mem_replicate member]
  rfl

/-- Blanks in front of a phrase make no difference. -/
theorem JsonGrammar.Reads.skipped {text other rest : List Char} {phrase : Phrase}
    (reads : Reads text phrase rest) (same : skip other = skip text) : Reads other phrase rest := by
  induction reads generalizing other with
  | null word => exact .null (same.trans word)
  | true word => exact .true (same.trans word)
  | false word => exact .false (same.trans word)
  | number number => exact .number (by rwa [same])
  | string quote read => exact .string (same.trans quote) read
  | array opened listed => exact .array (same.trans opened) listed
  | object opened listed => exact .object (same.trans opened) listed
  | noItems closed => exact .noItems (same.trans closed)
  | items _ more ihFirst => exact .items (ihFirst same) more
  | endItems closed => exact .endItems (same.trans closed)
  | moreItems comma next more => exact .moreItems (same.trans comma) next more
  | member quote read colon valued => exact .member (same.trans quote) read colon valued
  | noMembers closed => exact .noMembers (same.trans closed)
  | members _ more ihFirst => exact .members (ihFirst same) more
  | endMembers closed => exact .endMembers (same.trans closed)
  | moreMembers comma next more => exact .moreMembers (same.trans comma) next more

/-- Items behind a comma are more items. -/
theorem reads_moreItems {text inner rest : List Char} {item : JsonValue} {others : List JsonValue}
    (comma : skip text = ',' :: inner) (reads : Reads inner (.items (item :: others)) rest) :
    Reads text (.moreItems (item :: others)) rest := by
  cases reads with
  | items first more => exact .moreItems comma first more

theorem reads_moreMembers {text inner rest : List Char} {member : String × JsonValue}
    {others : List (String × JsonValue)} (comma : skip text = ',' :: inner)
    (reads : Reads inner (.members (member :: others)) rest) :
    Reads text (.moreMembers (member :: others)) rest := by
  cases reads with
  | members first more => exact .moreMembers comma first more

theorem skip_of_number {text rest : List Char} {value : Int} (number : Number text value rest) :
    skip text = text := by
  obtain ⟨lead, others, rfl, numeral⟩ := number.first
  refine List.dropWhile_cons_of_neg fun blank => ?_
  simp only [isBlank, Bool.or_eq_true, decide_eq_true_eq] at blank
  rcases blank with ((rfl | rfl) | rfl) | rfl <;> exact absurd numeral (by decide)

theorem reads_number (value : Int) {rest : List Char}
    (ended : ∀ next ∈ rest.head?, next.isDigit = false) :
    Reads ((toString value).toList ++ rest) (.value (.number value)) rest := by
  have number := number_toString value ended
  exact .number (by rwa [skip_of_number number])

theorem reads_quote (text : String) (rest : List Char) :
    Reads ((JsonString.quote text).toList ++ rest) (.value (.string text)) rest := by
  rw [JsonString.toList_quote, List.cons_append, List.append_assoc]
  have read := JsonString.chars_escape text.toList rest
  have quoted := Reads.string (rfl : skip ('"' :: _) = _) read
  rwa [String.ofList_toList] at quoted

theorem reads_member {text rest : List Char} {value : JsonValue} (name : String)
    (valued : Reads text (.value value) rest) :
    Reads ((JsonValue.memberName name).toList ++ text) (.member name value) rest := by
  rw [JsonValue.memberName, String.toList_append, JsonString.toList_quote, List.append_assoc,
    List.cons_append, List.append_assoc]
  have read := JsonString.chars_escape name.toList (": ".toList ++ text)
  have named := Reads.member (rfl : skip ('"' :: _) = _) read rfl (valued.skipped rfl)
  rwa [String.ofList_toList] at named

theorem ended_cons (next : Char) (text : List Char) (other : next.isDigit = false := by decide) :
    ∀ char ∈ (next :: text).head?, char.isDigit = false := by
  rintro _ ⟨⟩
  exact other

namespace JsonValue

mutual

theorem reads_spread (value : JsonValue) (depth : Nat) {rest : List Char}
    (ended : ∀ next ∈ rest.head?, next.isDigit = false) :
    Reads ((value.spread depth).toList ++ rest) (.value value) rest := by
  match value with
  | null => rw [spread]; exact .null rfl
  | bool true => rw [spread]; exact .true rfl
  | bool false => rw [spread]; exact .false rfl
  | number value => rw [spread]; exact reads_number value ended
  | string text => rw [spread]; exact reads_quote text rest
  | array items =>
      rw [spread]
      simp only [String.toList_append, List.append_assoc]
      have closed : skip ((indentation depth).toList ++ ("]".toList ++ rest)) = ']' :: rest :=
        skip_indentation depth _
      exact .array rfl ((reads_spreadItems items (depth + 1) closed).skipped rfl)
  | object members =>
      rw [spread]
      simp only [String.toList_append, List.append_assoc]
      have closed : skip ((indentation depth).toList ++ ("\x7d".toList ++ rest)) = '\x7d' :: rest :=
        skip_indentation depth _
      exact .object rfl ((reads_spreadMembers members (depth + 1) closed).skipped rfl)

theorem reads_spreadItems (items : List JsonValue) (depth : Nat) {rest behind : List Char}
    (closed : skip behind = ']' :: rest) :
    Reads ((spreadItems depth items).toList ++ behind) (.items items) rest := by
  match items with
  | [] => rw [spreadItems]; exact .noItems closed
  | [last] =>
      rw [spreadItems]
      simp only [String.toList_append, List.append_assoc]
      have read := reads_spread last depth (ended_cons '\n' behind)
      exact .items (read.skipped (skip_indentation depth _)) (.endItems closed)
  | item :: next :: others =>
      rw [spreadItems]
      · simp only [String.toList_append, List.append_assoc]
        have more := reads_spreadItems (next :: others) depth closed
        have read (text : List Char) := reads_spread item depth (ended_cons ',' text)
        exact .items ((read _).skipped (skip_indentation depth _))
          (reads_moreItems rfl (more.skipped rfl))
      · exact nofun

theorem reads_spreadMembers (members : List (String × JsonValue)) (depth : Nat)
    {rest behind : List Char} (closed : skip behind = '\x7d' :: rest) :
    Reads ((spreadMembers depth members).toList ++ behind) (.members members) rest := by
  match members with
  | [] => rw [spreadMembers]; exact .noMembers closed
  | [(name, last)] =>
      rw [spreadMembers]
      simp only [String.toList_append, List.append_assoc]
      have read := reads_member name (reads_spread last depth (ended_cons '\n' behind))
      exact .members (read.skipped (skip_indentation depth _)) (.endMembers closed)
  | (name, value) :: next :: others =>
      rw [spreadMembers]
      · simp only [String.toList_append, List.append_assoc]
        have more := reads_spreadMembers (next :: others) depth closed
        have read (text : List Char) :=
          reads_member name (reads_spread value depth (ended_cons ',' text))
        exact .members ((read _).skipped (skip_indentation depth _))
          (reads_moreMembers rfl (more.skipped rfl))
      · exact nofun

end

/-- What is spread over lines is a document, its last line ended. -/
theorem document_spread (value : JsonValue) : Document (value.spread 0 ++ "\n") value := by
  refine ⟨['\n'], ?_, rfl⟩
  rw [String.toList_append]
  exact reads_spread value 0 (ended_cons '\n' [])

mutual

theorem reads_inline (value : JsonValue) {rest : List Char}
    (ended : ∀ next ∈ rest.head?, next.isDigit = false) :
    Reads (value.inline.toList ++ rest) (.value value) rest := by
  match value with
  | null => rw [inline]; exact .null rfl
  | bool true => rw [inline]; exact .true rfl
  | bool false => rw [inline]; exact .false rfl
  | number value => rw [inline]; exact reads_number value ended
  | string text => rw [inline]; exact reads_quote text rest
  | array items =>
      rw [inline]
      simp only [String.toList_append, List.append_assoc]
      exact .array rfl (reads_inlineItems items rest)
  | object members =>
      rw [inline]
      simp only [String.toList_append, List.append_assoc]
      exact .object rfl (reads_inlineMembers members rest)

theorem reads_inlineItems (items : List JsonValue) (rest : List Char) :
    Reads ((inlineItems items).toList ++ ("]".toList ++ rest)) (.items items) rest := by
  match items with
  | [] => rw [inlineItems]; exact .noItems rfl
  | [last] =>
      rw [inlineItems]
      exact .items (reads_inline last (ended_cons ']' rest)) (.endItems rfl)
  | item :: next :: others =>
      rw [inlineItems]
      · simp only [String.toList_append, List.append_assoc]
        have more := reads_inlineItems (next :: others) rest
        exact .items (reads_inline item (ended_cons ',' _)) (reads_moreItems rfl (more.skipped rfl))
      · exact nofun

theorem reads_inlineMembers (members : List (String × JsonValue)) (rest : List Char) :
    Reads ((inlineMembers members).toList ++ ("\x7d".toList ++ rest)) (.members members) rest := by
  match members with
  | [] => rw [inlineMembers]; exact .noMembers rfl
  | [(name, last)] =>
      rw [inlineMembers]
      simp only [String.toList_append, List.append_assoc]
      exact .members (reads_member name (reads_inline last (ended_cons '\x7d' rest)))
        (.endMembers rfl)
  | (name, value) :: next :: others =>
      rw [inlineMembers]
      · simp only [String.toList_append, List.append_assoc]
        have more := reads_inlineMembers (next :: others) rest
        exact .members (reads_member name (reads_inline value (ended_cons ',' _)))
          (reads_moreMembers rfl (more.skipped rfl))
      · exact nofun

end

/-- What is written on one line is a document. -/
theorem document_inline (value : JsonValue) : Document value.inline value := by
  have ended : ∀ next ∈ ([] : List Char).head?, next.isDigit = false := by simp
  have read := reads_inline value ended
  rw [List.append_nil] at read
  exact ⟨[], read, rfl⟩

end JsonValue

end Sipl
