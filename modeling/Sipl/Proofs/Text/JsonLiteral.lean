import Mathlib.Data.List.Forall2
import Mathlib.Logic.Function.Defs
import Sipl.Proofs.Text.JsonReading

namespace Sipl

namespace JsonGrammar

/-- The character with a code.  There is none for half of a pair or beyond the last plane. -/
def charOf? (code : Nat) : Option Char :=
  if code.isValidChar then some (.ofNat code) else none

/-- The character that two units are together. -/
def pairOf? (first second : Nat) : Option Char :=
  if 0xD800 ≤ first ∧ first < 0xDC00 ∧ 0xDC00 ≤ second ∧ second < 0xE000 then
    charOf? (0x10000 + (first - 0xD800) * 0x400 + (second - 0xDC00))
  else none

/-- Behind a unit, which is a character by itself or together with another unit. -/
def behindUnit? (unit : Nat) (text : List Char) : Option (Char × List Char) :=
  match charOf? unit with
  | some char => some (char, text)
  | none =>
    match text with
    | '\\' :: 'u' :: a :: b :: c :: d :: rest =>
      ((unit? a b c d).bind (pairOf? unit)).map fun char => (char, rest)
    | _ => none

/-- The first character inside a literal, and the text behind it. -/
def next? : List Char → Option (Char × List Char)
  | '\\' :: 'u' :: a :: b :: c :: d :: text =>
    (unit? a b c d).bind fun unit => behindUnit? unit text
  | '\\' :: letter :: text => (escape? letter).map fun char => (char, text)
  | char :: text =>
    if 32 ≤ char.toNat ∧ char ≠ '"' ∧ char ≠ '\\' then some (char, text) else none
  | [] => none

theorem charOf?_eq_some_iff {code : Nat} {char : Char} :
    charOf? code = some char ↔ code = char.toNat := by
  unfold charOf?
  constructor
  · intro found
    split at found
    · next valid =>
        obtain rfl := Option.some.inj found
        rw [Char.ofNat, dif_pos valid]
        rfl
    · cases found
  · rintro rfl
    have valid : char.toNat.isValidChar := char.valid
    rw [if_pos valid, Char.ofNat_toNat]

theorem pairOf?_eq_some_iff {first second : Nat} {char : Char} :
    pairOf? first second = some char ↔
      ∃ high low, first = 0xD800 + high ∧ high < 0x400 ∧ second = 0xDC00 + low ∧ low < 0x400 ∧
        char.toNat = 0x10000 + high * 0x400 + low := by
  unfold pairOf?
  constructor
  · intro found
    split at found
    · next bounds =>
        have code := charOf?_eq_some_iff.mp found
        exact ⟨first - 0xD800, second - 0xDC00, by omega, by omega, by omega, by omega, code.symm⟩
    · cases found
  · rintro ⟨high, low, rfl, boundHigh, rfl, boundLow, code⟩
    rw [if_pos (by omega), charOf?_eq_some_iff, code]
    omega

theorem behindUnit?_single (char : Char) (text : List Char) :
    behindUnit? char.toNat text = some (char, text) := by
  unfold behindUnit?
  rw [charOf?_eq_some_iff.mpr rfl]

theorem charOf?_of_pairOf? {first second : Nat} {char : Char}
    (paired : pairOf? first second = some char) : charOf? first = none := by
  obtain ⟨high, _, rfl, bound, _⟩ := pairOf?_eq_some_iff.mp paired
  refine Option.eq_none_iff_forall_ne_some.mpr fun half found => ?_
  exact toNat_ne_half half bound (charOf?_eq_some_iff.mp found).symm

theorem behindUnit?_paired {first second : Nat} {a b c d char : Char}
    (paired : pairOf? first second = some char) (known : unit? a b c d = some second)
    (text : List Char) :
    behindUnit? first ('\\' :: 'u' :: a :: b :: c :: d :: text) = some (char, text) := by
  unfold behindUnit?
  rw [charOf?_of_pairOf? paired]
  simp [known, paired]

theorem behindUnit?_eq_some {unit : Nat} {text rest : List Char} {char : Char}
    (found : behindUnit? unit text = some (char, rest)) :
    (unit = char.toNat ∧ text = rest) ∨
      ∃ a b c d second, text = '\\' :: 'u' :: a :: b :: c :: d :: rest ∧
        unit? a b c d = some second ∧ pairOf? unit second = some char := by
  unfold behindUnit? at found
  split at found
  · next single =>
      cases found
      exact .inl ⟨charOf?_eq_some_iff.mp single, rfl⟩
  · split at found
    · obtain ⟨_, paired, same⟩ := Option.map_eq_some_iff.mp found
      obtain ⟨second, known, together⟩ := Option.bind_eq_some_iff.mp paired
      cases same
      exact .inr ⟨_, _, _, _, second, rfl, known, together⟩
    · cases found

/-- Reading goes on behind the first character, and less text is left there. -/
theorem chars_of_next? {text rest : List Char} {char : Char}
    (found : next? text = some (char, rest)) :
    rest.length < text.length ∧
      ∀ {chars behind : List Char}, Chars rest chars behind →
        Chars text (char :: chars) behind := by
  unfold next? at found
  split at found
  · obtain ⟨unit, known, behind⟩ := Option.bind_eq_some_iff.mp found
    rcases behindUnit?_eq_some behind with ⟨rfl, rfl⟩ | ⟨a, b, c, d, second, rfl, other, together⟩
    · exact ⟨by simp only [List.length_cons]; omega, .unit known⟩
    · obtain ⟨high, low, rfl, boundHigh, rfl, boundLow, code⟩ := pairOf?_eq_some_iff.mp together
      exact ⟨by simp only [List.length_cons]; omega, .pair known boundHigh other boundLow code⟩
  · obtain ⟨_, known, same⟩ := Option.map_eq_some_iff.mp found
    cases same
    exact ⟨by simp only [List.length_cons]; omega, .escaped known⟩
  · split at found
    · next visible =>
        cases found
        exact ⟨by simp, .plain visible.1 visible.2.1 visible.2.2⟩
    · cases found
  · cases found

/-- Reading ends at a quote or goes on behind the first character. -/
theorem Chars.close_or_next {text chars behind : List Char} (read : Chars text chars behind) :
    (text = '"' :: behind ∧ chars = []) ∨
      ∃ char rest others, chars = char :: others ∧ text.head? ≠ some '"' ∧
        next? text = some (char, rest) ∧ Chars rest others behind := by
  cases read with
  | close => exact .inl ⟨rfl, rfl⟩
  | @plain char _ _ _ visible noQuote noEscape others =>
      refine .inr ⟨_, _, _, rfl, by simpa using noQuote, ?_, others⟩
      rw [next?]
      · rw [if_pos ⟨visible, noQuote, noEscape⟩]
      · exact fun _ _ _ _ _ same => absurd same noEscape
      · exact fun _ _ same => absurd same noEscape
  | escaped known others =>
      refine .inr ⟨_, _, _, rfl, by simp, ?_, others⟩
      rw [next?]
      · rw [known]; rfl
      · rintro _ _ _ _ _ rfl
        cases known
  | unit known others =>
      refine .inr ⟨_, _, _, rfl, by simp, ?_, others⟩
      rw [next?, known, Option.bind_some, behindUnit?_single]
  | pair first boundHigh second boundLow known others =>
      refine .inr ⟨_, _, _, rfl, by simp, ?_, others⟩
      have paired := pairOf?_eq_some_iff.mpr ⟨_, _, rfl, boundHigh, rfl, boundLow, known⟩
      rw [next?, first, Option.bind_some, behindUnit?_paired paired second]

-- Two units that are one character, and half of a pair.
example : next? "\\ud83d\\ude00".toList = some ('😀', []) ∧ next? "\\ud83d".toList = none := by
  decide

/-- The characters inside a literal, up to its closing quote, and the text behind it. -/
def chars? (text : List Char) : Option (List Char × List Char) :=
  if text.head? = some '"' then some ([], text.tail)
  else
    match _ : next? text with
    | none => none
    | some (char, rest) => (chars? rest).map fun (others, behind) => (char :: others, behind)
termination_by text.length
decreasing_by exact (chars_of_next? ‹_›).1

/-- The characters that are found are those that the grammar reads. -/
theorem chars?_eq_some_iff {text chars behind : List Char} :
    chars? text = some (chars, behind) ↔ Chars text chars behind := by
  -- On the turns of the reader, for both directions: what the grammar reads takes the same turns.
  fun_induction chars? text generalizing chars with
  | case1 text quote =>
      obtain ⟨rest, rfl⟩ := List.head?_eq_some_iff.mp quote
      constructor
      · rintro ⟨⟩
        exact .close
      · intro read
        rcases read.close_or_next with ⟨same, rfl⟩ | ⟨_, _, _, _, other, _⟩
        · rw [(List.cons.inj same).2, List.tail_cons]
        · exact absurd rfl other
  | case2 text quote nothing =>
      constructor
      · rintro ⟨⟩
      · intro read
        rcases read.close_or_next with ⟨rfl, _⟩ | ⟨_, _, _, _, _, found, _⟩
        · exact absurd rfl quote
        · rw [nothing] at found
          cases found
  | case3 text quote char rest found ih =>
      constructor
      · intro known
        obtain ⟨⟨others, _⟩, more, same⟩ := Option.map_eq_some_iff.mp known
        cases same
        exact (chars_of_next? found).2 (ih.mp more)
      · intro read
        rcases read.close_or_next with ⟨rfl, _⟩ | ⟨_, _, others, rfl, _, again, more⟩
        · exact absurd rfl quote
        · cases found.symm.trans again
          rw [ih.mpr more]
          rfl

/-- The text that a literal is decoded as, if the whole of it is one literal. -/
def decode? (literal : String) : Option String :=
  match literal.toList with
  | '"' :: inside =>
    match chars? inside with
    | some (chars, []) => some (.ofList chars)
    | _ => none
  | _ => none

theorem decode?_eq_some_iff {literal text : String} :
    decode? literal = some text ↔
      ∃ inside, literal.toList = '"' :: inside ∧ Chars inside text.toList [] := by
  unfold decode?
  constructor
  · intro decoded
    split at decoded
    · next inside opened =>
        split at decoded
        · next chars found =>
            obtain rfl := Option.some.inj decoded
            rw [String.toList_ofList]
            exact ⟨inside, opened, chars?_eq_some_iff.mp found⟩
        · cases decoded
    · cases decoded
  · rintro ⟨inside, opened, read⟩
    rw [opened]
    simp only [chars?_eq_some_iff.mpr read, String.ofList_toList]

end JsonGrammar

namespace JsonString

open JsonGrammar

/-- The inside of a literal is one piece for each character of the text. -/
theorem toList_escape (text : String) :
    (escape text).toList = (text.toList.map escapeChar).flatten := by
  rw [escape, String.toList_ofList, List.flatMap_def]

theorem pieces_of_chars (chars : List Char) : List.Forall₂ Piece (chars.map escapeChar) chars :=
  List.forall₂_map_left_iff.mpr (List.forall₂_same.mpr fun char _ => piece_escapeChar char)

theorem visible_of_escape? {letter char : Char} (known : escape? letter = some char) :
    isControl letter = false := by
  unfold escape? at known
  split at known
  case h_9 => cases known
  all_goals decide

theorem visible_of_hexValue? {digit : Char} {value : Nat} (known : hexValue? digit = some value) :
    isControl digit = false := by
  have bounds : 48 ≤ digit.toNat ∧ digit.toNat ≤ 102 := by
    have within {low high : Char} (between : low ≤ digit ∧ digit ≤ high) :
        low.toNat ≤ digit.toNat ∧ digit.toNat ≤ high.toNat := between
    unfold hexValue? at known
    split at known
    · next decimal =>
        have between := Char.isDigit_iff_toNat.mp decimal
        exact ⟨between.1, Nat.le_trans between.2 (by decide)⟩
    split at known
    · next lower =>
        exact ⟨Nat.le_trans (by decide) (within lower).1, (within lower).2⟩
    split at known
    · next upper =>
        exact ⟨Nat.le_trans (by decide) (within upper).1, Nat.le_trans (within upper).2 (by decide)⟩
    · cases known
  simp only [isControl, Bool.or_eq_false_iff, Bool.and_eq_false_iff, decide_eq_false_iff_not]
  omega

/-- No control character is part of a piece. -/
theorem Piece.visible {piece : List Char} {char : Char} (one : Piece piece char) :
    ∀ part ∈ piece, isControl part = false := by
  have backslash : isControl '\\' = false := by decide
  cases one with
  | plain _ _ visible => exact List.forall_mem_singleton.mpr visible
  | letter known => simp [backslash, visible_of_escape? known]
  | unit known =>
      have start : isControl 'u' = false := by decide
      unfold unit? at known
      split at known
      · next first second third fourth =>
          simp [backslash, start, visible_of_hexValue? first, visible_of_hexValue? second,
            visible_of_hexValue? third, visible_of_hexValue? fourth]
      · cases known

theorem decode?_quote (text : String) : decode? (quote text) = some text :=
  decode?_eq_some_iff.mpr ⟨_, toList_quote text, chars_escape text.toList []⟩

/-- A literal is the JSON of its text and of nothing else. -/
theorem document_quote_iff (text : String) (value : JsonValue) :
    Document (quote text) value ↔ value = .string text := by
  have document : Document (quote text) (.string text) := JsonValue.document_inline (.string text)
  constructor
  · exact fun other => other.unique document
  · rintro rfl
    exact document

theorem escape_injective : Function.Injective escape := by
  intro text other same
  have decoded := decode?_quote other
  rw [quote, ← same, ← quote, decode?_quote text] at decoded
  exact Option.some.inj decoded

/-- Whatever is in a text, the inside of its literal is made of pieces, one for each character, and
holds no control character.  Between quotes it is a JSON document for the text alone, and it is
decoded as the text. -/
theorem escape_is_lossless :
    (∀ text : String,
      (∃ pieces, List.Forall₂ Piece pieces text.toList ∧
        (escape text).toList = pieces.flatten) ∧
      (∀ char ∈ (escape text).toList, isControl char = false) ∧
      (∀ value, Document ("\"" ++ escape text ++ "\"") value ↔ value = .string text) ∧
      decode? ("\"" ++ escape text ++ "\"") = some text) ∧
    Function.Injective escape := by
  refine ⟨fun text => ?_, escape_injective⟩
  refine ⟨⟨_, pieces_of_chars text.toList, toList_escape text⟩, ?_, document_quote_iff text,
    decode?_quote text⟩
  rw [toList_escape]
  intro char member
  obtain ⟨piece, listed, part⟩ := List.mem_flatten.mp member
  obtain ⟨source, _, rfl⟩ := List.mem_map.mp listed
  exact (piece_escapeChar source).visible char part

end JsonString

end Sipl
