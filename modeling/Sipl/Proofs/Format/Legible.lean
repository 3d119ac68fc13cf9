import Sipl.Proofs.Token.Lexeme
import Sipl.Text.Layout

namespace Sipl

open Scan

/-- Tokens with the given lexemes, closed by an end marker. -/
inductive Spelled : List Token → List String → Prop where
  | ended {mark : Token} (closed : mark.kind = .eof) : Spelled [mark] []
  | token {token : Token} {tokens : List Token} {words : List String}
      (spells : Spells token.kind token.lexeme.toList)
      (literal : token.literal? = literalOf? token.kind token.lexeme.toList)
      (rest : Spelled tokens words) : Spelled (token :: tokens) (token.lexeme :: words)

namespace Ink

def chars : Ink → List Char
  | word text => text.toList
  | space => [' ']
  | line columns => '\n' :: List.replicate columns ' '

def text (inks : List Ink) : List Char := inks.flatMap chars

def words : List Ink → List String
  | [] => []
  | word text :: rest => text :: words rest
  | space :: rest => words rest
  | line _ :: rest => words rest

@[simp] theorem text_nil : text [] = [] := rfl

@[simp] theorem text_cons (ink : Ink) (rest : List Ink) :
    text (ink :: rest) = ink.chars ++ text rest := by
  simp [text]

@[simp] theorem text_append (left right : List Ink) :
    text (left ++ right) = text left ++ text right := by
  simp [text]

@[simp] theorem words_append (left right : List Ink) :
    words (left ++ right) = words left ++ words right := by
  induction left with
  | nil => rfl
  | cons ink rest ih => cases ink <;> simp [words, ih]

theorem toList_write (written : String) (ink : Ink) :
    (write written ink).toList = written.toList ++ ink.chars := by
  cases ink <;> simp [write, chars, Layout.emit, Layout.space, Layout.newline, Layout.indent]

theorem toList_render (inks : List Ink) : (render inks).toList = text inks := by
  have folded : ∀ (inks : List Ink) (written : String),
      (inks.foldl write written).toList = written.toList ++ text inks := by
    intro inks
    induction inks with
    | nil => simp
    | cons ink rest ih =>
        intro written
        rw [List.foldl_cons, ih, toList_write, text_cons, List.append_assoc]
  rw [render, folded]
  rfl

/-- Words are lexemes and are kept apart, the last one from the character behind the text. -/
def Legible (next : Option Char) : List Ink → Prop
  | [] => True
  | word lexeme :: rest =>
      (∃ kind, Spells kind lexeme.toList ∧
        ∀ char ∈ (text rest).head?.or next, kind.continues char = false) ∧ Legible next rest
  | space :: rest => Legible next rest
  | line _ :: rest => Legible next rest

theorem legible_append {next : Option Char} {left right : List Ink} :
    Legible next (left ++ right) ↔
      Legible ((text right).head?.or next) left ∧ Legible next right := by
  induction left with
  | nil => simp [Legible]
  | cons ink rest ih =>
      cases ink with
      | word lexeme =>
          simp only [List.cons_append, Legible, text_append, List.head?_append, Option.or_assoc, ih,
            and_assoc]
      | space => exact ih
      | line columns => exact ih

/-- The character does not continue a number or a word. -/
def Apart (next : Option Char) : Prop :=
  ∀ char ∈ next, isLetter char = false ∧ isDigit char = false

end Ink

namespace Scan

theorem scanFrom_token {kind : Kind} {lexeme after : List Char} (offset line : Nat)
    (spells : Spells kind lexeme)
    (stopped : ∀ next ∈ after.head?, kind.continues next = false) :
    scanFrom offset line (lexeme ++ after) =
      prepend offset line (.token kind lexeme)
        (scanFrom (offset + byteSize lexeme) (lineBehind line lexeme) after) := by
  obtain ⟨first, tail, rfl⟩ := List.exists_cons_of_ne_nil spells.ne_nil
  have longest := (Longest.iff_not_continues spells).mpr stopped
  rw [List.cons_append, scanFrom, Piece.front_eq_token spells longest]
  rfl

theorem scanFrom_blanks {blanks after : List Char} (offset line : Nat)
    (blank : ∀ char ∈ blanks, isBlank char = true) :
    ∃ later below, scanFrom offset line (blanks ++ after) = scanFrom later below after := by
  induction blanks generalizing offset line with
  | nil => exact ⟨offset, line, rfl⟩
  | cons char rest ih =>
      have empty := blank char List.mem_cons_self
      obtain ⟨later, below, same⟩ := ih (offset + byteSize [char]) (lineBehind line [char])
        fun other member => blank other (List.mem_cons_of_mem _ member)
      refine ⟨later, below, ?_⟩
      rw [List.cons_append, scanFrom, ← same]
      simp only [Piece.front, if_pos empty]
      rfl

/-- Legible text is scanned into its words, without a stray character. -/
theorem spelled_scanFrom {inks : List Ink} (offset line : Nat) (legible : Ink.Legible none inks) :
    Spelled (scanFrom offset line (Ink.text inks)).tokens (Ink.words inks) ∧
      (scanFrom offset line (Ink.text inks)).errors = [] := by
  induction inks generalizing offset line with
  | nil =>
      rw [Ink.text_nil, scanFrom]
      exact ⟨.ended rfl, rfl⟩
  | cons ink rest ih =>
      cases ink with
      | word lexeme =>
          obtain ⟨⟨kind, spells, stopped⟩, legible⟩ := legible
          rw [Option.or_none] at stopped
          rw [Ink.text_cons, Ink.chars, scanFrom_token offset line spells stopped]
          obtain ⟨spelled, clean⟩ := ih _ _ legible
          refine ⟨?_, clean⟩
          have token : tokenAt offset line kind lexeme.toList =
              ⟨kind, lexeme, siteAt offset line lexeme.toList, literalOf? kind lexeme.toList⟩ := by
            rw [tokenAt, String.ofList_toList]
          rw [prepend, token]
          exact .token spells rfl spelled
      | space =>
          have blank : ∀ char ∈ [' '], isBlank char = true :=
            List.forall_mem_singleton.mpr (by decide)
          obtain ⟨later, below, same⟩ := scanFrom_blanks offset line blank
          rw [Ink.text_cons, Ink.chars, same]
          exact ih later below legible
      | line columns =>
          have blank : ∀ char ∈ '\n' :: List.replicate columns ' ', isBlank char = true := by
            intro char member
            rcases List.mem_cons.mp member with rfl | member
            · decide
            · rw [List.eq_of_mem_replicate member]
              decide
          obtain ⟨later, below, same⟩ := scanFrom_blanks offset line blank
          rw [Ink.text_cons, Ink.chars, same]
          exact ih later below legible

theorem exists_spelled_prepend {offset line : Nat} {piece : Piece} {later : Scan}
    {text : List Char} {words : List String} (fronts : piece.Fronts text)
    (spelled : Spelled later.tokens words) :
    ∃ words, Spelled (prepend offset line piece later).tokens words := by
  cases piece with
  | blank char => exact ⟨words, spelled⟩
  | stray fault => exact ⟨words, spelled⟩
  | token kind lexeme =>
      refine ⟨String.ofList lexeme :: words, .token ?_ ?_ spelled⟩
      · rw [tokenAt, String.toList_ofList]
        exact fronts.1
      · rw [tokenAt, String.toList_ofList]

/-- Whatever text tokens come from, they are spelled. -/
theorem exists_spelled_scanFrom (offset line : Nat) (text : List Char) :
    ∃ words, Spelled (scanFrom offset line text).tokens words := by
  fun_induction scanFrom offset line text with
  | case1 offset line => exact ⟨[], .ended rfl⟩
  | case2 offset line first rest piece ih =>
      obtain ⟨words, spelled⟩ := ih
      exact exists_spelled_prepend (Piece.fronts_front first rest) spelled

end Scan

end Sipl
