import Mathlib.Data.List.Induction
import Mathlib.Data.List.Pairwise
import Mathlib.Data.List.Sort
import Mathlib.Data.Nat.Digits.Defs
import Sipl.Proofs.Token.Lexeme

namespace Sipl

open Scan

/-- The value of a number is positional; the truth values stand for themselves. -/
def Literal.ofLexeme? (kind : Kind) (lexeme : List Char) : Option Literal :=
  match kind with
  | .number =>
      some (.int (Nat.ofDigits 10 (lexeme.reverse.map fun digit => digit.toNat - '0'.toNat) : Nat))
  | .trueWord => some (.bool true)
  | .falseWord => some (.bool false)
  | _ => none

/-- The site of some characters that stand behind others.  A line is kept in 32 bits. -/
def Site.behind (before chars : List Char) : Site :=
  ⟨(before.count '\n' + 1) % 2 ^ 32, ⟨byteSize before, byteSize (before ++ chars)⟩⟩

/-- The token with the given spelling behind some text. -/
def Token.behind (before : List Char) (kind : Kind) (lexeme : List Char) : Token :=
  ⟨kind, String.ofList lexeme, .behind before lexeme, Literal.ofLexeme? kind lexeme⟩

/-- The end marker of a text. -/
def Token.endOf (text : List Char) : Token := .behind text .eof []

/-- Why a character in front of the given text is stray. -/
inductive LexicalFault.Explained (after : List Char) : LexicalFault → Prop where
  | loneColon (alone : after.head? ≠ some '=') : Explained after .loneColon
  | loneBang (alone : after.head? ≠ some '=') : Explained after .loneBang
  | unexpectedCharacter {char : Char} (visible : char ∉ [' ', '\t', '\r', '\n'])
      (foreign : ∀ kind tail, ¬ Spells kind (char :: tail)) :
      Explained after (.unexpectedCharacter char)

/-- A token of a text that stands behind `passed`. -/
def Token.StandsIn (passed text : List Char) (token : Token) : Prop :=
  ∃ skipped kind lexeme after, text = skipped ++ (lexeme ++ after) ∧
    token = .behind (passed ++ skipped) kind lexeme ∧ Spells kind lexeme ∧
    Longest lexeme (lexeme ++ after) ∧ ∀ next ∈ after.head?, kind.continues next = false

/-- A stray character of a text that stands behind `passed`. -/
def LexicalError.StandsIn (passed text : List Char) (error : LexicalError) : Prop :=
  ∃ skipped fault after, text = skipped ++ (fault.char :: after) ∧
    error = ⟨fault, .behind (passed ++ skipped) [fault.char]⟩ ∧ fault.Explained after

/-- Everything that is not blank, as spans. -/
def inkedSpans (tokens : List Token) (errors : List LexicalError) : List Span :=
  tokens.map (fun token => token.site.span) ++ errors.map fun error => error.site.span

/-- The tokens and the stray characters of a text that stands behind `passed`. -/
structure Tokenizes (passed text : List Char) (tokens : List Token)
    (errors : List LexicalError) : Prop where
  tokens_stand : ∀ token ∈ tokens, token.StandsIn passed text
  errors_stand : ∀ error ∈ errors, error.StandsIn passed text
  tokens_ordered :
    tokens.Pairwise fun left right => left.site.span.stop ≤ right.site.span.start
  errors_ordered :
    errors.Pairwise fun left right => left.site.span.stop ≤ right.site.span.start
  apart : ∀ token ∈ tokens, ∀ error ∈ errors,
    token.site.span.stop ≤ error.site.span.start ∨ error.site.span.stop ≤ token.site.span.start
  nonempty : ∀ span ∈ inkedSpans tokens errors, span.start < span.stop
  covers : ∀ before char after, text = before ++ char :: after →
    (char ∈ [' ', '\t', '\r', '\n'] ↔
      ∀ span ∈ inkedSpans tokens errors, span.contains (byteSize (passed ++ before)) = false)

@[simp] theorem byteSize_nil : byteSize [] = 0 := rfl

@[simp] theorem byteSize_cons (char : Char) (rest : List Char) :
    byteSize (char :: rest) = char.utf8Size + byteSize rest := rfl

@[simp] theorem byteSize_append (left right : List Char) :
    byteSize (left ++ right) = byteSize left + byteSize right := by
  induction left with
  | nil => simp
  | cons char rest ih => rw [List.cons_append, byteSize_cons, ih, byteSize_cons, Nat.add_assoc]

theorem byteSize_pos {chars : List Char} (nonempty : chars ≠ []) : 0 < byteSize chars := by
  obtain ⟨first, rest, rfl⟩ := List.exists_cons_of_ne_nil nonempty
  have := first.utf8Size_pos
  rw [byteSize_cons]
  omega

theorem count_le_byteSize (char : Char) (text : List Char) : text.count char ≤ byteSize text := by
  induction text with
  | nil => exact Nat.le_refl _
  | cons first rest ih =>
      have := first.utf8Size_pos
      rw [List.count_cons, byteSize_cons]
      split <;> omega

theorem utf8ByteSize_eq_byteSize (text : String) : text.utf8ByteSize = byteSize text.toList := by
  induction text using String.push_induction with
  | empty => rfl
  | push text char ih => simp [ih]

/-- Two places of a text at the same offset are the same. -/
theorem eq_of_byteSize_eq {left right leftRest rightRest : List Char}
    (whole : left ++ leftRest = right ++ rightRest) (same : byteSize left = byteSize right) :
    left = right ∧ leftRest = rightRest := by
  rcases List.append_eq_append_iff.mp whole with ⟨more, rfl, rfl⟩ | ⟨more, rfl, rfl⟩
  · cases more with
    | nil => simp
    | cons char more =>
        have := char.utf8Size_pos
        rw [byteSize_append, byteSize_cons] at same
        omega
  · cases more with
    | nil => simp
    | cons char more =>
        have := char.utf8Size_pos
        rw [byteSize_append, byteSize_cons] at same
        omega

@[simp] theorem lineBehind_nil (line : Nat) : lineBehind line [] = line := rfl

theorem lineBehind_cons (line : Nat) (char : Char) (rest : List Char) :
    lineBehind line (char :: rest) =
      lineBehind (if char = '\n' then (line + 1) % 2 ^ 32 else line) rest := rfl

@[simp] theorem lineBehind_append (line : Nat) (left right : List Char) :
    lineBehind line (left ++ right) = lineBehind (lineBehind line left) right := by
  induction left generalizing line with
  | nil => rfl
  | cons char rest ih => exact ih _

/-- Some lines further on, the line behind a text is as many lines further on. -/
theorem lineBehind_add (line lines : Nat) (text : List Char) :
    lineBehind ((line + lines) % 2 ^ 32) text = (lineBehind line text + lines) % 2 ^ 32 := by
  induction text generalizing line with
  | nil => rfl
  | cons char rest ih =>
      rw [lineBehind_cons, lineBehind_cons]
      split
      · have moved : ((line + lines) % 2 ^ 32 + 1) % 2 ^ 32 =
            ((line + 1) % 2 ^ 32 + lines) % 2 ^ 32 := by omega
        rw [moved, ih]
      · exact ih line

/-- The line behind a text is found by counting its line breaks. -/
theorem lineBehind_eq_count {line : Nat} (stored : line < 2 ^ 32) (text : List Char) :
    lineBehind line text = (line + text.count '\n') % 2 ^ 32 := by
  induction text generalizing line with
  | nil => exact (Nat.mod_eq_of_lt stored).symm
  | cons char rest ih =>
      rw [lineBehind_cons, List.count_cons]
      split
      · rw [ih (Nat.mod_lt _ (by decide))]
        simp_all
        omega
      · rw [ih stored]
        simp_all

/-- The line behind all that was passed. -/
theorem lineBehind_one (passed : List Char) :
    lineBehind 1 passed = (passed.count '\n' + 1) % 2 ^ 32 := by
  rw [lineBehind_eq_count (by decide), Nat.add_comm]

theorem decimal_eq_ofDigits (digits : List Char) :
    decimal digits = Nat.ofDigits 10 (digits.reverse.map fun digit => digit.toNat - '0'.toNat) := by
  induction digits using List.reverseRecOn with
  | nil => rfl
  | append_singleton front last ih =>
      simp only [decimal, List.foldl_append, List.foldl_cons, List.foldl_nil, List.reverse_append,
        List.reverse_singleton, List.singleton_append, List.map_cons, Nat.ofDigits_cons] at ih ⊢
      rw [ih, Nat.add_comm]

theorem literalOf?_eq_ofLexeme? (kind : Kind) (lexeme : List Char) :
    literalOf? kind lexeme = Literal.ofLexeme? kind lexeme := by
  cases kind <;> simp [literalOf?, Literal.ofLexeme?, decimal_eq_ofDigits]

/-- Offsets below the limit of spans are kept as they are. -/
theorem siteAt_eq_behind (before chars : List Char)
    (short : byteSize (before ++ chars) ≤ Span.limit) :
    siteAt (byteSize before) (lineBehind 1 before) chars = .behind before chars := by
  rw [byteSize_append] at short
  simp only [siteAt, Site.behind, Span.ofRange, byteSize_append, lineBehind_one]
  rw [Nat.min_eq_left short, Nat.min_eq_left (by omega)]

theorem tokenAt_eq_behind (before : List Char) (kind : Kind) (lexeme : List Char)
    (short : byteSize (before ++ lexeme) ≤ Span.limit) :
    tokenAt (byteSize before) (lineBehind 1 before) kind lexeme = .behind before kind lexeme := by
  rw [tokenAt, Token.behind, siteAt_eq_behind _ _ short, literalOf?_eq_ofLexeme?]

/-- A place inside two joined texts lies in the first or in the second one. -/
theorem split_append_eq_cons {left right before after : List Char} {char : Char}
    (whole : left ++ right = before ++ char :: after) :
    (∃ inner, left = before ++ char :: inner) ∨
      ∃ outer, before = left ++ outer ∧ right = outer ++ char :: after := by
  rcases List.append_eq_append_iff.mp whole with ⟨outer, place, rest⟩ | ⟨inner, place, rest⟩
  · exact .inr ⟨outer, place, rest⟩
  · cases inner with
    | nil => exact .inr ⟨[], by simpa using place.symm, by simpa using rest.symm⟩
    | cons head inner =>
        obtain ⟨rfl, _⟩ := List.cons.inj rest
        exact .inl ⟨inner, place⟩

theorem Token.StandsIn.widen {passed chars text : List Char} {token : Token}
    (stands : token.StandsIn (passed ++ chars) text) : token.StandsIn passed (chars ++ text) := by
  obtain ⟨skipped, kind, lexeme, after, rfl, rfl, rest⟩ := stands
  exact ⟨chars ++ skipped, kind, lexeme, after, by simp, by simp, rest⟩

theorem LexicalError.StandsIn.widen {passed chars text : List Char} {error : LexicalError}
    (stands : error.StandsIn (passed ++ chars) text) : error.StandsIn passed (chars ++ text) := by
  obtain ⟨skipped, fault, after, rfl, rfl, rest⟩ := stands
  exact ⟨chars ++ skipped, fault, after, by simp, by simp, rest⟩

namespace Tokenizes

variable {passed chars text : List Char} {tokens : List Token} {errors : List LexicalError}

/-- Nothing starts in front of the text. -/
theorem start_ge (tokenized : Tokenizes passed text tokens errors) :
    ∀ span ∈ inkedSpans tokens errors, byteSize passed ≤ span.start := by
  intro span member
  rcases List.mem_append.mp member with member | member
  · obtain ⟨token, listed, rfl⟩ := List.mem_map.mp member
    obtain ⟨skipped, kind, lexeme, after, _, rfl, _⟩ := tokenized.tokens_stand token listed
    simp [Token.behind, Site.behind]
  · obtain ⟨error, listed, rfl⟩ := List.mem_map.mp member
    obtain ⟨skipped, fault, after, _, rfl, _⟩ := tokenized.errors_stand error listed
    simp [Site.behind]

/-- The coverage of a text that starts with a blank or with an inked piece. -/
theorem covers_append (tokenized : Tokenizes (passed ++ chars) text tokens errors)
    (front : List Span) (blank : Bool)
    (front_stop : ∀ span ∈ front, span.stop ≤ byteSize (passed ++ chars))
    (front_covers : ∀ offset, byteSize passed ≤ offset → offset < byteSize (passed ++ chars) →
      ((∀ span ∈ front, span.contains offset = false) ↔ blank = true))
    (uniform : ∀ char ∈ chars, isBlank char = blank) :
    ∀ before char after, chars ++ text = before ++ char :: after →
      (char ∈ [' ', '\t', '\r', '\n'] ↔ ∀ span ∈ front ++ inkedSpans tokens errors,
        span.contains (byteSize (passed ++ before)) = false) := by
  intro before char after whole
  simp only [List.forall_mem_append]
  rw [← isBlank_iff_mem]
  rcases split_append_eq_cons whole with ⟨inner, rfl⟩ | ⟨outer, rfl, rfl⟩
  · have := char.utf8Size_pos
    have later : ∀ span ∈ inkedSpans tokens errors,
        span.contains (byteSize (passed ++ before)) = false := by
      intro span member
      have := tokenized.start_ge span member
      simp [Span.contains] at this ⊢
      omega
    rw [front_covers _ (by simp) (by simp; omega), uniform char (by simp)]
    exact ⟨fun holds => ⟨holds, later⟩, And.left⟩
  · have earlier : ∀ span ∈ front,
        span.contains (byteSize (passed ++ (chars ++ outer))) = false := by
      intro span member
      have := front_stop span member
      simp [Span.contains] at this ⊢
      omega
    rw [isBlank_iff_mem, tokenized.covers outer char after rfl]
    simp only [List.append_assoc]
    exact ⟨fun holds => ⟨earlier, holds⟩, And.right⟩

theorem nil (passed : List Char) : Tokenizes passed [] [] [] where
  tokens_stand := by simp
  errors_stand := by simp
  tokens_ordered := .nil
  errors_ordered := .nil
  apart := by simp
  nonempty := by simp [inkedSpans]
  covers := by simp

theorem blank {char : Char} (empty : isBlank char = true)
    (tokenized : Tokenizes (passed ++ [char]) text tokens errors) :
    Tokenizes passed (char :: text) tokens errors where
  tokens_stand token member := (tokenized.tokens_stand token member).widen
  errors_stand error member := (tokenized.errors_stand error member).widen
  tokens_ordered := tokenized.tokens_ordered
  errors_ordered := tokenized.errors_ordered
  apart := tokenized.apart
  nonempty := tokenized.nonempty
  covers := by
    have covered := tokenized.covers_append [] true (by simp) (by simp) (by simpa)
    simpa using covered

/-- A span over exactly the new characters covers all of them. -/
theorem front_covers (passed chars : List Char) (offset : Nat) (above : byteSize passed ≤ offset)
    (below : offset < byteSize (passed ++ chars)) :
    (∀ span ∈ [(Site.behind passed chars).span], span.contains offset = false) ↔ false = true := by
  simp only [List.forall_mem_singleton, Site.behind, Span.contains]
  simp only [byteSize_append] at below ⊢
  simp [above, below]

theorem token {kind : Kind} {lexeme : List Char} (spelled : Spells kind lexeme)
    (longest : Longest lexeme (lexeme ++ text))
    (tokenized : Tokenizes (passed ++ lexeme) text tokens errors) :
    Tokenizes passed (lexeme ++ text) (.behind passed kind lexeme :: tokens) errors where
  tokens_stand := by
    refine List.forall_mem_cons.mpr ⟨?_, fun token member =>
      (tokenized.tokens_stand token member).widen⟩
    exact ⟨[], kind, lexeme, text, rfl, by simp, spelled, longest,
      (Longest.iff_not_continues spelled).mp longest⟩
  errors_stand error member := (tokenized.errors_stand error member).widen
  tokens_ordered := by
    refine List.pairwise_cons.mpr ⟨fun later member => ?_, tokenized.tokens_ordered⟩
    exact tokenized.start_ge _ (List.mem_append_left _ (List.mem_map_of_mem member))
  errors_ordered := tokenized.errors_ordered
  apart := by
    refine List.forall_mem_cons.mpr ⟨fun error member => .inl ?_, tokenized.apart⟩
    exact tokenized.start_ge _ (List.mem_append_right _ (List.mem_map_of_mem member))
  nonempty := by
    refine List.forall_mem_cons.mpr ⟨?_, tokenized.nonempty⟩
    have := byteSize_pos spelled.ne_nil
    simp [Token.behind, Site.behind]
    omega
  covers := tokenized.covers_append [(Site.behind passed lexeme).span] false
    (by simp [Site.behind]) (front_covers passed lexeme) fun char member => spelled.not_blank member

theorem stray {fault : LexicalFault} (visible : isBlank fault.char = false)
    (explained : fault.Explained text)
    (tokenized : Tokenizes (passed ++ [fault.char]) text tokens errors) :
    Tokenizes passed (fault.char :: text) tokens
      (⟨fault, .behind passed [fault.char]⟩ :: errors) where
  tokens_stand token member := (tokenized.tokens_stand token member).widen
  errors_stand := by
    refine List.forall_mem_cons.mpr ⟨?_, fun error member =>
      (tokenized.errors_stand error member).widen⟩
    exact ⟨[], fault, text, rfl, by simp, explained⟩
  tokens_ordered := tokenized.tokens_ordered
  errors_ordered := by
    refine List.pairwise_cons.mpr ⟨fun later member => ?_, tokenized.errors_ordered⟩
    exact tokenized.start_ge _ (List.mem_append_right _ (List.mem_map_of_mem member))
  apart token member := by
    refine List.forall_mem_cons.mpr ⟨.inr ?_, tokenized.apart token member⟩
    exact tokenized.start_ge _ (List.mem_append_left _ (List.mem_map_of_mem member))
  nonempty := by
    have := byteSize_pos (List.cons_ne_nil fault.char [])
    have later := tokenized.nonempty
    simp only [inkedSpans, List.map_cons, List.forall_mem_append, List.forall_mem_cons] at later ⊢
    refine ⟨later.1, ?_, later.2⟩
    simp only [Site.behind, byteSize_append]
    omega
  covers := by
    have covered := tokenized.covers_append [(Site.behind passed [fault.char]).span] false
      (by simp [Site.behind]) (front_covers passed [fault.char]) (by simpa)
    intro before char after whole
    rw [covered before char after whole]
    simp only [inkedSpans, List.map_cons, List.singleton_append, List.forall_mem_append,
      List.forall_mem_cons]
    exact and_left_comm

end Tokenizes

/-- A character that starts no token is stray for the reason found by looking at it alone. -/
theorem LexicalFault.explained_of_unspelled {char : Char} {after : List Char}
    (visible : isBlank char = false)
    (unspelled : ∀ kind lexeme, Spells kind lexeme → ¬ lexeme <+: char :: after) :
    (ofChar char).Explained after := by
  have lone : ∀ kind, Spells kind [char, '='] → after.head? ≠ some '=' := by
    intro kind spelled following
    obtain ⟨rest, rfl⟩ := List.head?_eq_some_iff.mp following
    exact unspelled kind _ spelled ⟨rest, rfl⟩
  unfold ofChar
  split
  · next colon =>
      subst colon
      exact .loneColon (lone .assign (.of_symbol (by decide)))
  · next noColon =>
      split
      · next bang =>
          subst bang
          exact .loneBang (lone .notEq .bang)
      · next noBang =>
          refine .unexpectedCharacter (isBlank_eq_false_iff.mp visible) fun kind tail spelled => ?_
          obtain ⟨other, single⟩ := spelled.singleton noColon noBang
          exact unspelled other _ single ⟨after, rfl⟩

namespace Scan

/-- Putting a piece in front of what was scanned behind it keeps the tokenization. -/
theorem tokenizes_prepend {passed text : List Char} {piece : Piece} {later : Scan}
    {tokens : List Token} {mark : Token} (fronts : piece.Fronts (piece.chars ++ text))
    (short : byteSize (passed ++ piece.chars) ≤ Span.limit)
    (found : later.tokens = tokens ++ [mark])
    (tokenized : Tokenizes (passed ++ piece.chars) text tokens later.errors) :
    ∃ tokens, (prepend (byteSize passed) (lineBehind 1 passed) piece later).tokens =
        tokens ++ [mark] ∧
      Tokenizes passed (piece.chars ++ text) tokens
        (prepend (byteSize passed) (lineBehind 1 passed) piece later).errors := by
  cases piece with
  | blank char => exact ⟨tokens, found, tokenized.blank fronts⟩
  | token kind lexeme =>
      obtain ⟨spelled, longest⟩ := fronts
      refine ⟨.behind passed kind lexeme :: tokens, ?_, tokenized.token spelled longest⟩
      simp only [prepend, List.cons_append, found]
      rw [tokenAt_eq_behind passed kind lexeme short]
  | stray fault =>
      obtain ⟨visible, looked, unspelled⟩ := fronts
      have explained : fault.Explained text := by
        rw [looked]
        exact LexicalFault.explained_of_unspelled visible unspelled
      refine ⟨tokens, found, ?_⟩
      simp only [prepend]
      rw [siteAt_eq_behind passed [fault.char] short]
      exact tokenized.stray visible explained

theorem tokenizes_scanFrom {offset line : Nat} {text : List Char} (passed : List Char)
    (start : offset = byteSize passed) (lines : line = lineBehind 1 passed)
    (short : byteSize (passed ++ text) ≤ Span.limit) :
    ∃ tokens, (scanFrom offset line text).tokens = tokens ++ [.endOf (passed ++ text)] ∧
      Tokenizes passed text tokens (scanFrom offset line text).errors := by
  fun_induction scanFrom offset line text generalizing passed with
  | case1 offset line =>
      subst start lines
      refine ⟨[], ?_, .nil passed⟩
      rw [tokenAt_eq_behind _ _ _ short, Token.endOf, List.append_nil, List.nil_append]
  | case2 offset line first rest piece ih =>
      subst start lines
      have whole : piece.chars ++ (Piece.front first rest).2 = first :: rest :=
        Piece.chars_front first rest
      have fronts : piece.Fronts (first :: rest) := Piece.fronts_front first rest
      rw [← whole] at fronts short ⊢
      rw [← List.append_assoc] at short ⊢
      obtain ⟨tokens, found, tokenized⟩ := ih (passed ++ piece.chars) (by simp)
        (lineBehind_append 1 passed piece.chars).symm short
      rw [byteSize_append] at short
      exact tokenizes_prepend fronts (by omega) found tokenized

end Scan

/-- A token or a stray character. -/
abbrev Mark := Token ⊕ LexicalError

namespace Mark

def span : Mark → Span
  | .inl token => token.site.span
  | .inr error => error.site.span

/-- A mark starts between two parts of a text. -/
def StandsAt (before after : List Char) : Mark → Prop
  | .inl token => ∃ kind lexeme, lexeme <+: after ∧ token = .behind before kind lexeme ∧
      Spells kind lexeme ∧ Longest lexeme after
  | .inr error => ∃ fault rest, after = fault.char :: rest ∧
      error = ⟨fault, .behind before [fault.char]⟩ ∧ fault.Explained rest

end Mark

namespace LexicalFault.Explained

variable {fault : LexicalFault} {after : List Char}

/-- No token starts at a stray character. -/
theorem unspelled (explained : fault.Explained after) {kind : Kind} {lexeme : List Char}
    (spelled : Spells kind lexeme) : ¬ lexeme <+: fault.char :: after := by
  intro begins
  obtain ⟨head, tail, rfl⟩ := List.exists_cons_of_ne_nil spelled.ne_nil
  obtain ⟨same, rest, follows⟩ := List.cons_prefix_cons.mp begins
  have pair : ∀ operator ∈ operators, operator.1.head? = some ':' ∨ operator.1.head? = some '!' →
      operator.1.tail = ['='] := by decide
  cases explained with
  | loneColon alone =>
      obtain rfl : head = ':' := same
      have equals := pair _ (spelled.mem_operators (by decide) (by decide)) (.inl rfl)
      obtain rfl : tail = ['='] := equals
      exact alone (by rw [← follows]; rfl)
  | loneBang alone =>
      obtain rfl : head = '!' := same
      have equals := pair _ (spelled.mem_operators (by decide) (by decide)) (.inr rfl)
      obtain rfl : tail = ['='] := equals
      exact alone (by rw [← follows]; rfl)
  | unexpectedCharacter _ foreign =>
      obtain rfl := same
      exact foreign kind tail spelled

theorem visible (explained : fault.Explained after) : isBlank fault.char = false := by
  cases explained with
  | loneColon => decide
  | loneBang => decide
  | unexpectedCharacter visible => exact isBlank_eq_false_iff.mpr visible

theorem eq_ofChar (explained : fault.Explained after) : fault = ofChar fault.char := by
  cases explained with
  | loneColon => rfl
  | loneBang => rfl
  | @unexpectedCharacter char visible foreign =>
      have noColon : char ≠ ':' := by
        rintro rfl
        exact foreign .assign ['='] (.of_symbol (by decide))
      have noBang : char ≠ '!' := by
        rintro rfl
        exact foreign .notEq ['='] .bang
      simp [ofChar, LexicalFault.char, noColon, noBang]

end LexicalFault.Explained

namespace Mark

variable {before after : List Char}

theorem StandsAt.start {mark : Mark} (stands : mark.StandsAt before after) :
    mark.span.start = byteSize before := by
  cases mark with
  | inl token => obtain ⟨kind, lexeme, _, rfl, _⟩ := stands; rfl
  | inr error => obtain ⟨fault, rest, _, rfl, _⟩ := stands; rfl

/-- A mark starts with a character that is not blank. -/
theorem StandsAt.visible {mark : Mark} (stands : mark.StandsAt before after) :
    ∃ char rest, after = char :: rest ∧ isBlank char = false := by
  cases mark with
  | inl token =>
      obtain ⟨kind, lexeme, begins, _, spelled, _⟩ := stands
      obtain ⟨head, tail, rfl⟩ := List.exists_cons_of_ne_nil spelled.ne_nil
      obtain ⟨rest, rfl⟩ := begins
      exact ⟨head, tail ++ rest, rfl, spelled.not_blank List.mem_cons_self⟩
  | inr error =>
      obtain ⟨fault, rest, rfl, _, explained⟩ := stands
      exact ⟨fault.char, rest, rfl, explained.visible⟩

/-- Where a mark starts, the text determines it. -/
theorem StandsAt.unique {left right : Mark} (first : left.StandsAt before after)
    (second : right.StandsAt before after) : left = right := by
  cases left with
  | inl token =>
      obtain ⟨kind, lexeme, begins, rfl, spelled, longest⟩ := first
      cases right with
      | inl other =>
          obtain ⟨otherKind, otherLexeme, otherBegins, rfl, otherSpelled, otherLongest⟩ := second
          obtain ⟨rfl, rfl⟩ :=
            longest.unique spelled begins otherLongest otherSpelled otherBegins
          rfl
      | inr error =>
          obtain ⟨fault, rest, rfl, _, explained⟩ := second
          exact absurd begins (explained.unspelled spelled)
  | inr error =>
      obtain ⟨fault, rest, rfl, rfl, explained⟩ := first
      cases right with
      | inl other =>
          obtain ⟨kind, lexeme, begins, _, spelled, _⟩ := second
          exact absurd begins (explained.unspelled spelled)
      | inr other =>
          obtain ⟨otherFault, otherRest, same, rfl, otherExplained⟩ := second
          have sameChar : fault.char = otherFault.char := (List.cons.inj same).1
          have sameFault : fault = otherFault := by
            rw [explained.eq_ofChar, otherExplained.eq_ofChar, sameChar]
          rw [sameFault]

end Mark

namespace Tokenizes

variable {source : List Char} {tokens otherTokens : List Token}
  {errors otherErrors : List LexicalError}

def marks (tokens : List Token) (errors : List LexicalError) : List Mark :=
  tokens.map .inl ++ errors.map .inr

theorem map_span_marks (tokens : List Token) (errors : List LexicalError) :
    (marks tokens errors).map Mark.span = inkedSpans tokens errors := by
  simp [marks, inkedSpans, Mark.span, Function.comp_def]

theorem exists_standsAt (tokenized : Tokenizes [] source tokens errors) {mark : Mark}
    (member : mark ∈ marks tokens errors) :
    ∃ before after, source = before ++ after ∧ mark.StandsAt before after := by
  rcases List.mem_append.mp member with member | member
  · obtain ⟨token, listed, rfl⟩ := List.mem_map.mp member
    obtain ⟨skipped, kind, lexeme, after, split, same, spelled, longest, _⟩ :=
      tokenized.tokens_stand token listed
    exact ⟨skipped, lexeme ++ after, split, kind, lexeme, List.prefix_append _ _, same, spelled,
      longest⟩
  · obtain ⟨error, listed, rfl⟩ := List.mem_map.mp member
    obtain ⟨skipped, fault, after, split, same, explained⟩ := tokenized.errors_stand error listed
    exact ⟨skipped, fault.char :: after, split, fault, after, rfl, same, explained⟩

/-- Different marks are apart. -/
theorem marks_apart (tokenized : Tokenizes [] source tokens errors) {left right : Mark}
    (first : left ∈ marks tokens errors) (second : right ∈ marks tokens errors)
    (differ : left ≠ right) :
    left.span.stop ≤ right.span.start ∨ right.span.stop ≤ left.span.start := by
  have ordered : (marks tokens errors).Pairwise fun left right =>
      left.span.stop ≤ right.span.start ∨ right.span.stop ≤ left.span.start := by
    refine List.pairwise_append.mpr ⟨?_, ?_, ?_⟩
    · exact List.pairwise_map.mpr (tokenized.tokens_ordered.imp .inl)
    · exact List.pairwise_map.mpr (tokenized.errors_ordered.imp .inl)
    · intro left first right second
      obtain ⟨token, listed, rfl⟩ := List.mem_map.mp first
      obtain ⟨error, found, rfl⟩ := List.mem_map.mp second
      exact tokenized.apart token listed error found
  have : Std.Symm fun left right : Mark =>
      left.span.stop ≤ right.span.start ∨ right.span.stop ≤ left.span.start :=
    ⟨fun _ _ apart => apart.symm⟩
  exact ordered.forall first second differ

/-- The marks of one tokenization are those of any other.  A mark that started further to the left
would be known by then, and it would overlap. -/
theorem marks_subset {limit : Nat} (first : Tokenizes [] source tokens errors)
    (second : Tokenizes [] source otherTokens otherErrors) {mark : Mark}
    (member : mark ∈ marks tokens errors) (bounded : mark.span.start < limit) :
    mark ∈ marks otherTokens otherErrors := by
  induction limit generalizing tokens errors otherTokens otherErrors mark with
  | zero => omega
  | succ limit ih =>
      obtain ⟨before, after, rfl, stands⟩ := first.exists_standsAt member
      obtain ⟨char, rest, rfl, visible⟩ := stands.visible
      have covered :=
        mt (second.covers before char rest rfl).mpr (isBlank_eq_false_iff.mp visible)
      rw [← map_span_marks, List.forall_mem_map] at covered
      push Not at covered
      obtain ⟨other, found, contains⟩ := covered
      simp only [Span.contains, List.nil_append, ne_eq, Bool.not_eq_false, Bool.and_eq_true,
        decide_eq_true_eq] at contains
      have start := stands.start
      by_cases same : other.span.start = byteSize before
      · obtain ⟨otherBefore, otherAfter, split, otherStands⟩ := second.exists_standsAt found
        obtain ⟨rfl, rfl⟩ := eq_of_byteSize_eq split (same.symm.trans otherStands.start)
        rwa [stands.unique otherStands]
      · have known := ih second first found (by omega)
        have apart := first.marks_apart member known (by rintro rfl; exact same start)
        have filled := first.nonempty mark.span
          (by rw [← map_span_marks]; exact List.mem_map_of_mem member)
        omega

/-- Lists of marks in order of their starts are equal when they have the same members. -/
theorem eq_of_same_members {Item : Type} {span : Item → Span} {left right : List Item}
    (leftOrdered : left.Pairwise fun first second => (span first).start < (span second).start)
    (rightOrdered : right.Pairwise fun first second => (span first).start < (span second).start)
    (same : ∀ item, item ∈ left ↔ item ∈ right) : left = right := by
  have : Std.Irrefl fun first second : Item => (span first).start < (span second).start :=
    ⟨fun _ => Nat.lt_irrefl _⟩
  have : Std.Antisymm fun first second : Item => (span first).start < (span second).start :=
    ⟨fun _ _ before after => absurd before (Nat.lt_asymm after)⟩
  exact leftOrdered.eq_of_mem_iff rightOrdered same

theorem tokens_start_ordered (tokenized : Tokenizes [] source tokens errors) :
    tokens.Pairwise fun left right => left.site.span.start < right.site.span.start := by
  refine tokenized.tokens_ordered.imp_of_mem ?_
  intro left right listed _ before
  have filled := tokenized.nonempty left.site.span
    (List.mem_append_left _ (List.mem_map_of_mem listed))
  omega

theorem errors_start_ordered (tokenized : Tokenizes [] source tokens errors) :
    errors.Pairwise fun left right => left.site.span.start < right.site.span.start := by
  refine tokenized.errors_ordered.imp_of_mem ?_
  intro left right listed _ before
  have filled := tokenized.nonempty left.site.span
    (List.mem_append_right _ (List.mem_map_of_mem listed))
  omega

/-- A text has one tokenization. -/
theorem unique (first : Tokenizes [] source tokens errors)
    (second : Tokenizes [] source otherTokens otherErrors) :
    tokens = otherTokens ∧ errors = otherErrors := by
  have same : ∀ mark, mark ∈ marks tokens errors ↔ mark ∈ marks otherTokens otherErrors :=
    fun mark => ⟨fun member => first.marks_subset second member (Nat.lt_succ_self _),
      fun member => second.marks_subset first member (Nat.lt_succ_self _)⟩
  have sameTokens : ∀ token, token ∈ tokens ↔ token ∈ otherTokens := by
    simpa [marks] using fun token => same (.inl token)
  have sameErrors : ∀ error, error ∈ errors ↔ error ∈ otherErrors := by
    simpa [marks] using fun error => same (.inr error)
  exact ⟨eq_of_same_members first.tokens_start_ordered second.tokens_start_ordered sameTokens,
    eq_of_same_members first.errors_start_ordered second.errors_start_ordered sameErrors⟩

end Tokenizes

/-- Scanning computes the tokenization of a source that fits in the offsets of spans, and the source
has no other. -/
theorem scan_is_only_tokenization (source : String) (short : source.utf8ByteSize < 2 ^ 32) :
    (∃ tokens, (scan source).tokens = tokens ++ [.endOf source.toList] ∧
      Tokenizes [] source.toList tokens (scan source).errors) ∧
    ∀ tokens errors, Tokenizes [] source.toList tokens errors →
      scan source = ⟨tokens ++ [.endOf source.toList], errors⟩ := by
  have fits : byteSize ([] ++ source.toList) ≤ Span.limit := by
    rw [List.nil_append, ← utf8ByteSize_eq_byteSize]
    exact Nat.le_pred_of_lt short
  obtain ⟨tokens, found, tokenized⟩ := Scan.tokenizes_scanFrom [] rfl rfl fits
  rw [List.nil_append] at found
  refine ⟨⟨tokens, found, tokenized⟩, fun others otherErrors otherTokenized => ?_⟩
  obtain ⟨rfl, rfl⟩ := tokenized.unique otherTokenized
  exact congrArg (Scan.mk · _) found

theorem scan_is_only_tokenization_of_accented :
    "é:\n<=7".utf8ByteSize < 2 ^ 32 ∧
    (∃ tokens, (scan "é:\n<=7").tokens = tokens ++ [.endOf "é:\n<=7".toList] ∧
      Tokenizes [] "é:\n<=7".toList tokens (scan "é:\n<=7").errors) ∧
    ∀ tokens errors, Tokenizes [] "é:\n<=7".toList tokens errors →
      scan "é:\n<=7" = ⟨tokens ++ [.endOf "é:\n<=7".toList], errors⟩ :=
  ⟨by decide, scan_is_only_tokenization "é:\n<=7" (by decide)⟩

end Sipl
