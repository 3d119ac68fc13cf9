import Sipl.Proofs.Token.Tokenization

namespace Sipl

open Scan

/-! A text falls into pieces, and its scan is that of the pieces one after the other.  Whether a
list of pieces is the one a text falls into can be seen from each piece and what stands behind it,
so a stretch of pieces is cut in the same way on its own, and so are the texts on both sides of a
blank. -/

namespace Piece

variable {piece : Piece} {covered after : List Char}

theorem Fronts.chars_ne_nil (fronts : piece.Fronts covered) : piece.chars ≠ [] := by
  cases piece with
  | blank char => exact List.cons_ne_nil _ _
  | token kind lexeme => exact fronts.1.ne_nil
  | stray fault => exact List.cons_ne_nil _ _

/-- The piece at the front of a text is the one that fits there. -/
theorem front_unique {first : Char} {tail : List Char} (starts : piece.chars = first :: tail)
    (fronts : piece.Fronts (piece.chars ++ after)) :
    front first (tail ++ after) = (piece, after) := by
  cases piece with
  | blank char =>
      obtain ⟨rfl, rfl⟩ := List.cons.inj starts
      have blank : isBlank char = true := fronts
      simp [front, blank]
  | token kind lexeme =>
      obtain rfl : lexeme = first :: tail := starts
      exact front_eq_token fronts.1 fronts.2
  | stray fault =>
      obtain ⟨rfl, rfl⟩ := List.cons.inj starts
      obtain ⟨visible, reason, unspelled⟩ := fronts
      have found := fronts_front fault.char after
      have whole := chars_front fault.char after
      rcases fronted : front fault.char after with ⟨other, rest⟩
      rw [fronted] at found whole
      cases other with
      | blank char =>
          obtain ⟨same, _⟩ := List.cons.inj whole
          have blank : isBlank char = true := found
          rw [same, visible] at blank
          contradiction
      | token kind lexeme => exact absurd ⟨rest, whole⟩ (unspelled kind lexeme found.1)
      | stray other =>
          obtain ⟨sameChar, sameRest⟩ := List.cons.inj whole
          have same : other = fault := by rw [found.2.1, sameChar, ← reason]
          rw [List.nil_append, fronted, same, show rest = after from sameRest]

/-- Less text behind a piece leaves less that could make it longer. -/
theorem Fronts.of_append (fronts : piece.Fronts (covered ++ after)) : piece.Fronts covered := by
  cases piece with
  | blank char => exact fronts
  | token kind lexeme =>
      exact ⟨fronts.1, fun other longer spelled begins =>
        fronts.2 other longer spelled (begins.trans (List.prefix_append _ _))⟩
  | stray fault =>
      exact ⟨fronts.1, fronts.2.1, fun kind lexeme spelled begins =>
        fronts.2.2 kind lexeme spelled (begins.trans (List.prefix_append _ _))⟩

/-- No lexeme reaches over a blank. -/
theorem prefix_of_blank {kind : Kind} {lexeme : List Char} {blank : Char}
    (spelled : Spells kind lexeme) (empty : isBlank blank = true)
    (begins : lexeme <+: covered ++ blank :: after) : lexeme <+: covered := by
  by_cases inside : lexeme.length ≤ covered.length
  · exact List.prefix_of_prefix_length_le begins (List.prefix_append _ _) inside
  · have covers : covered ++ [blank] <+: lexeme := by
      refine List.prefix_of_prefix_length_le ?_ begins ?_
      · exact ⟨after, by rw [List.append_assoc, List.singleton_append]⟩
      · rw [List.length_append, List.length_singleton]
        omega
    have member : blank ∈ lexeme := covers.subset (by simp)
    rw [spelled.not_blank member] at empty
    contradiction

/-- At the end of a text pieces are cut as in front of a blank. -/
theorem Fronts.before_blank {blank : Char} (fronts : piece.Fronts covered)
    (empty : isBlank blank = true) : piece.Fronts (covered ++ blank :: after) := by
  cases piece with
  | blank char => exact fronts
  | token kind lexeme =>
      exact ⟨fronts.1, fun other longer spelled begins =>
        fronts.2 other longer spelled (prefix_of_blank spelled empty begins)⟩
  | stray fault =>
      exact ⟨fronts.1, fronts.2.1, fun kind lexeme spelled begins =>
        fronts.2.2 kind lexeme spelled (prefix_of_blank spelled empty begins)⟩

/-- The characters of pieces that stand one after the other. -/
def text (pieces : List Piece) : List Char := pieces.flatMap chars

@[simp] theorem text_nil : Piece.text [] = [] := rfl

@[simp] theorem text_cons (piece : Piece) (rest : List Piece) :
    Piece.text (piece :: rest) = piece.chars ++ Piece.text rest := List.flatMap_cons

@[simp] theorem text_append (left right : List Piece) :
    Piece.text (left ++ right) = Piece.text left ++ Piece.text right := List.flatMap_append

/-- Every piece is the one at the front of the text that starts with it. -/
def Cut : List Piece → Prop
  | [] => True
  | piece :: rest => piece.Fronts (piece.chars ++ Piece.text rest) ∧ Cut rest

namespace Cut

variable {left middle right : List Piece}

theorem of_append_right (cut : Cut (left ++ right)) : Cut right := by
  induction left with
  | nil => exact cut
  | cons piece rest ih => exact ih cut.2

theorem of_append_left (cut : Cut (left ++ right)) : Cut left := by
  induction left with
  | nil => trivial
  | cons piece rest ih =>
      have fronts : piece.Fronts (piece.chars ++ Piece.text rest ++ Piece.text right) := by
        rw [List.append_assoc, ← text_append]
        exact cut.1
      exact ⟨fronts.of_append, ih cut.2⟩

theorem stretch (cut : Cut (left ++ middle ++ right)) : Cut middle :=
  cut.of_append_left.of_append_right

/-- What stands in front of a blank is cut as if nothing followed. -/
theorem append_blank {blank : Char} (cut : Cut left) (empty : isBlank blank = true)
    (rest : Cut right) : Cut (left ++ .blank blank :: right) := by
  induction left with
  | nil => exact ⟨empty, rest⟩
  | cons piece others ih =>
      have whole : Piece.text (others ++ .blank blank :: right) =
          Piece.text others ++ blank :: Piece.text right := text_append _ _
      refine ⟨?_, ih cut.2⟩
      rw [List.append_eq, whole, ← List.append_assoc]
      exact cut.1.before_blank empty

end Cut

end Piece

namespace Scan

open Piece

/-- The pieces that a text falls into. -/
def pieces : List Char → List Piece
  | [] => []
  | first :: rest => (Piece.front first rest).1 :: pieces (Piece.front first rest).2
termination_by text => text.length
decreasing_by exact Piece.length_front_lt first rest

@[simp] theorem text_pieces (text : List Char) : Piece.text (pieces text) = text := by
  fun_induction pieces text with
  | case1 => rfl
  | case2 first rest ih => rw [text_cons, ih, chars_front]

theorem cut_pieces (text : List Char) : Cut (pieces text) := by
  fun_induction pieces text with
  | case1 => trivial
  | case2 first rest ih =>
      refine ⟨?_, ih⟩
      rw [text_pieces, chars_front]
      exact fronts_front first rest

/-- Pieces that are cut right are those of their text. -/
theorem pieces_text {cut : List Piece} (right : Cut cut) : pieces (Piece.text cut) = cut := by
  induction cut with
  | nil => rw [text_nil, pieces]
  | cons piece rest ih =>
      obtain ⟨first, tail, starts⟩ := List.exists_cons_of_ne_nil right.1.chars_ne_nil
      rw [text_cons, starts, List.cons_append, pieces, front_unique starts right.1, ih right.2]

theorem pieces_append_blank (front back : List Char) {blank : Char}
    (empty : isBlank blank = true) :
    pieces (front ++ blank :: back) = pieces front ++ .blank blank :: pieces back := by
  have joined := (cut_pieces front).append_blank empty (cut_pieces back)
  rw [← pieces_text joined, text_append, text_pieces, text_cons, text_pieces]
  rfl

/-- The scan of pieces that stand one after the other from a byte offset on a line on. -/
def laid (offset line : Nat) : List Piece → Scan
  | [] => ⟨[tokenAt offset line .eof []], []⟩
  | piece :: rest =>
    prepend offset line piece
      (laid (offset + byteSize piece.chars) (lineBehind line piece.chars) rest)

theorem scanFrom_eq_laid (offset line : Nat) (text : List Char) :
    scanFrom offset line text = laid offset line (pieces text) := by
  fun_induction scanFrom offset line text with
  | case1 offset line => rw [pieces, laid]
  | case2 offset line first rest piece ih => rw [ih, pieces, laid]

end Scan

end Sipl
