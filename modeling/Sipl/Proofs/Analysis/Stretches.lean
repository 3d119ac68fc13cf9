import Sipl.Proofs.Concrete.Shown
import Sipl.Proofs.Token.Composition

namespace Sipl

open Scan

namespace Scan

variable {front rest : List Token} {token : Token}

/-- The piece that a token of a scan comes from. -/
theorem exists_piece {offset line : Nat} {pieces : List Piece}
    (found : (laid offset line pieces).tokens = front ++ token :: rest) (more : rest ≠ []) :
    ∃ left kind lexeme right, pieces = left ++ .token kind lexeme :: right ∧
      left.filterMap Piece.content? = front.map Token.content ∧
      token = tokenAt (offset + byteSize (Piece.text left))
        (lineBehind line (Piece.text left)) kind lexeme ∧
      (laid (offset + byteSize (Piece.text left ++ lexeme))
        (lineBehind line (Piece.text left ++ lexeme)) right).tokens = rest := by
  induction pieces generalizing offset line front with
  | nil =>
      rw [laid] at found
      cases front with
      | nil => exact absurd (List.cons.inj found).2.symm more
      | cons head front =>
          have nothing := (List.cons.inj found).2
          simp at nothing
  | cons piece pieces ih =>
      have behind : ∀ front, (laid (offset + byteSize piece.chars)
          (lineBehind line piece.chars) pieces).tokens = front ++ token :: rest →
          ∃ left kind lexeme right, pieces = left ++ .token kind lexeme :: right ∧
            left.filterMap Piece.content? = front.map Token.content ∧
            token = tokenAt (offset + byteSize (Piece.text (piece :: left)))
              (lineBehind line (Piece.text (piece :: left))) kind lexeme ∧
            (laid (offset + byteSize (Piece.text (piece :: left) ++ lexeme))
              (lineBehind line (Piece.text (piece :: left) ++ lexeme)) right).tokens = rest := by
        intro front later
        obtain ⟨left, kind, lexeme, right, split, said, here, others⟩ := ih later
        refine ⟨left, kind, lexeme, right, split, said, ?_, ?_⟩
        · simpa [Nat.add_assoc] using here
        · simpa [Nat.add_assoc] using others
      cases piece with
      | blank char =>
          obtain ⟨left, kind, lexeme, right, rfl, rest⟩ := behind front found
          exact ⟨.blank char :: left, kind, lexeme, right, rfl, rest⟩
      | stray fault =>
          obtain ⟨left, kind, lexeme, right, rfl, rest⟩ := behind front found
          exact ⟨.stray fault :: left, kind, lexeme, right, rfl, rest⟩
      | token kind lexeme =>
          cases front with
          | nil =>
              obtain ⟨here, others⟩ := List.cons.inj found
              exact ⟨[], kind, lexeme, pieces, rfl, rfl, by simpa using here.symm,
                by simpa [Piece.chars] using others⟩
          | cons head front =>
              obtain ⟨here, later⟩ := List.cons.inj found
              obtain ⟨left, other, spelling, right, rfl, said, rest⟩ := behind front later
              refine ⟨.token kind lexeme :: left, other, spelling, right, rfl, ?_, rest⟩
              rw [List.map_cons, ← here, ← said]
              rfl

theorem span_tokenAt {offset line : Nat} {kind : Kind} {lexeme : List Char}
    (fits : offset + byteSize lexeme ≤ Span.limit) :
    (tokenAt offset line kind lexeme).site.span = ⟨offset, offset + byteSize lexeme⟩ := by
  rw [tokenAt, siteAt, Span.ofRange, Nat.min_eq_left fits, Nat.min_eq_left (by omega)]

variable {shown back : List Token} {span : Span}

/-- What some tokens reach over is what their pieces cover. -/
theorem exists_stretch {pieces : List Piece}
    (found : (laid 0 1 pieces).tokens = front ++ (shown ++ back)) (more : back ≠ [])
    (fits : byteSize (Piece.text pieces) ≤ Span.limit) (reaches : span.Reaches shown) :
    ∃ left middle right, pieces = left ++ (middle ++ right) ∧
      middle.filterMap Piece.content? = shown.map Token.content ∧
      span = ⟨byteSize (Piece.text left), byteSize (Piece.text left ++ Piece.text middle)⟩ := by
  obtain ⟨first, last, opens, closes, rfl⟩ := reaches
  obtain ⟨others, rfl⟩ := List.head?_eq_some_iff.mp opens
  obtain ⟨left, kind, lexeme, right, rfl, _, here, rest⟩ := exists_piece found (by simp [more])
  simp only [Piece.text_append, Piece.text_cons, Piece.chars, byteSize_append] at fits
  rw [Nat.zero_add] at here
  rcases List.eq_nil_or_concat' others with rfl | ⟨inner, final, rfl⟩
  · obtain rfl : first = last := Option.some.inj closes
    refine ⟨left, [.token kind lexeme], right, rfl, by rw [here]; rfl, ?_⟩
    rw [here, span_tokenAt (by omega)]
    simp [Piece.chars]
  · rw [← List.cons_append, List.getLast?_concat] at closes
    obtain rfl := Option.some.inj closes
    have behind := rest.trans (List.append_assoc inner [final] back)
    obtain ⟨inside, other, spelling, right, rfl, said, there, _⟩ := exists_piece behind more
    simp only [Piece.text_append, Piece.text_cons, Piece.chars, byteSize_append] at fits
    have firstSaid : (Piece.token kind lexeme).content? = some first.content := by rw [here]; rfl
    have finalSaid : (Piece.token other spelling).content? = some final.content := by
      rw [there]
      rfl
    refine ⟨left, .token kind lexeme :: (inside ++ [.token other spelling]), right, by simp, ?_, ?_⟩
    · simp [firstSaid, said, finalSaid]
    · rw [here, there, span_tokenAt (by omega), span_tokenAt (by simp; omega)]
      simp [Piece.chars, Nat.add_assoc]

theorem contents_append_blank (front back : List Char) {blank : Char}
    (empty : isBlank blank = true) :
    contents (front ++ blank :: back) = contents front ++ contents back := by
  rw [contents, pieces_append_blank front back empty, List.filterMap_append]
  rfl

theorem spells_of_mem_contents {text : List Char} {content : Kind × String × Option Literal}
    (member : content ∈ contents text) : Spells content.1 content.2.1.toList := by
  obtain ⟨piece, listed, said⟩ := List.mem_filterMap.mp member
  obtain ⟨before, after, split⟩ := List.append_of_mem listed
  have cut := cut_pieces text
  rw [split] at cut
  have fronts := cut.of_append_right.1
  cases piece with
  | blank char => cases said
  | stray fault => cases said
  | token kind lexeme =>
      cases said
      rw [String.toList_ofList]
      exact fronts.1

/-- In front of the end marker, tokens say what the text says. -/
theorem content_beforeEnd (source : String) :
    (Concrete.beforeEnd (scan source).tokens).map Token.content = contents source.toList := by
  have inside : ∀ content ∈ contents source.toList, (content.1 != Kind.eof) = true :=
    fun content member => bne_iff_ne.mpr (spells_of_mem_contents member).ne_eof
  have taken := congrArg (List.takeWhile fun content => content.1 != Kind.eof) (content_scan source)
  rw [List.takeWhile_append_of_pos inside, List.takeWhile_cons_of_neg (by decide),
    List.append_nil, List.takeWhile_map] at taken
  exact taken

end Scan

/-- How a character turns as a parenthesis. -/
def parenthesis : Char → Side
  | '(' => .opening
  | ')' => .closing
  | _ => .inner

theorem parenthesis_of_ne {char : Char} (unopened : char ≠ '(') (unclosed : char ≠ ')') :
    parenthesis char = .inner := by
  unfold parenthesis
  split
  · exact absurd rfl unopened
  · exact absurd rfl unclosed
  · rfl

theorem parenthesis_of_isLetter {char : Char} (letter : isLetter char = true) :
    parenthesis char = .inner := by
  refine parenthesis_of_ne ?_ ?_
  · rintro rfl
    cases letter
  · rintro rfl
    cases letter

theorem parenthesis_of_isDigit {char : Char} (digit : isDigit char = true) :
    parenthesis char = .inner := by
  refine parenthesis_of_ne ?_ ?_
  · rintro rfl
    cases digit
  · rintro rfl
    cases digit

/-- The characters of a lexeme are parentheses as its kind is. -/
theorem Spells.depthBehind_eq {kind : Kind} {lexeme : List Char} (spelled : Spells kind lexeme)
    (depth : Nat) :
    depthBehind parenthesis depth lexeme = (kind.side).turn depth := by
  have plain {letters : List Char} (inner : ∀ char ∈ letters, parenthesis char = .inner) :
      depthBehind parenthesis depth letters = Side.inner.turn depth :=
    (balanced_of_inner inner).depthBehind_eq depth
  cases spelled with
  | symbol listed =>
      obtain ⟨symbol, rfl⟩ := mem_symbols.mp listed
      have known : ∀ kind ∈ Kind.symbols,
          kind.text.toList.map parenthesis = [kind.side] ∨ kind.side = .inner ∧
            (kind.text.toList.all (parenthesis · = .inner)) = true := by decide
      rcases known kind symbol with single | ⟨inner, chars⟩
      · obtain ⟨char, rest, same, turns, nothing⟩ := List.map_eq_cons_iff.mp single
        obtain rfl := List.map_eq_nil_iff.mp nothing
        rw [same, depthBehind, turns]
        exact Option.bind_fun_some _
      · have plainly := fun char member => of_decide_eq_true (List.all_eq_true.mp chars char member)
        rw [inner, plain plainly]
  | bang =>
      have inner : (['!', '='].all (parenthesis · = .inner)) = true := by decide
      exact plain fun char member => of_decide_eq_true (List.all_eq_true.mp inner char member)
  | reserved listed =>
      obtain ⟨reserved, rfl⟩ := mem_words.mp listed
      have inner : ∀ kind ∈ Kind.reserved, kind.side = .inner := by decide
      rw [inner kind reserved]
      exact plain fun char member =>
        parenthesis_of_isLetter (Kind.letters_of_reserved reserved char member)
  | number nonempty decimal =>
      exact plain fun char member =>
        parenthesis_of_isDigit (isDigit_iff_range.mpr (decimal char member))
  | name nonempty word free =>
      exact plain fun char member =>
        parenthesis_of_isLetter (isLetter_iff_range.mpr (word char member))

def Piece.side : Piece → Side
  | token kind _ => kind.side
  | _ => .inner

/-- Neither blanks nor stray characters are parentheses. -/
theorem Piece.Fronts.depthBehind_eq {piece : Piece} {text : List Char}
    (fronts : piece.Fronts (piece.chars ++ text)) (depth : Nat) :
    depthBehind parenthesis depth piece.chars = depthBehind Piece.side depth [piece] := by
  cases piece with
  | blank char =>
      have inner : parenthesis char = .inner := by
        have blank : isBlank char = true := fronts
        refine parenthesis_of_ne ?_ ?_
        · rintro rfl
          cases blank
        · rintro rfl
          cases blank
      rw [chars, depthBehind_inner inner]
      rfl
  | token kind lexeme => exact (fronts.1.depthBehind_eq depth).trans (Option.bind_fun_some _).symm
  | stray fault =>
      obtain ⟨_, _, unspelled⟩ := fronts
      have inner : parenthesis fault.char = .inner := by
        refine parenthesis_of_ne (fun opens => ?_) fun closes => ?_
        · exact unspelled .leftParen [fault.char] (opens ▸ .of_symbol (by decide))
            (List.prefix_append _ _)
        · exact unspelled .rightParen [fault.char] (closes ▸ .of_symbol (by decide))
            (List.prefix_append _ _)
      rw [chars, depthBehind_inner inner]
      rfl

/-- The parentheses of a text are its tokens of these kinds. -/
theorem depthBehind_contents (depth : Nat) (text : List Char) :
    depthBehind (fun content => content.1.side) depth (contents text) =
      depthBehind parenthesis depth text := by
  have alike : ∀ pieces : List Piece, Piece.Cut pieces → ∀ piece ∈ pieces, ∀ depth,
      depthBehind parenthesis depth piece.chars = depthBehind Piece.side depth [piece] := by
    intro pieces cut
    induction pieces with
    | nil => exact List.forall_mem_nil _
    | cons piece rest ih => exact List.forall_mem_cons.mpr ⟨cut.1.depthBehind_eq, ih cut.2⟩
  have covered : depthBehind parenthesis depth (Piece.text (pieces text)) =
      depthBehind Piece.side depth (pieces text) :=
    depthBehind_flatMap _ _ (alike _ (cut_pieces text))
  rw [text_pieces] at covered
  rw [covered, contents]
  refine depthBehind_filterMap _ _ (fun piece nothing => ?_) fun piece said found => ?_
  · cases piece with
    | blank char => rfl
    | token kind lexeme => cases nothing
    | stray fault => rfl
  · cases piece with
    | blank char => cases found
    | token kind lexeme => cases found; rfl
    | stray fault => cases found

theorem balanced_text_iff {text : List Char} {tokens : List Token}
    (said : contents text = tokens.map Token.content) :
    WellBracketed parenthesis text ↔ Token.BalancedIn tokens := by
  rw [WellBracketed, ← depthBehind_contents, said, depthBehind_map]
  exact Iff.rfl

end Sipl
