import Sipl.Proofs.Token.Pieces

namespace Sipl

open Scan

def Span.shift (bytes : Nat) (span : Span) : Span := ⟨span.start + bytes, span.stop + bytes⟩

/-- The same place, some bytes and lines further on.  A line is kept in 32 bits. -/
def Site.shift (bytes lines : Nat) (site : Site) : Site :=
  ⟨(site.line + lines) % 2 ^ 32, site.span.shift bytes⟩

def Token.shift (bytes lines : Nat) (token : Token) : Token :=
  { token with site := token.site.shift bytes lines }

def LexicalError.shift (bytes lines : Nat) (error : LexicalError) : LexicalError :=
  { error with site := error.site.shift bytes lines }

namespace Scan

/-- The same tokens and stray characters, some bytes and lines further on. -/
def shift (bytes lines : Nat) (scanned : Scan) : Scan :=
  ⟨scanned.tokens.map (Token.shift bytes lines),
    scanned.errors.map (LexicalError.shift bytes lines)⟩

/-- Two scans one after the other.  The end marker of the first one is dropped. -/
def followedBy (front back : Scan) : Scan :=
  ⟨front.tokens.dropLast ++ back.tokens, front.errors ++ back.errors⟩

variable {offset line bytes lines : Nat}

theorem siteAt_shift (chars : List Char) (fits : offset + byteSize chars + bytes ≤ Span.limit) :
    siteAt (offset + bytes) ((line + lines) % 2 ^ 32) chars =
      (siteAt offset line chars).shift bytes lines := by
  simp only [siteAt, Site.shift, Span.shift, Span.ofRange, Site.mk.injEq, Span.mk.injEq, true_and]
  omega

theorem tokenAt_shift (kind : Kind) (lexeme : List Char)
    (fits : offset + byteSize lexeme + bytes ≤ Span.limit) :
    tokenAt (offset + bytes) ((line + lines) % 2 ^ 32) kind lexeme =
      (tokenAt offset line kind lexeme).shift bytes lines := by
  rw [tokenAt, siteAt_shift lexeme fits]
  rfl

theorem prepend_shift (piece : Piece) (later : Scan)
    (fits : offset + byteSize piece.chars + bytes ≤ Span.limit) :
    prepend (offset + bytes) ((line + lines) % 2 ^ 32) piece (later.shift bytes lines) =
      (prepend offset line piece later).shift bytes lines := by
  cases piece with
  | blank char => rfl
  | token kind lexeme => simp only [prepend, shift, List.map_cons, tokenAt_shift kind lexeme fits]
  | stray fault =>
      simp only [prepend, shift, List.map_cons, siteAt_shift [fault.char] fits]
      rfl

/-- Pieces that start further on are scanned to the same, as long as spans can hold the offsets. -/
theorem laid_shift (pieces : List Piece)
    (fits : offset + byteSize (Piece.text pieces) + bytes ≤ Span.limit) :
    laid (offset + bytes) ((line + lines) % 2 ^ 32) pieces =
      (laid offset line pieces).shift bytes lines := by
  induction pieces generalizing offset line with
  | nil =>
      simp only [laid, shift, List.map_cons, List.map_nil]
      rw [tokenAt_shift .eof [] fits]
  | cons piece rest ih =>
      rw [Piece.text_cons, byteSize_append] at fits
      have later := @ih (offset + byteSize piece.chars) (lineBehind line piece.chars) (by omega)
      rw [laid, laid, ← prepend_shift piece _ (by omega), ← later, Nat.add_right_comm,
        lineBehind_add]

theorem tokens_laid_ne_nil (offset line : Nat) (pieces : List Piece) :
    (laid offset line pieces).tokens ≠ [] := by
  induction pieces generalizing offset line with
  | nil => exact List.cons_ne_nil _ _
  | cons piece rest ih =>
      cases piece with
      | blank char => exact ih _ _
      | token kind lexeme => exact List.cons_ne_nil _ _
      | stray fault => exact ih _ _

theorem prepend_followedBy (piece : Piece) {later : Scan} (filled : later.tokens ≠ [])
    (back : Scan) :
    (prepend offset line piece later).followedBy back =
      prepend offset line piece (later.followedBy back) := by
  cases piece with
  | blank char => rfl
  | token kind lexeme =>
      simp only [prepend, followedBy, List.dropLast_cons_of_ne_nil filled, List.cons_append]
  | stray fault => rfl

theorem laid_append (offset line : Nat) (left right : List Piece) :
    laid offset line (left ++ right) = (laid offset line left).followedBy
      (laid (offset + byteSize (Piece.text left)) (lineBehind line (Piece.text left)) right) := by
  induction left generalizing offset line with
  | nil => rfl
  | cons piece rest ih =>
      rw [List.cons_append, laid, laid, ih, prepend_followedBy piece (tokens_laid_ne_nil _ _ _),
        Piece.text_cons, byteSize_append, lineBehind_append, Nat.add_assoc]

end Scan

/-- A blank separates: what stands behind it is scanned as if the source started there. -/
theorem scan_push_append (front back : String) {blank : Char}
    (empty : blank ∈ [' ', '\t', '\r', '\n'])
    (short : (front.push blank ++ back).utf8ByteSize < 2 ^ 32) :
    scan (front.push blank ++ back) =
      (scan front).followedBy ((scan back).shift (front.push blank).utf8ByteSize
        ((front.push blank).toList.count '\n')) := by
  have seam : pieces (front.push blank ++ back).toList =
      pieces front.toList ++ .blank blank :: pieces back.toList := by
    rw [String.toList_append, String.toList_push, List.append_assoc]
    exact pieces_append_blank _ _ (isBlank_iff_mem.mpr empty)
  have size : byteSize (front.toList ++ [blank]) = (front.push blank).utf8ByteSize := by
    rw [utf8ByteSize_eq_byteSize, String.toList_push]
  have fits : 0 + byteSize back.toList + byteSize (front.toList ++ [blank]) ≤ Span.limit := by
    rw [size, ← utf8ByteSize_eq_byteSize, Nat.zero_add, Nat.add_comm, ← String.utf8ByteSize_append]
    exact Nat.le_pred_of_lt short
  have moved := @laid_shift 0 1 _ ((front.toList ++ [blank]).count '\n') (pieces back.toList)
    (by rwa [text_pieces])
  rw [scan, scan, scan, scanFrom_eq_laid, scanFrom_eq_laid, scanFrom_eq_laid, seam, laid_append,
    text_pieces, ← size, String.toList_push, ← moved, laid, prepend, Piece.chars,
    ← lineBehind_append, lineBehind_eq_count (by decide), byteSize_append]
  simp only [Nat.zero_add]

namespace Token

/-- What a token says, wherever it stands. -/
def content (token : Token) : Kind × String × Option Literal :=
  (token.kind, token.lexeme, token.literal?)

/-- The lexemes of tokens with single spaces between them. -/
def joined (tokens : List Token) : String := " ".intercalate (tokens.map (·.lexeme))

end Token

namespace Piece

def content? : Piece → Option (Kind × String × Option Literal)
  | token kind lexeme => some (kind, String.ofList lexeme, literalOf? kind lexeme)
  | _ => none

def fault? : Piece → Option LexicalFault
  | stray fault => some fault
  | _ => none

end Piece

namespace Scan

theorem content_laid (offset line : Nat) (pieces : List Piece) :
    (laid offset line pieces).tokens.map Token.content =
      pieces.filterMap Piece.content? ++ [(.eof, "", none)] := by
  induction pieces generalizing offset line with
  | nil => rfl
  | cons piece rest ih =>
      cases piece with
      | blank char => exact ih _ _
      | token kind lexeme => exact congrArg (_ :: ·) (ih _ _)
      | stray fault => exact ih _ _

theorem fault_laid (offset line : Nat) (pieces : List Piece) :
    (laid offset line pieces).errors.map LexicalError.fault = pieces.filterMap Piece.fault? := by
  induction pieces generalizing offset line with
  | nil => rfl
  | cons piece rest ih =>
      cases piece with
      | blank char => exact ih _ _
      | token kind lexeme => exact ih _ _
      | stray fault => exact congrArg (_ :: ·) (ih _ _)

/-- Whatever is looked for in pieces, words that are joined by spaces have what each of them has. -/
theorem filterMap_pieces_intercalate {Found : Type} (find : Piece → Option Found)
    (space : find (.blank ' ') = none) (words : List String) :
    (pieces (" ".intercalate words).toList).filterMap find =
      words.flatMap fun word => (pieces word.toList).filterMap find := by
  induction words with
  | nil => rw [String.intercalate_nil, String.toList_empty, pieces]; rfl
  | cons word rest ih =>
      cases rest with
      | nil => simp
      | cons next rest =>
          have seam : (" ".intercalate (word :: next :: rest)).toList =
              word.toList ++ ' ' :: (" ".intercalate (next :: rest)).toList := by
            simp [String.intercalate_cons_cons]
          rw [seam, pieces_append_blank _ _ (by decide), List.filterMap_append,
            List.filterMap_cons_none space, ih]
          rfl

theorem pieces_of_spells {kind : Kind} {lexeme : List Char} (spelled : Spells kind lexeme) :
    pieces lexeme = [.token kind lexeme] := by
  have longest : Longest lexeme (lexeme ++ []) :=
    (Longest.iff_not_continues spelled).mpr (by simp)
  have cut : Piece.Cut [.token kind lexeme] := ⟨⟨spelled, longest⟩, trivial⟩
  have alone := pieces_text cut
  rwa [Piece.text_cons, Piece.text_nil, List.append_nil] at alone

/-- A lexeme of any text is its only piece. -/
theorem pieces_of_mem {text lexeme : List Char} {kind : Kind}
    (member : .token kind lexeme ∈ pieces text) : pieces lexeme = [.token kind lexeme] := by
  obtain ⟨before, after, split⟩ := List.append_of_mem member
  have cut := cut_pieces text
  rw [split] at cut
  exact pieces_of_spells cut.of_append_right.1.1

/-- What the tokens of a text say. -/
def contents (text : List Char) : List (Kind × String × Option Literal) :=
  (pieces text).filterMap Piece.content?

theorem content_scan (source : String) :
    (scan source).tokens.map Token.content = contents source.toList ++ [(.eof, "", none)] := by
  rw [scan, scanFrom_eq_laid, content_laid, contents]

theorem errors_scan_eq_nil {source : String}
    (clean : (pieces source.toList).filterMap Piece.fault? = []) : (scan source).errors = [] := by
  have faults := fault_laid 0 1 (pieces source.toList)
  rw [clean] at faults
  rw [scan, scanFrom_eq_laid]
  exact List.map_eq_nil_iff.mp faults

/-- The lexeme of what a token says is scanned to the same again. -/
theorem pieces_of_mem_contents {text : List Char} {content : Kind × String × Option Literal}
    (member : content ∈ contents text) :
    contents content.2.1.toList = [content] ∧
      (pieces content.2.1.toList).filterMap Piece.fault? = [] := by
  obtain ⟨piece, listed, said⟩ := List.mem_filterMap.mp member
  cases piece with
  | blank char => cases said
  | stray fault => cases said
  | token kind lexeme =>
      cases said
      rw [contents, String.toList_ofList, pieces_of_mem listed]
      exact ⟨rfl, rfl⟩

/-- Nothing is lost when the lexemes of a text are joined, with or without that of the end
marker. -/
theorem scan_intercalate (source : String) {last : List String} (empty : last ⊆ [""]) :
    (scan (" ".intercalate ((contents source.toList).map (·.2.1) ++ last))).errors = [] ∧
      (scan (" ".intercalate ((contents source.toList).map (·.2.1) ++ last))).tokens.map
        Token.content = (scan source).tokens.map Token.content := by
  have nothing {Found : Type} (find : Piece → Option Found) :
      last.flatMap (fun word => (pieces word.toList).filterMap find) = [] := by
    refine List.flatMap_eq_nil_iff.mpr fun word member => ?_
    rw [List.mem_singleton.mp (empty member), String.toList_empty, pieces, List.filterMap_nil]
  constructor
  · refine errors_scan_eq_nil ?_
    rw [filterMap_pieces_intercalate _ rfl, List.flatMap_append, nothing, List.append_nil,
      List.flatMap_map]
    exact List.flatMap_eq_nil_iff.mpr fun content member => (pieces_of_mem_contents member).2
  · rw [content_scan, content_scan, contents, filterMap_pieces_intercalate _ rfl,
      List.flatMap_append, nothing, List.append_nil, List.flatMap_map]
    have each : (contents source.toList).flatMap (fun content =>
        (pieces content.2.1.toList).filterMap Piece.content?) =
          (contents source.toList).flatMap fun content => [content] :=
      List.flatMap_congr fun content member => (pieces_of_mem_contents member).1
    rw [each, List.flatMap_singleton']

end Scan

/-- A blank between two texts separates them: each is scanned as if it stood alone.  So the lexemes
of a source, joined by single spaces, are scanned to what its tokens say. -/
theorem scan_is_compositional :
    (∀ front back, ∀ blank ∈ [' ', '\t', '\r', '\n'],
      (front.push blank ++ back).utf8ByteSize < 2 ^ 32 →
        scan (front.push blank ++ back) =
          (scan front).followedBy ((scan back).shift (front.push blank).utf8ByteSize
            ((front.push blank).toList.count '\n'))) ∧
    ∀ source, ∀ tokens ∈ [(scan source).tokens, (scan source).tokens.dropLast],
      (scan (Token.joined tokens)).errors = [] ∧
        (scan (Token.joined tokens)).tokens.map Token.content =
          (scan source).tokens.map Token.content := by
  refine ⟨fun front back blank empty => scan_push_append front back empty,
    fun source tokens listed => ?_⟩
  have said := content_scan source
  have lexemes (tokens : List Token) :
      tokens.map (·.lexeme) = (tokens.map Token.content).map (·.2.1) := by
    rw [List.map_map]
    rfl
  rcases List.mem_pair.mp listed with rfl | rfl
  · have joined : Token.joined (scan source).tokens =
        " ".intercalate ((contents source.toList).map (·.2.1) ++ [""]) := by
      rw [Token.joined, lexemes, said, List.map_append]
      rfl
    rw [joined]
    exact scan_intercalate source (List.Subset.refl _)
  · have joined : Token.joined (scan source).tokens.dropLast =
        " ".intercalate ((contents source.toList).map (·.2.1) ++ []) := by
      rw [Token.joined, lexemes, List.map_dropLast, said, List.dropLast_concat, List.append_nil]
    rw [joined]
    exact scan_intercalate source (List.nil_subset _)

theorem scan_is_compositional_of_halves :
    '\n' ∈ [' ', '\t', '\r', '\n'] ∧ ("x := 1 <".push '\n' ++ "= é").utf8ByteSize < 2 ^ 32 ∧
      scan ("x := 1 <".push '\n' ++ "= é") = (scan "x := 1 <").followedBy
        ((scan "= é").shift ("x := 1 <".push '\n').utf8ByteSize
          (("x := 1 <".push '\n').toList.count '\n')) ∧
      (scan (Token.joined (scan "f(1<=x)").tokens)).tokens.map Token.content =
        (scan "f(1<=x)").tokens.map Token.content :=
  ⟨by decide, by decide, scan_is_compositional.1 _ _ _ (by decide) (by decide),
    (scan_is_compositional.2 _ _ List.mem_cons_self).2⟩

end Sipl
