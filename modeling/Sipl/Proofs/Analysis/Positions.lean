import Sipl.Proofs.Analysis.Problems
import Sipl.Proofs.Reader.Ahead
import Sipl.Proofs.Reader.Tried
import Sipl.Proofs.Token.Tokenization

namespace Sipl

open Scan

namespace Meets

variable {kinds : List Kind} {sort : SyntaxError → Prop} {tokens left : List Token}
  {errors : List SyntaxError}

/-- Errors are met at tokens on the way. -/
theorem token_mem (meets : Meets kinds sort tokens errors left) :
    ∀ error ∈ errors, error.token ∈ tokens := by
  induction meets with
  | none => exact List.forall_mem_nil _
  | error _ _ _ ih =>
      refine List.forall_mem_cons.mpr ⟨List.mem_append_right _ List.mem_cons_self, ?_⟩
      exact fun error member => List.mem_append_right _ (ih error member)

/-- Errors stand in any order that the tokens stand in.  Several may be met at one token. -/
theorem ordered {before : Token → Token → Prop} (refl : ∀ token, before token token)
    (meets : Meets kinds sort tokens errors left) (ordered : tokens.Pairwise before) :
    errors.Pairwise fun first later => before first.token later.token := by
  induction meets with
  | none => exact .nil
  | error _ _ later ih =>
      have rest := (List.pairwise_append.mp ordered).2.1
      refine List.pairwise_cons.mpr ⟨fun other member => ?_, ih rest⟩
      rcases List.mem_cons.mp (later.token_mem other member) with same | behind
      · exact same ▸ refl _
      · exact (List.pairwise_cons.mp rest).1 _ behind

end Meets

/-- Reading a stream meets its errors on the way through it. -/
theorem Parsed.meets_ofCursor (cursor : Cursor) :
    ∃ left, Meets Kind.all (fun error => Graphic error.message) cursor.upcoming
      (ofCursor cursor).errors left := by
  by_cases word : cursor.kind = .programWord
  · have declared := Reader.meets_functions cursor.advance
    have body := Reader.meets_block (trees.functions cursor.advance).stop
    have parts := ((Cursor.meets_advance cursor.kind.mem_all).trans (declared.trans body)).mono
      (List.Subset.refl _) fun error inner => inner.worded
    rw [errors_ofCursor word]
    split
    · have trailing : Graphic "expected end of input after program" := by decide
      exact ⟨_, parts.trans (Cursor.meets_errorHere trailing)⟩
    · exact ⟨_, by rwa [List.append_nil]⟩
  · have headless : Graphic "expected 'program' at start of source" := by decide
    rw [ofCursor_of_other word]
    exact ⟨_, Cursor.meets_errorHere headless⟩

/-- Scanning finds the tokenization of a source that fits in the offsets of spans. -/
theorem tokenizes_scan {source : String} (short : source.utf8ByteSize < 2 ^ 32) :
    ∃ tokens, (scan source).tokens = tokens ++ [.endOf source.toList] ∧
      Tokenizes [] source.toList tokens (scan source).errors := by
  refine tokenizes_scanFrom [] rfl rfl ?_
  rw [List.nil_append, ← utf8ByteSize_eq_byteSize]
  exact Nat.le_pred_of_lt short

/-- A token is spelled as it is written where it stands; the end marker stands behind everything. -/
def Token.Written (source : List Char) (token : Token) : Prop :=
  ∃ before lexeme after, source = before ++ lexeme ++ after ∧ token.lexeme = String.ofList lexeme ∧
    token.site = .behind before lexeme ∧
    (if token.kind = .eof then lexeme = [] ∧ after = [] else lexeme ≠ [])

theorem Token.written_endOf (source : List Char) : (endOf source).Written source :=
  ⟨source, [], [], by simp, rfl, rfl, rfl, rfl⟩

theorem Token.StandsIn.written {source : List Char} {token : Token}
    (stands : token.StandsIn [] source) : token.Written source := by
  obtain ⟨before, kind, lexeme, after, whole, rfl, spelled, _⟩ := stands
  refine ⟨before, lexeme, after, by rw [whole, List.append_assoc], rfl, rfl, ?_⟩
  exact (if_neg spelled.ne_eof).mpr spelled.ne_nil

variable {source : String}

theorem written_of_mem_scan (short : source.utf8ByteSize < 2 ^ 32) :
    ∀ token ∈ (scan source).tokens, token.Written source.toList := by
  obtain ⟨tokens, found, tokenized⟩ := tokenizes_scan short
  rw [found]
  refine List.forall_mem_append.mpr ⟨fun token member => ?_, ?_⟩
  · exact (tokenized.tokens_stand token member).written
  · exact List.forall_mem_singleton.mpr (Token.written_endOf _)

/-- Tokens start one after the other, the end marker last. -/
theorem tokens_start_in_order (short : source.utf8ByteSize < 2 ^ 32) :
    (scan source).tokens.Pairwise fun first later =>
      first.site.span.start ≤ later.site.span.start := by
  obtain ⟨tokens, found, tokenized⟩ := tokenizes_scan short
  rw [found]
  refine List.pairwise_append.mpr
    ⟨?_, List.pairwise_singleton _ _, fun token member mark last => ?_⟩
  · exact tokenized.tokens_start_ordered.imp Nat.le_of_lt
  · obtain rfl := List.mem_singleton.mp last
    obtain ⟨before, lexeme, after, whole, _, site, _⟩ :=
      (tokenized.tokens_stand token member).written
    rw [site, whole]
    simp [Token.endOf, Token.behind, Site.behind, Nat.add_assoc]

namespace Diagnostic

/-- The primary spans of two diagnostics start in the given order. -/
def StartsAs (order : Nat → Nat → Prop) (first later : Diagnostic) : Prop :=
  ∃ span other, first.primarySpan? = some span ∧ later.primarySpan? = some other ∧
    order span.start other.start

/-- The line of what stands behind some text: one more than there are line breaks in the text.
Lines are counted in 32 bits, so that behind `2 ^ 32 - 1` line breaks the count is back at zero. -/
def IsLineBehind (before : List Char) (line : Nat) : Prop :=
  line = before.count '\n' + 1 ∨ before.count '\n' = 2 ^ 32 - 1 ∧ line = 0

/-- A diagnostic with one label, which points at a stretch of the source. -/
structure PointsInto (source : String) (diagnostic : Diagnostic) (span : Span) : Prop where
  labels : ∃ message, diagnostic.labels = [⟨span, message, true⟩]
  stretch : ∃ before inside after, source.toList = before ++ inside ++ after ∧
    span = ⟨byteSize before, byteSize (before ++ inside)⟩ ∧
    (∃ line, diagnostic.line? = some line ∧ IsLineBehind before line) ∧
    ∀ text, diagnostic.place? = some (.token text) → text.toList = inside
  placed : diagnostic.place?.isSome
  inputEnd : diagnostic.place? = some .inputEnd ↔ span = .point source.utf8ByteSize

end Diagnostic

/-- No more lines are passed than bytes, so that a source which fits in the offsets of spans has at
most one line too many. -/
theorem Site.isLineBehind {before chars after : List Char}
    (whole : source.toList = before ++ chars ++ after) (short : source.utf8ByteSize < 2 ^ 32) :
    Diagnostic.IsLineBehind before (behind before chars).line := by
  have passed := count_le_byteSize '\n' before
  rw [utf8ByteSize_eq_byteSize, whole, byteSize_append, byteSize_append] at short
  simp only [Diagnostic.IsLineBehind, behind]
  omega

theorem LexicalError.pointsInto {error : LexicalError} (short : source.utf8ByteSize < 2 ^ 32)
    (stands : error.StandsIn [] source.toList) :
    error.diagnostic.PointsInto source error.site.span := by
  obtain ⟨before, fault, after, whole, rfl, _⟩ := stands
  have split : source.toList = before ++ [fault.char] ++ after := by simpa using whole
  refine ⟨⟨_, rfl⟩, ⟨before, [fault.char], after, split, rfl,
    ⟨_, rfl, Site.isLineBehind split short⟩, ?_⟩, rfl, ?_⟩
  · rintro text ⟨⟩
    exact String.toList_singleton _
  · have positive := fault.char.utf8Size_pos
    rw [utf8ByteSize_eq_byteSize, whole]
    simp [diagnostic, Site.behind, Span.point]
    omega

theorem SyntaxError.pointsInto {error : SyntaxError} (short : source.utf8ByteSize < 2 ^ 32)
    (written : error.token.Written source.toList) :
    error.diagnostic.PointsInto source error.site.span := by
  obtain ⟨before, lexeme, after, whole, spelled, site, ended⟩ := written
  refine ⟨⟨_, rfl⟩, ⟨before, lexeme, after, whole, ?_, ?_, ?_⟩, rfl, ?_⟩
  · rw [SyntaxError.site, site]
    rfl
  · rw [diagnostic, SyntaxError.site, site]
    exact ⟨_, rfl, Site.isLineBehind whole short⟩
  · intro text place
    by_cases mark : error.token.kind = .eof
    · simp [diagnostic, SyntaxError.place, mark] at place
    · simp [diagnostic, SyntaxError.place, mark] at place
      rw [← place, spelled, String.toList_ofList]
  · rw [SyntaxError.site, site, utf8ByteSize_eq_byteSize, whole]
    by_cases mark : error.token.kind = .eof
    · obtain ⟨rfl, rfl⟩ := (if_pos mark).mp ended
      simp [diagnostic, SyntaxError.place, mark, Site.behind, Span.point]
    · have positive := byteSize_pos ((if_neg mark).mp ended)
      simp [diagnostic, SyntaxError.place, mark, Site.behind, Span.point]
      omega

theorem Diagnostic.PointsInto.primarySpan? {diagnostic : Diagnostic} {span : Span}
    (points : diagnostic.PointsInto source span) : diagnostic.primarySpan? = some span := by
  obtain ⟨message, labels⟩ := points.labels
  rw [Diagnostic.primarySpan?, labels]
  rfl

/-- One diagnostic for each stray character, each further on in the source than the one before, and
then one for each syntax error, none further back than the one before.  They all point into the
source. -/
def ReportedInOrder (source : String) (diagnostics : List Diagnostic) : Prop :=
  ∃ lexical syntactic, diagnostics = lexical ++ syntactic ∧
    lexical = (scan source).errors.map LexicalError.diagnostic ∧
    syntactic = (Parsed.ofTokens _ (closed_scan source)).errors.map SyntaxError.diagnostic ∧
    (∀ diagnostic ∈ lexical, diagnostic.code.phase = .scanning) ∧
    (∀ diagnostic ∈ syntactic, diagnostic.code.phase = .reading) ∧
    lexical.Pairwise (Diagnostic.StartsAs (· < ·)) ∧
    syntactic.Pairwise (Diagnostic.StartsAs (· ≤ ·)) ∧
    ∀ diagnostic ∈ lexical ++ syntactic, ∃ span, diagnostic.PointsInto source span

/-- Whatever is wrong with a source that fits in the offsets of spans, its problems are reported in
its order, each at the stretch of the source that it is about. -/
theorem problems_are_reported_in_order (source : String) (short : source.utf8ByteSize < 2 ^ 32) :
    ReportedInOrder source (Analysis.ofSource source).diagnostics := by
  obtain ⟨_, _, tokenized⟩ := tokenizes_scan short
  obtain ⟨_, meets⟩ := Parsed.meets_ofCursor (.start _ (closed_scan source))
  rw [Parsed.upcoming_start] at meets
  have lexical : ∀ error ∈ (scan source).errors,
      error.diagnostic.PointsInto source error.site.span :=
    fun error member => LexicalError.pointsInto short (tokenized.errors_stand error member)
  have syntactic : ∀ error ∈ (Analysis.ofSource source).parsed.errors,
      error.diagnostic.PointsInto source error.site.span :=
    fun error member =>
      SyntaxError.pointsInto short (written_of_mem_scan short _ (meets.token_mem error member))
  refine ⟨_, _, rfl, rfl, rfl, List.forall_mem_map.mpr fun error _ => error.phase_diagnostic,
    List.forall_mem_map.mpr fun error _ => error.phase_diagnostic, ?_, ?_, ?_⟩
  · refine List.pairwise_map.mpr (tokenized.errors_start_ordered.imp_of_mem ?_)
    intro first later one other before
    exact ⟨_, _, (lexical first one).primarySpan?, (lexical later other).primarySpan?, before⟩
  · have ordered := meets.ordered (fun _ => Nat.le_refl _) (tokens_start_in_order short)
    refine List.pairwise_map.mpr (ordered.imp_of_mem ?_)
    intro first later one other before
    exact ⟨_, _, (syntactic first one).primarySpan?, (syntactic later other).primarySpan?, before⟩
  · refine List.forall_mem_append.mpr ⟨?_, ?_⟩
    · exact List.forall_mem_map.mpr fun error member => ⟨_, lexical error member⟩
    · exact List.forall_mem_map.mpr fun error member => ⟨_, syntactic error member⟩

theorem problems_are_reported_in_order_of_accented :
    "program begin é :=\n?; 1 end".utf8ByteSize < 2 ^ 32 ∧
      ((Analysis.ofSource "program begin é :=\n?; 1 end").diagnostics.map fun diagnostic =>
        (diagnostic.code, diagnostic.line?, diagnostic.place?, diagnostic.primarySpan?)) =
          [(.unexpectedCharacter, some 1, some (.token "é"), some ⟨14, 16⟩),
            (.unexpectedCharacter, some 2, some (.token "?"), some ⟨20, 21⟩),
            (.invalidStatement, some 1, some (.token ":="), some ⟨17, 19⟩),
            (.invalidStatement, some 2, some (.token "1"), some ⟨23, 24⟩)] ∧
      ReportedInOrder "program begin é :=\n?; 1 end"
        (Analysis.ofSource "program begin é :=\n?; 1 end").diagnostics :=
  ⟨by decide, by decide +kernel, problems_are_reported_in_order _ (by decide)⟩

end Sipl
