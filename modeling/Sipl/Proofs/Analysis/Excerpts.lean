import Sipl.Proofs.Analysis.Stretches
import Sipl.Proofs.Concrete.Copies
import Sipl.Proofs.Concrete.Parts
import Sipl.Proofs.Concrete.ReadBack
import Sipl.Proofs.Format.Canonical

namespace Sipl

open Scan Reader Cursor

/-! The span of an expression node shows a stretch of the source.  Taken out of it, the stretch is
read as the same expression, unless an operand in parentheses stands at one of its ends: the span of
a node is put together from those of its operands, and the parentheses of an operand are in neither.
-/

/-- What a span shows of a source. -/
def Span.Shows (span : Span) (source text : String) : Prop :=
  ∃ before after, source = before ++ text ++ after ∧
    span = ⟨before.utf8ByteSize, (before ++ text).utf8ByteSize⟩

/-- A program that consists of one assignment. -/
def assigning (text : String) : String := "program begin x := " ++ text ++ " end"

/-- The text is read as the value of an assignment, and up to places it is the expression. -/
def ReadsAs (text : String) (expr : Expr) : Prop :=
  (Analysis.ofSource (assigning text)).diagnostics = [] ∧
    ∃ span site again, (Analysis.ofSource (assigning text)).parsed.program? =
        some ⟨[], .mk span [.assign site "x" again]⟩ ∧
      again.unplaced = expr.unplaced

variable {text : String}

theorem toList_assigning (text : String) :
    (assigning text).toList = "program begin x :=".toList ++ ' ' :: (text.toList ++ ' ' ::
      "end".toList) := by
  have opening : "program begin x := ".toList = "program begin x :=".toList ++ [' '] := by
    decide +kernel
  have closing : " end".toList = ' ' :: "end".toList := by decide +kernel
  have joined (first last : List Char) :
      first ++ [' '] ++ text.toList ++ ' ' :: last =
        first ++ ' ' :: (text.toList ++ ' ' :: last) := by simp
  have parts : (assigning text).toList =
      "program begin x := ".toList ++ text.toList ++ " end".toList :=
    String.toList_append.trans (congrArg (· ++ _) String.toList_append)
  rw [opening, closing] at parts
  exact parts.trans (joined _ _)

theorem contents_assigning (text : String) :
    contents (assigning text).toList =
      (.programWord, "program", none) :: (.beginWord, "begin", none) :: (.ident, "x", none) ::
        (.assign, ":=", none) :: (contents text.toList ++ [(.endWord, "end", none)]) := by
  have opening : contents "program begin x :=".toList =
      [(.programWord, "program", none), (.beginWord, "begin", none), (.ident, "x", none),
        (.assign, ":=", none)] := by decide +kernel
  have closing : contents "end".toList = [(.endWord, "end", none)] := by decide +kernel
  rw [toList_assigning, contents_append_blank _ _ (by decide),
    contents_append_blank _ _ (by decide), opening, closing]
  rfl

theorem faults_assigning (clean : (pieces text.toList).filterMap Piece.fault? = []) :
    (pieces (assigning text).toList).filterMap Piece.fault? = [] := by
  have opening : (pieces "program begin x :=".toList).filterMap Piece.fault? = [] := by
    decide +kernel
  have closing : (pieces "end".toList).filterMap Piece.fault? = [] := by decide +kernel
  have space : Piece.fault? (.blank ' ') = none := rfl
  rw [toList_assigning, pieces_append_blank _ _ (by decide), pieces_append_blank _ _ (by decide),
    List.filterMap_append, List.filterMap_cons_none space, List.filterMap_append,
    List.filterMap_cons_none space, opening, clean, closing]
  rfl

/-- The program around a text has no parentheses of its own. -/
theorem balanced_assigning_iff :
    WellBracketed parenthesis (assigning text).toList ↔ WellBracketed parenthesis text.toList := by
  have opening : WellBracketed parenthesis "program begin x :=".toList := by decide
  have closing : WellBracketed parenthesis (' ' :: "end".toList) := by decide
  have space : parenthesis ' ' = .inner := by decide
  rw [toList_assigning]
  constructor
  · intro whole
    exact ((whole.of_append_left opening).tail space).of_append_right closing
  · intro balanced
    exact opening.append ((balanced.append closing).cons space)

/-- The tokens of an assignment of a term, up to the end marker, are read as the assignment. -/
theorem reads_assigning {start stop : Cursor} {word opening name assign closing : Token}
    {term : Concrete.Term}
    (passes : start.Passes (word :: opening :: name :: assign :: (term.tokens ++ [closing])) stop)
    (isProgram : word.kind = .programWord) (begins : opening.kind = .beginWord)
    (named : name.kind = .ident) (assigned : assign.kind = .assign) (formed : term.Formed)
    (ends : closing.kind = .endWord) (ended : stop.kind = .eof) :
    (Parsed.ofCursor start).errors = [] ∧ ∃ span site,
      (Parsed.ofCursor start).program? =
        some ⟨[], .mk span [.assign site name.lexeme term.tree]⟩ := by
  have first : start.kind = .programWord := by rw [Cursor.kind, passes.current_eq, isProgram]
  have second : start.advance.kind = .beginWord := by
    rw [Cursor.kind, passes.tail.current_eq, begins]
  have target := passes.tail.tail.current_eq
  have third : start.advance.advance.kind = .ident := by rw [Cursor.kind, target, named]
  have fourth : start.advance.advance.advance.kind = .assign := by
    rw [Cursor.kind, passes.tail.tail.tail.current_eq, assigned]
  obtain ⟨later, within, last⟩ := passes.tail.tail.tail.tail.split
  have final : later.kind = .endWord := by rw [Cursor.kind, last.current_eq, ends]
  have value : Reads _ (.disjunction term.tree) later :=
    (term.isRead formed).before term.tight_or within (by rw [final]; decide)
  have builds := Builds.block second (.last (.assign third fourth value) (by rw [final]; decide))
    final
  have declares : Declares start.advance (.functions []) start.advance :=
    .noFunctions (by rw [second]; decide)
  rw [last.tail.eq_of_nil, target] at builds
  exact ⟨Parsed.errors_ofCursor_eq_nil_iff.mpr ⟨first, _, _, declares, _, _, builds, ended⟩, _, _,
    Concrete.program?_ofCursor first declares builds⟩

/-- A text without stray characters whose tokens say what those of a term say is read as the
term. -/
theorem readsAs_of_contents {term : Concrete.Term} (formed : term.Formed)
    (clean : (pieces text.toList).filterMap Piece.fault? = [])
    (said : contents text.toList = term.tokens.map Token.content) : ReadsAs text term.tree := by
  have whole := content_scan (assigning text)
  obtain ⟨front, rest, split, inside, last⟩ := List.map_eq_append_iff.mp whole
  obtain ⟨mark, none, rfl, marked, nothing⟩ := List.map_eq_cons_iff.mp last
  obtain rfl := List.map_eq_nil_iff.mp nothing
  have proper : ∀ token ∈ front, token.kind ≠ .eof := by
    intro token member
    have listed := List.mem_map_of_mem (f := Token.content) member
    rw [inside] at listed
    exact (spells_of_mem_contents listed).ne_eof
  obtain ⟨stop, passes, left⟩ :=
    exists_passes ((Parsed.upcoming_start (closed_scan (assigning text))).trans split) proper
  have ended : stop.kind = .eof := by
    have same : stop.current = mark := (List.cons.inj left).1
    rw [Cursor.kind, same]
    exact (Prod.mk.inj marked).1
  rw [contents_assigning, said] at inside
  obtain ⟨word, _, rfl, isProgram, inside⟩ := List.map_eq_cons_iff.mp inside
  obtain ⟨opening, _, rfl, begins, inside⟩ := List.map_eq_cons_iff.mp inside
  obtain ⟨name, _, rfl, named, inside⟩ := List.map_eq_cons_iff.mp inside
  obtain ⟨assign, _, rfl, assigned, inside⟩ := List.map_eq_cons_iff.mp inside
  obtain ⟨tokens, _, rfl, same, inside⟩ := List.map_eq_append_iff.mp inside
  obtain ⟨closing, none, rfl, ends, nothing⟩ := List.map_eq_cons_iff.mp inside
  obtain rfl := List.map_eq_nil_iff.mp nothing
  obtain ⟨copy, rfl, copies⟩ := term.exists_copy same
  obtain ⟨noErrors, span, site, found⟩ := reads_assigning passes (Prod.mk.inj isProgram).1
    (Prod.mk.inj begins).1 (Prod.mk.inj named).1 (Prod.mk.inj assigned).1 (copies.formed formed)
    (Prod.mk.inj ends).1 ended
  have target : name.lexeme = "x" := (Prod.mk.inj (Prod.mk.inj named).2).1
  rw [target] at found
  have scanned := errors_scan_eq_nil (faults_assigning clean)
  exact ⟨Analysis.diagnostics_eq_nil_iff.mpr ⟨scanned, noErrors⟩, span, site,
    copy.tree, found, copies.tree⟩

/-- The parentheses of a source without problems are balanced. -/
theorem balanced_of_clean {source : String} (clean : (Analysis.ofSource source).diagnostics = []) :
    WellBracketed parenthesis source.toList := by
  obtain ⟨program, stop, _, formed, passes, ended⟩ :=
    Concrete.exists_program (Analysis.diagnostics_eq_nil_iff.mp clean).2
  have whole := Concrete.beforeEnd_eq passes ended
  rw [Parsed.upcoming_start] at whole
  have said := (content_beforeEnd source).symm
  rw [whole] at said
  exact (balanced_text_iff said).mpr (program.balanced formed)

theorem ReadsAs.balanced {expr : Expr} (reads : ReadsAs text expr) :
    WellBracketed parenthesis text.toList :=
  balanced_assigning_iff.mp (balanced_of_clean reads.1)

namespace Span.Shows

variable {source other : String} {span : Span}

theorem unique (shows : span.Shows source text) (also : span.Shows source other) :
    text = other := by
  obtain ⟨before, after, rfl, rfl⟩ := shows
  obtain ⟨front, back, whole, same⟩ := also
  obtain ⟨starts, stops⟩ := Span.mk.inj same
  have split := congrArg String.toList whole
  simp only [String.toList_append, List.append_assoc] at split
  simp only [utf8ByteSize_eq_byteSize, String.toList_append] at starts stops
  obtain ⟨_, rest⟩ := eq_of_byteSize_eq split starts
  have sizes : byteSize text.toList = byteSize other.toList := by
    simp only [byteSize_append] at stops
    omega
  exact String.toList_inj.mp (eq_of_byteSize_eq rest sizes).1

end Span.Shows

/-- What a part of a program says is what its span shows, without parentheses at its ends. -/
theorem exists_shown {source : String} (short : source.utf8ByteSize < 2 ^ 32)
    (clean : (scan source).errors = []) {front back : List Token} {part : Concrete.Term}
    (whole : (scan source).tokens = front ++ (part.tokens ++ back)) (more : back ≠ []) :
    ∃ text, part.tree.span.Shows source text ∧
      (pieces text.toList).filterMap Piece.fault? = [] ∧
      contents text.toList = part.shown.map Token.content := by
  have apart := apart_scan short
  rw [whole] at apart
  have tokens : (laid 0 1 (pieces source.toList)).tokens =
      (front ++ part.outerOpening) ++ (part.shown ++ (part.outerClosing ++ back)) := by
    rw [← scanFrom_eq_laid]
    refine whole.trans ?_
    rw [part.tokens_eq_shown]
    simp only [List.append_assoc]
  have fits : byteSize (Piece.text (pieces source.toList)) ≤ Span.limit := by
    rw [text_pieces, ← utf8ByteSize_eq_byteSize]
    exact Nat.le_of_lt_succ short
  obtain ⟨left, middle, right, split, said, same⟩ :=
    exists_stretch tokens (by simp [more]) fits (part.reaches apart.right.left)
  have cut := cut_pieces source.toList
  rw [split, ← List.append_assoc] at cut
  have alone := pieces_text cut.stretch
  have noFaults : (pieces source.toList).filterMap Piece.fault? = [] := by
    rw [← fault_laid 0 1, ← scanFrom_eq_laid]
    exact List.map_eq_nil_iff.mpr clean
  refine ⟨String.ofList (Piece.text middle),
    ⟨String.ofList (Piece.text left), String.ofList (Piece.text right), ?_, ?_⟩, ?_, ?_⟩
  · apply String.toList_inj.mp
    have covered := text_pieces source.toList
    rw [split] at covered
    simp only [String.toList_append, String.toList_ofList, ← covered, Piece.text_append,
      List.append_assoc]
  · simp only [utf8ByteSize_eq_byteSize, String.toList_append, String.toList_ofList]
    exact same
  · rw [String.toList_ofList, alone]
    rw [split, List.filterMap_append, List.filterMap_append] at noFaults
    exact (List.append_eq_nil_iff.mp (List.append_eq_nil_iff.mp noFaults).2).1
  · rw [String.toList_ofList, contents, alone, said]

/-- Where nothing is wrong with a source, each expression node is written down as a part of it.
What its span shows has balanced parentheses, and is read as the same expression, exactly if no
parenthesis of an operand at one of its ends is missing. -/
theorem spans_show_expressions (source : String) (short : source.utf8ByteSize < 2 ^ 32)
    (clean : (Analysis.ofSource source).diagnostics = []) :
    ∃ written : Concrete.Program,
      (Analysis.ofSource source).parsed.program? = some written.tree ∧
      written.tokens = Concrete.beforeEnd (scan source).tokens ∧ written.Formed ∧
      ∀ node ∈ written.tree.nodes, ∃ part ∈ written.parts,
        part.isGroup = false ∧ part.tree = node.2 ∧
        ∃ text, node.2.span.Shows source text ∧
          (WellBracketed parenthesis text.toList ↔ part.clipped = false) ∧
          (ReadsAs text node.2 ↔ part.clipped = false) := by
  obtain ⟨noFaults, noErrors⟩ := Analysis.diagnostics_eq_nil_iff.mp clean
  obtain ⟨written, stop, found, formed, passes, ended⟩ := Concrete.exists_program noErrors
  have tokens := Concrete.beforeEnd_eq passes ended
  have whole := passes.upcoming
  rw [Parsed.upcoming_start] at tokens whole
  refine ⟨written, found, tokens.symm, formed, fun node member => ?_⟩
  obtain ⟨part, listed, isNode, same⟩ := written.node_of node member
  have partFormed := written.parts_formed formed part listed
  obtain ⟨front, back, stands⟩ := written.parts_infix part listed
  have placed : (scan source).tokens = front ++ (part.tokens ++ (back ++ stop.upcoming)) := by
    rw [whole, ← stands]
    simp only [List.append_assoc]
  obtain ⟨text, shows, clean, said⟩ :=
    exists_shown short noFaults placed (by simp [Cursor.upcoming])
  have balanced : WellBracketed parenthesis text.toList ↔ part.clipped = false :=
    (balanced_text_iff said).trans (Concrete.Term.balanced_shown_iff partFormed isNode)
  refine ⟨part, listed, isNode, same, text, same ▸ shows, balanced,
    fun reads => balanced.mp reads.balanced, fun unclipped => ?_⟩
  rw [Concrete.Term.shown_eq_tokens unclipped] at said
  exact same ▸ readsAs_of_contents partFormed clean said

theorem spans_show_expressions_of_grouped :
    "program begin x := f((a), -(b)) * (c + 1) end".utf8ByteSize < 2 ^ 32 ∧
      (Analysis.ofSource "program begin x := f((a), -(b)) * (c + 1) end").diagnostics = [] ∧
      ∃ written : Concrete.Program,
        (Analysis.ofSource "program begin x := f((a), -(b)) * (c + 1) end").parsed.program? =
            some written.tree ∧
          ∀ node ∈ written.tree.nodes, ∃ part ∈ written.parts, part.tree = node.2 ∧
            ∃ text, node.2.span.Shows "program begin x := f((a), -(b)) * (c + 1) end" text ∧
              (ReadsAs text node.2 ↔ part.clipped = false) := by
  have short : "program begin x := f((a), -(b)) * (c + 1) end".utf8ByteSize < 2 ^ 32 := by decide
  have clean :
      (Analysis.ofSource "program begin x := f((a), -(b)) * (c + 1) end").diagnostics = [] := by
    decide +kernel
  obtain ⟨written, found, _, _, shown⟩ := spans_show_expressions _ short clean
  refine ⟨short, clean, written, found, fun node member => ?_⟩
  obtain ⟨part, listed, _, same, text, shows, _, reads⟩ := shown node member
  exact ⟨part, listed, same, text, shows, reads⟩

/-- The sum in `(1) + 2` is shown as `1) + 2`. -/
theorem grouped_operand_is_shown_in_part :
    (Analysis.ofSource "program begin x := (1) + 2 end").diagnostics = [] ∧
      ∃ program, (Analysis.ofSource "program begin x := (1) + 2 end").parsed.program? =
          some program ∧
        ∃ node ∈ program.nodes, ∀ text,
          node.2.span.Shows "program begin x := (1) + 2 end" text →
            text = "1) + 2" ∧ ¬ WellBracketed parenthesis text.toList ∧ ¬ ReadsAs text node.2 := by
  refine ⟨by decide +kernel, ?_⟩
  have listed : (Analysis.ofSource "program begin x := (1) + 2 end").parsed.program?.any
      (fun program => program.nodes.any fun node => node.2.span = ⟨20, 26⟩) = true := by
    decide +kernel
  obtain ⟨program, found, stands⟩ := (Option.any_eq_true _ _).mp listed
  obtain ⟨node, member, place⟩ := List.any_eq_true.mp stands
  refine ⟨program, found, node, member, fun text shows => ?_⟩
  have whole : (Span.mk 20 26).Shows "program begin x := (1) + 2 end" "1) + 2" :=
    ⟨"program begin x := (", " end", by decide +kernel, by decide +kernel⟩
  rw [of_decide_eq_true place] at shows
  obtain rfl := shows.unique whole
  have unbalanced : ¬ WellBracketed parenthesis "1) + 2".toList := by decide
  exact ⟨rfl, unbalanced, fun reads => unbalanced reads.balanced⟩

end Sipl
