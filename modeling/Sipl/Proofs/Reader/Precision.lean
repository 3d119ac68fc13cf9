import Mathlib.Data.List.Forall2
import Sipl.Proofs.Reader.Acceptance
import Sipl.Proofs.Reader.Drafts
import Sipl.Proofs.Reader.Elsewhere
import Sipl.Proofs.Reader.Recovery

namespace Sipl

namespace Draft

open Cursor Keeper Reader

variable {start : Cursor} {ending : Token} {tokens rest : List Token}

/-- An error is met in the segment or at the token behind it. -/
def Segment.Reports (segment : Segment) (error : SyntaxError) : Prop :=
  error.token ∈ segment.tokens ++ [segment.ending]

/-- What is read in front of one token is read in front of another one that is alike. -/
theorem Read.anywhere {endings : List Kind} {reads : Cursor → Cursor → Prop}
    (read : Read endings tokens reads)
    (portable : ∀ start stop, reads start stop → Portable start stop reads)
    (ahead : start.upcoming = tokens ++ ending :: rest)
    (alike : ∀ kind ∈ endings, kind.Alike ending.kind) :
    ∃ stop, reads start stop ∧ stop.upcoming = ending :: rest := by
  obtain ⟨origin, stop, whole, listed, reads⟩ := read
  have behind : stop.upcoming = [] ++ stop.current :: stop.ahead := rfl
  exact (portable origin stop reads).transport whole behind ahead (alike _ listed)

theorem Part.IsCondition.anywhere {word : Kind} {part : Part Expr}
    (condition : part.IsCondition word) (ahead : start.upcoming = part.tokens ++ ending :: rest)
    (same : ending.kind = word) :
    ∃ stop, (Sipl.trees.disjunction start).Yields part.tree stop ∧
      stop.upcoming = ending :: rest := by
  refine Read.anywhere condition (fun start stop read => ?_) ahead ?_
  · have portable := (reads_of_yielded (.disjunction part.tree) read).portable
    exact portable.mono fun _ _ _ reads => yielded_of_reads reads
  · exact List.forall_mem_singleton.mpr (.inl same)

/-- No expression holds a separator. -/
theorem alike_of_separator {endings : List Kind} (ends : ∀ kind ∈ endings, kind ∉ exprKinds)
    (separator : ending.kind ∉ exprKinds) : ∀ kind ∈ endings, kind.Alike ending.kind :=
  fun kind listed => .inr ⟨ends kind listed, separator⟩

theorem Part.IsAssignment.anywhere {part : Part Stmt} (assignment : part.IsAssignment)
    (ahead : start.upcoming = part.tokens ++ ending :: rest) (separator : ending.kind ∉ exprKinds) :
    ∃ stop, (Sipl.trees.statement start).Yields (part.tree, []) stop ∧
      stop.upcoming = ending :: rest := by
  obtain ⟨stop, ⟨_, read⟩, behind⟩ := Read.anywhere assignment
    (fun _ _ ⟨name, read⟩ => portable_assignment name read) ahead
    (alike_of_separator (by decide) separator)
  exact ⟨stop, read, behind⟩

theorem Part.IsFunction.anywhere {part : Part Function} (function : part.IsFunction)
    (ahead : start.upcoming = part.tokens ++ ending :: rest) (separator : ending.kind ∉ exprKinds) :
    ∃ stop, start.kind = .funcWord ∧
      (Sipl.trees.function start.current start.advance).Yields (part.tree, []) stop ∧
      stop.upcoming = ending :: rest := by
  obtain ⟨stop, ⟨word, read⟩, behind⟩ := Read.anywhere function
    (fun _ _ ⟨word, read⟩ => portable_function word read) ahead
    (alike_of_separator (by decide) separator)
  exact ⟨stop, word, read, behind⟩

/-- What fails in front of one token fails in front of another one that is alike: had it been read,
it would have been read there as well. -/
theorem Fails.anywhere {α : Type} {endings : List Kind} {result : Cursor → Except SyntaxError α}
    (fails : Fails endings tokens result)
    (portable : ∀ value, result start = .ok value → ∃ stop others,
      Portable start stop (fun other _ => ∃ value, result other = .ok value) ∧
        stop.upcoming = others ++ ending :: rest)
    (ahead : start.upcoming = tokens ++ ending :: rest)
    (alike : ∀ kind ∈ endings, kind.Alike ending.kind) : ∃ error, result start = .error error := by
  obtain ⟨origin, closing, left, error, whole, listed, failed⟩ := fails
  cases met : result start with
  | error error => exact ⟨error, rfl⟩
  | ok value =>
      obtain ⟨stop, others, portable, behind⟩ := portable value met
      obtain ⟨_, ⟨other, read⟩, _⟩ :=
        portable.transport ahead behind whole (alike _ listed).symm
      cases read.symm.trans failed

/-- Behind a segment that cannot be read, reading goes on at the token that ends it. -/
theorem skipped_segment {α : Type} {reading : Reading start (α × List SyntaxError)}
    {kinds : List Kind} {error : SyntaxError} {boundary : KindSet}
    (meets : reading.Meets kinds Prod.snd) (failed : reading.result = .error error)
    (ahead : start.upcoming = tokens ++ ending :: rest) (barred : ending.kind ∉ kinds)
    (listed : boundary.contains ending.kind = true)
    (plain : ∀ token ∈ tokens, token.kind ≠ .eof ∧ boundary.contains token.kind = false) :
    ∃ stop, (Sipl.trees.orSkip reading boundary).Yields [] [error] stop ∧
      stop.upcoming = ending :: rest ∧ error.token ∈ tokens ++ [ending] := by
  obtain ⟨others, shorter, behind⟩ := meets.way.exists_split ahead barred
  have first : FirstOf boundary reading.stop.upcoming ending rest :=
    ⟨listed, others, behind, fun token member => plain token (shorter.subset member)⟩
  refine ⟨_, Reading.yields_orSkip.mpr (.inr ⟨error, failed, rfl, rfl, rfl⟩),
    Cursor.upcoming_skipTo first, ?_⟩
  rw [meets.here error failed]
  cases others with
  | nil =>
      rw [(List.cons.inj behind).1]
      exact List.mem_append_right _ List.mem_cons_self
  | cons token others =>
      rw [(List.cons.inj behind).1]
      exact List.mem_append_left _ (shorter.subset List.mem_cons_self)

/-- What separates statements. -/
def separators : List Kind := [.semicolon, .endWord]

theorem separators_spec : ∀ kind ∈ separators, kind ∉ assignmentKinds ∧ kind ∉ exprKinds ∧
    kind ≠ .ifWord ∧ kind ≠ .whileWord ∧ KindSet.statementBoundary.contains kind = true := by
  decide

theorem plain_spec (kind : Kind)
    (plain : kind ∉ [.endWord, .semicolon, .funcWord, .ifWord, .whileWord, .eof]) :
    kind ≠ .eof ∧ KindSet.statementBoundary.contains kind = false := by
  revert plain
  cases kind <;> decide

namespace MalformedStatement

variable (malformed : MalformedStatement tokens) (ahead : start.upcoming = tokens ++ ending :: rest)
  (separator : ending.kind ∈ separators)

include malformed ahead separator

theorem starts : start.kind ≠ .ifWord ∧ start.kind ≠ .whileWord := by
  obtain ⟨_, _, noChoice, noLoop, _⟩ := separators_spec _ separator
  cases tokens with
  | nil => exact kind_of_upcoming ahead ▸ ⟨noChoice, noLoop⟩
  | cons token others =>
      have other := malformed.plain token List.mem_cons_self
      rw [kind_of_upcoming ahead]
      constructor <;> intro same <;> simp [same] at other

theorem error : ∃ error, (Sipl.trees.statement start).result = .error error := by
  obtain ⟨noChoice, noLoop⟩ := malformed.starts ahead separator
  obtain ⟨barred, apart, _⟩ := separators_spec _ separator
  refine malformed.fails.anywhere (fun (stmt, errors) read => ?_) ahead
    (alike_of_separator (by decide) apart)
  have name : start.kind = .ident := by
    by_contra other
    rw [statement_eq_fail noChoice noLoop other] at read
    cases read
  have yields : (Sipl.trees.statement start).Yields (stmt, errors) _ := ⟨read, rfl⟩
  obtain ⟨_, _, _, _, rfl⟩ := (yields_assignment name).mp yields
  obtain ⟨others, _, behind⟩ := (meets_assignment noChoice noLoop).way.exists_split ahead barred
  refine ⟨_, others, (portable_assignment name yields).mono ?_, behind⟩
  exact fun _ _ _ ⟨_, again⟩ => ⟨_, again.1⟩

theorem skipped : ∃ error stop,
    (statementOrSkip start).Yields [] [error] stop ∧
      stop.upcoming = ending :: rest ∧ error.token ∈ tokens ++ [ending] := by
  obtain ⟨noChoice, noLoop⟩ := malformed.starts ahead separator
  obtain ⟨barred, _, _, _, listed⟩ := separators_spec _ separator
  obtain ⟨error, failed⟩ := malformed.error ahead separator
  exact ⟨error, skipped_segment (meets_assignment noChoice noLoop) failed ahead barred listed
    fun token member => plain_spec _ (malformed.plain token member)⟩

end MalformedStatement

theorem Statements.tokens_eq_first {others : Statements} (formed : others.Formed) :
    others.first.kind ∈ separators ∧ ∃ behind, others.tokens = others.first :: behind := by
  cases others with
  | closed closing =>
      have isEnd : closing.kind = .endWord := formed
      exact ⟨by simp [separators, first, isEnd], [], rfl⟩
  | next semicolon stmt others => exact ⟨by simp [separators, first, formed.1], _, rfl⟩

/-- What comes of reading a statement in front of a separator, or of skipping it. -/
def Statement.Recovers (stmt : Statement) : Prop :=
  ∀ {start : Cursor} {ending : Token} {rest : List Token},
    start.upcoming = stmt.tokens ++ ending :: rest → ending.kind ∈ separators →
      ∃ errors stop, (statementOrSkip start).Yields stmt.trees errors stop ∧
        stop.upcoming = ending :: rest ∧ List.Forall₂ Segment.Reports (stmt.segments ending) errors

def Block.Recovers (block : Block) : Prop :=
  ∀ {start : Cursor} {rest : List Token}, start.upcoming = block.tokens ++ rest →
    ∃ errors stop, (Sipl.trees.block start).Yields block.tree errors stop ∧ stop.upcoming = rest ∧
      stop.previousSpan = block.last.site.span ∧
      List.Forall₂ Segment.Reports block.segments errors

/-- What comes of the statements behind one that was read or skipped. -/
def Statements.Recovers (others : Statements) : Prop :=
  ∀ {start stop : Cursor} {rest : List Token} {trees : List Stmt} {errors : List SyntaxError},
    (statementOrSkip start).Yields trees errors stop →
      stop.upcoming = others.tokens ++ rest →
      ∃ more ended,
        (Sipl.trees.statements start).Yields (trees ++ others.trees) (errors ++ more) ended ∧
        ended.upcoming = others.last :: rest ∧ others.last.kind = .endWord ∧
        List.Forall₂ Segment.Reports others.segments more

/-- A condition between the word in front of it and the one behind it. -/
theorem Part.IsCondition.between {word : Kind} {cond : Part Expr}
    (condition : cond.IsCondition word) {first opening : Token}
    (ahead : start.upcoming = first :: (cond.tokens ++ opening :: rest))
    (inside : first.kind ≠ .eof) (same : opening.kind = word) (other : word ≠ .eof := by decide) :
    ∃ stop, (Sipl.trees.disjunction start.advance).Yields cond.tree stop ∧ stop.kind = word ∧
      stop.advance.upcoming = rest := by
  obtain ⟨stop, read, behind⟩ := condition.anywhere (upcoming_advance inside ahead) same
  exact ⟨stop, read, (kind_of_upcoming behind).trans same,
    upcoming_advance (same ▸ other) behind⟩

theorem siteBetween_eq {first last : Token} {others : List Token} {stop : Cursor}
    (ahead : start.upcoming = first :: others) (span : stop.previousSpan = last.site.span) :
    (⟨start.current.site.line, start.current.site.span.merge stop.previousSpan⟩ : Site) =
      Concrete.siteBetween first last := by
  rw [(List.cons.inj ahead).1, span]
  rfl

mutual

theorem Statement.recovers (stmt : Statement) (formed : stmt.Formed) : stmt.Recovers := by
  intro start ending rest ahead separator
  obtain ⟨_, apart, _⟩ := separators_spec _ separator
  match stmt with
  | .assign part =>
      obtain ⟨stop, read, behind⟩ := Part.IsAssignment.anywhere formed ahead apart
      exact ⟨[], stop, Reading.yields_orSkip.mpr (.inl ⟨_, read, rfl⟩), behind, .nil⟩
  | .ifThen ifWord cond thenWord thenBlock =>
      obtain ⟨isIf, condition, isThen, formedThen⟩ := formed
      simp only [Statement.tokens, List.cons_append, List.append_assoc] at ahead
      have choice := (kind_of_upcoming ahead).trans isIf
      obtain ⟨afterCond, read, word, behind⟩ := condition.between ahead (by simp [isIf]) isThen
      obtain ⟨errors, stop, block, left, span, reports⟩ := thenBlock.recovers formedThen behind
      have other : stop.kind ≠ .elseWord := by
        rw [kind_of_upcoming left]
        exact fun same => apart (same ▸ by decide)
      refine ⟨errors, stop, Reading.yields_orSkip.mpr (.inl ⟨_, ?_, rfl⟩), left, reports⟩
      rw [← siteBetween_eq ahead span]
      exact (yields_ifStatement choice).mpr
        ⟨_, _, read, word, _, _, _, block, .inr ⟨other, rfl, rfl, rfl⟩⟩
  | .ifElse ifWord cond thenWord thenBlock elseWord elseBlock =>
      obtain ⟨isIf, condition, isThen, formedThen, isElse, formedElse⟩ := formed
      simp only [Statement.tokens, List.cons_append, List.append_assoc] at ahead
      have choice := (kind_of_upcoming ahead).trans isIf
      obtain ⟨afterCond, read, word, behind⟩ := condition.between ahead (by simp [isIf]) isThen
      obtain ⟨errors, middle, first, also, _, reports⟩ := thenBlock.recovers formedThen behind
      have again := (kind_of_upcoming also).trans isElse
      obtain ⟨more, stop, second, left, span, others⟩ :=
        elseBlock.recovers formedElse (upcoming_advance (by simp [isElse]) also)
      refine ⟨errors ++ more, stop, Reading.yields_orSkip.mpr (.inl ⟨_, ?_, rfl⟩), left,
        List.rel_append reports others⟩
      rw [← siteBetween_eq ahead span]
      exact (yields_ifStatement choice).mpr
        ⟨_, _, read, word, _, _, _, first, .inl ⟨again, _, _, second, rfl, rfl⟩⟩
  | .whileLoop whileWord cond doWord body =>
      obtain ⟨isWhile, condition, isDo, formedBody⟩ := formed
      simp only [Statement.tokens, List.cons_append, List.append_assoc] at ahead
      have loop := (kind_of_upcoming ahead).trans isWhile
      obtain ⟨afterCond, read, word, behind⟩ := condition.between ahead (by simp [isWhile]) isDo
      obtain ⟨errors, stop, block, left, span, reports⟩ := body.recovers formedBody behind
      refine ⟨errors, stop, Reading.yields_orSkip.mpr (.inl ⟨_, ?_, rfl⟩), left, reports⟩
      rw [← siteBetween_eq ahead span]
      exact (yields_whileStatement loop).mpr ⟨_, _, read, word, _, block, rfl⟩
  | .malformed tokens =>
      obtain ⟨error, stop, yields, behind, member⟩ :=
        MalformedStatement.skipped formed ahead separator
      exact ⟨[error], stop, yields, behind, .cons member .nil⟩

theorem Block.recovers (block : Block) (formed : block.Formed) : block.Recovers := by
  intro start rest ahead
  match block with
  | .mk opening first others =>
      obtain ⟨isBegin, formedFirst, formedOthers⟩ := formed
      obtain ⟨separator, tail, whole⟩ := Statements.tokens_eq_first formedOthers
      simp only [Block.tokens, List.cons_append, List.append_assoc] at ahead
      have opened := (kind_of_upcoming ahead).trans isBegin
      have inner := upcoming_advance (by simp [isBegin]) ahead
      rw [whole, List.cons_append] at inner
      obtain ⟨errors, middle, one, left, reports⟩ := first.recovers formedFirst inner separator
      rw [← List.cons_append, ← whole] at left
      obtain ⟨more, ended, listed, last, closed, rests⟩ := others.recovers formedOthers one left
      have closing := (kind_of_upcoming last).trans closed
      have done := (closeBlock_of_end closing).mpr ⟨rfl, rfl⟩
      have span : ended.advance.previousSpan = others.last.site.span := by
        rw [((Passes.refl ended).concat (inside_of_kind closing)).previousSpan,
          (List.cons.inj last).1]
      refine ⟨errors ++ more, ended.advance, ?_, upcoming_advance (by simp [closed]) last, span,
        List.rel_append reports rests⟩
      refine (yields_block opened).mpr ⟨_, _, _, listed, [], done, ?_, List.append_nil _⟩
      rw [Block.tree, ← siteBetween_eq ahead span]
      rfl

theorem Statements.recovers (others : Statements) (formed : others.Formed) : others.Recovers := by
  intro start stop rest trees errors one ahead
  match others with
  | .closed closing =>
      have ended : stop.kind = .endWord := (kind_of_upcoming ahead).trans formed
      exact ⟨[], stop, yields_statements.mpr ⟨_, _, _, one, .inr ⟨by simp [ended],
        (List.append_nil _).symm, (List.append_nil _).symm, rfl⟩⟩, ahead, formed, .nil⟩
  | .next semicolon stmt others =>
      obtain ⟨isSemicolon, formedStmt, formedOthers⟩ := formed
      obtain ⟨separator, tail, whole⟩ := Statements.tokens_eq_first formedOthers
      simp only [Statements.tokens, List.cons_append, List.append_assoc] at ahead
      have semicolon := (kind_of_upcoming ahead).trans isSemicolon
      have inner := upcoming_advance (by simp [isSemicolon]) ahead
      rw [whole, List.cons_append] at inner
      obtain ⟨met, middle, next, left, reports⟩ := stmt.recovers formedStmt inner separator
      rw [← List.cons_append, ← whole] at left
      obtain ⟨more, ended, listed, last, closed, rests⟩ := others.recovers formedOthers next left
      exact ⟨met ++ more, ended, yields_statements.mpr ⟨_, _, _, one, .inl ⟨semicolon, _, _,
        listed, rfl, rfl⟩⟩, last, closed, List.rel_append reports rests⟩

end

/-- What may stand behind a declaration. -/
def declarationEnds : List Kind := [.semicolon, .beginWord, .funcWord]

theorem declarationEnds_spec : ∀ kind ∈ declarationEnds, kind ∉ exprKinds ∧
    KindSet.declarationBoundary.contains kind = true := by
  decide

theorem plainDeclaration_spec (kind : Kind)
    (plain : kind ∉ [.funcWord, .semicolon, .beginWord, .eof]) :
    kind ≠ .eof ∧ KindSet.declarationBoundary.contains kind = false := by
  revert plain
  cases kind <;> decide

/-- A malformed declaration in front of what may end it is skipped. -/
theorem MalformedDeclaration.skipped (malformed : MalformedDeclaration tokens)
    (ahead : start.upcoming = tokens ++ ending :: rest) (ends : ending.kind ∈ declarationEnds) :
    start.kind = .funcWord ∧ ∃ error stop,
      (declarationOrSkip start).Yields [] [error] stop ∧
        stop.upcoming = ending :: rest ∧ error.token ∈ tokens ++ [ending] := by
  obtain ⟨apart, listed⟩ := declarationEnds_spec _ ends
  obtain ⟨word, others, rfl, isFunc, plain⟩ := malformed.plain
  have here := (kind_of_upcoming ahead).trans isFunc
  have behind := upcoming_advance (by simp [isFunc]) ahead
  have meets := meets_function start.current start.advance
  obtain ⟨error, failed⟩ : ∃ error,
      (Sipl.trees.function start.current start.advance).result = .error error := by
    refine malformed.fails.anywhere (fun (found, errors) read => ?_) ahead
      (alike_of_separator (by decide) apart)
    have yields : (Sipl.trees.function start.current start.advance).Yields (found, errors) _ :=
      ⟨read, rfl⟩
    obtain rfl := (declares_of_function yields).2
    obtain ⟨others, _, left⟩ := meets.way.exists_split behind apart
    refine ⟨_, others, (portable_function here yields).mono ?_, left⟩
    exact fun _ _ _ ⟨_, again⟩ => ⟨_, again.1⟩
  obtain ⟨stop, yields, left, member⟩ := skipped_segment meets failed behind apart listed
    fun token member => plainDeclaration_spec _ (plain token member)
  exact ⟨here, error, stop, yields, left, List.mem_cons_of_mem _ member⟩

theorem Declaration.starts {one : Declaration} (formed : one.Formed) :
    ∃ word others, one.tokens = word :: others ∧ word.kind = .funcWord := by
  cases one with
  | function part =>
      obtain ⟨start, stop, ahead, listed, word, _⟩ := formed
      change ∃ word others, part.tokens = word :: others ∧ word.kind = .funcWord
      cases whole : part.tokens with
      | nil =>
          rw [whole] at ahead
          have same : start.kind = stop.kind := kind_of_upcoming ahead
          rw [← same, word] at listed
          exact absurd listed (by decide)
      | cons first others =>
          rw [whole] at ahead
          exact ⟨first, others, rfl, (kind_of_upcoming ahead).symm.trans word⟩
  | malformed tokens =>
      obtain ⟨word, others, whole, isFunc, _⟩ := MalformedDeclaration.plain formed
      exact ⟨word, others, whole, isFunc⟩

theorem Declaration.recovers {one : Declaration} (formed : one.Formed)
    (ahead : start.upcoming = one.tokens ++ ending :: rest) (ends : ending.kind ∈ declarationEnds) :
    start.kind = .funcWord ∧ ∃ errors stop,
      (declarationOrSkip start).Yields one.trees
          errors stop ∧ stop.upcoming = ending :: rest ∧
        List.Forall₂ Segment.Reports (one.segments ending) errors := by
  cases one with
  | function part =>
      obtain ⟨stop, word, read, behind⟩ :=
        Part.IsFunction.anywhere formed ahead (declarationEnds_spec _ ends).1
      exact ⟨word, [], stop, Reading.yields_orSkip.mpr (.inl ⟨_, read, rfl⟩), behind, .nil⟩
  | malformed tokens =>
      obtain ⟨word, error, stop, yields, behind, member⟩ :=
        MalformedDeclaration.skipped formed ahead ends
      exact ⟨word, [error], stop, yields, behind, .cons member .nil⟩

/-- What the tokens of declarations, and the block behind them, start with. -/
theorem Declarations.first_eq {declarations : Declarations} (formed : declarations.Formed)
    {opening : Token} (isBegin : opening.kind = .beginWord) (rest : List Token) :
    (declarations.tokens.headD opening).kind ∈ [.beginWord, .funcWord] ∧
      ∃ behind, declarations.tokens ++ opening :: rest =
        declarations.tokens.headD opening :: behind := by
  cases declarations with
  | none => exact ⟨by simp [tokens, isBegin], rest, rfl⟩
  | bare one others =>
      obtain ⟨word, tail, whole, isFunc⟩ := Declaration.starts formed.1
      simp [tokens, whole, isFunc]
  | ended one semicolon others =>
      obtain ⟨word, tail, whole, isFunc⟩ := Declaration.starts formed.1
      simp [tokens, whole, isFunc]

theorem Declarations.recovers {declarations : Declarations} (formed : declarations.Formed)
    {opening : Token} (isBegin : opening.kind = .beginWord)
    (ahead : start.upcoming = declarations.tokens ++ opening :: rest) :
    ∃ errors stop, (Sipl.trees.functions start).Yields declarations.trees errors stop ∧
      stop.upcoming = opening :: rest ∧
      List.Forall₂ Segment.Reports (declarations.segments opening) errors := by
  induction declarations generalizing start with
  | none =>
      have other : start.kind ≠ .funcWord := by simp [kind_of_upcoming ahead, isBegin]
      refine ⟨[], start, ?_, ahead, .nil⟩
      rw [functions_of_other other]
      exact ⟨rfl, rfl, rfl⟩
  | bare one others ih =>
      obtain ⟨formedOne, formedOthers, last⟩ := formed
      obtain ⟨starts, tail, whole⟩ := first_eq formedOthers isBegin rest
      have ends : (others.tokens.headD opening).kind ∈ declarationEnds :=
        List.mem_cons_of_mem _ starts
      rw [tokens, List.append_assoc, whole] at ahead
      obtain ⟨word, errors, later, read, left, reports⟩ :=
        Declaration.recovers formedOne ahead ends
      have other : later.kind ≠ .semicolon := by
        rw [kind_of_upcoming left]
        exact fun same => absurd (same ▸ starts) (by decide)
      obtain ⟨more, stop, behind, ended, rests⟩ := ih formedOthers (whole ▸ left)
      refine ⟨errors ++ more, stop, ?_, ended, List.rel_append reports rests⟩
      refine (yields_functions word).mpr ⟨_, _, _, read, .inr ?_⟩
      by_cases none : one.trees = []
      · refine .inl ⟨other, none, _, ?_, rfl⟩
        rw [trees, none]
        exact behind
      · obtain rfl := last.resolve_right none
        have block : later.kind ≠ .funcWord := by
          rw [kind_of_upcoming left]
          exact fun same => absurd (isBegin.symm.trans same) (by decide)
        rw [functions_of_other block] at behind
        obtain ⟨_, rfl, rfl⟩ := Recovered.yields_done.mp behind
        exact .inr ⟨other, none, (List.append_nil _).symm, (List.append_nil _).symm, rfl⟩
  | ended one semicolon others ih =>
      obtain ⟨formedOne, isSemicolon, formedOthers⟩ := formed
      simp only [tokens, List.append_assoc, List.cons_append] at ahead
      obtain ⟨word, errors, later, read, left, reports⟩ :=
        Declaration.recovers formedOne ahead (by simp [declarationEnds, isSemicolon])
      have again := (kind_of_upcoming left).trans isSemicolon
      obtain ⟨more, stop, others, behind, rests⟩ :=
        ih formedOthers (upcoming_advance (by simp [isSemicolon]) left)
      exact ⟨errors ++ more, stop, (yields_functions word).mpr ⟨_, _, _, read, .inl ⟨again, _, _,
        others, rfl, rfl⟩⟩, behind, List.rel_append reports rests⟩

/-- What was read is the tree of the draft, and its errors are those of the segments. -/
structure Program.RecoversAs (draft : Program) (parsed : Parsed) : Prop where
  program : parsed.program? = some draft.tree
  errors : List.Forall₂ Segment.Reports draft.segments parsed.errors

theorem Program.Formed.closed {draft : Program} (formed : draft.Formed) :
    Token.Closed draft.tokens := by
  have whole : draft.tokens =
      (draft.word :: (draft.declarations.tokens ++ draft.body.tokens)) ++ [draft.mark] := by
    simp [tokens]
  rw [whole, Token.Closed, List.getLast?_concat, Option.map_some, formed.mark]

theorem Block.tokens_eq_opening {block : Block} (formed : block.Formed) :
    block.opening.kind = .beginWord ∧ ∃ behind, block.tokens = block.opening :: behind := by
  cases block with
  | mk opening first others => exact ⟨formed.1, _, rfl⟩

theorem Program.recovers {draft : Program} (formed : draft.Formed) :
    draft.RecoversAs (Parsed.ofTokens draft.tokens formed.closed) := by
  have headed : draft.tokens.head?.map Token.kind = some .programWord :=
    congrArg some formed.word
  have word := Parsed.kind_start formed.closed headed
  have ahead : (Cursor.start draft.tokens formed.closed).advance.upcoming =
      draft.declarations.tokens ++ (draft.body.tokens ++ [draft.mark]) :=
    upcoming_advance (by simp [formed.word] : draft.word.kind ≠ .eof)
      (Parsed.upcoming_start formed.closed)
  obtain ⟨isBegin, tail, whole⟩ := Block.tokens_eq_opening formed.body
  rw [whole, List.cons_append] at ahead
  obtain ⟨errors, later, read, left, reports⟩ :=
    Declarations.recovers formed.declarations isBegin ahead
  rw [← List.cons_append, ← whole] at left
  obtain ⟨more, stop, block, ended, _, rests⟩ := draft.body.recovers formed.body left
  obtain ⟨functionTrees, functionErrors, rfl⟩ := read
  obtain ⟨bodyTree, bodyErrors, rfl⟩ := block
  constructor
  · rw [Parsed.ofTokens, Parsed.program?_ofCursor word, functionTrees, bodyTree]
    rfl
  · have mark := (kind_of_upcoming ended).trans formed.mark
    rw [Parsed.ofTokens, Parsed.errors_ofCursor word]
    simp only [functionErrors, bodyErrors, Cursor.atEnd, mark, beq_self_eq_true, Bool.not_true,
      Bool.and_false, Bool.false_eq_true, if_false, List.append_nil]
    exact List.rel_append reports rests

/-- Each malformed segment of a draft is reported once, in the segment or at the token behind it,
and what is read is made of the well-formed declarations and statements.  It is what is read without
the malformed segments, where only blocks that nothing is left of are reported. -/
theorem recovery_is_precise (draft : Program) (formed : draft.Formed) :
    draft.RecoversAs (Parsed.ofTokens draft.tokens formed.closed) ∧
      draft.kept.RecoversAs (Parsed.ofTokens draft.kept.tokens formed.kept.closed) ∧
      (Parsed.ofTokens draft.kept.tokens formed.kept.closed).program? =
        (Parsed.ofTokens draft.tokens formed.closed).program? ∧
      ∀ segment ∈ draft.kept.segments, segment.tokens = [] := by
  have recovers := Program.recovers formed
  have kept := Program.recovers formed.kept
  refine ⟨recovers, kept, ?_, draft.emptied⟩
  rw [recovers.program, kept.program, draft.tree_kept]

-- The parts of `program func 1 ; func f() = 2 begin 42 ; x := 3 ; while x do begin ) end end`.

def soundFunction : Part Function :=
  ⟨[⟨.funcWord, "func", ⟨1, ⟨17, 21⟩⟩, none⟩, ⟨.ident, "f", ⟨1, ⟨22, 23⟩⟩, none⟩,
    ⟨.leftParen, "(", ⟨1, ⟨23, 24⟩⟩, none⟩, ⟨.rightParen, ")", ⟨1, ⟨24, 25⟩⟩, none⟩,
    ⟨.eq, "=", ⟨1, ⟨26, 27⟩⟩, none⟩, ⟨.number, "2", ⟨1, ⟨28, 29⟩⟩, some (.int 2)⟩],
    ⟨⟨1, ⟨17, 29⟩⟩, "f", [], .literal ⟨1, ⟨28, 29⟩⟩ (.int 2)⟩⟩

def soundAssignment : Part Stmt :=
  ⟨[⟨.ident, "x", ⟨1, ⟨41, 42⟩⟩, none⟩, ⟨.assign, ":=", ⟨1, ⟨43, 45⟩⟩, none⟩,
    ⟨.number, "3", ⟨1, ⟨46, 47⟩⟩, some (.int 3)⟩],
    .assign ⟨1, ⟨41, 47⟩⟩ "x" (.literal ⟨1, ⟨46, 47⟩⟩ (.int 3))⟩

def soundCondition : Part Expr :=
  ⟨[⟨.ident, "x", ⟨1, ⟨56, 57⟩⟩, none⟩], .var ⟨1, ⟨56, 57⟩⟩ "x"⟩

def brokenDraft : Program where
  word := ⟨.programWord, "program", ⟨1, ⟨0, 7⟩⟩, none⟩
  declarations :=
    .ended (.malformed [⟨.funcWord, "func", ⟨1, ⟨8, 12⟩⟩, none⟩,
        ⟨.number, "1", ⟨1, ⟨13, 14⟩⟩, some (.int 1)⟩])
      ⟨.semicolon, ";", ⟨1, ⟨15, 16⟩⟩, none⟩ (.bare (.function soundFunction) .none)
  body :=
    .mk ⟨.beginWord, "begin", ⟨1, ⟨30, 35⟩⟩, none⟩
      (.malformed [⟨.number, "42", ⟨1, ⟨36, 38⟩⟩, some (.int 42)⟩])
      (.next ⟨.semicolon, ";", ⟨1, ⟨39, 40⟩⟩, none⟩ (.assign soundAssignment)
        (.next ⟨.semicolon, ";", ⟨1, ⟨48, 49⟩⟩, none⟩
          (.whileLoop ⟨.whileWord, "while", ⟨1, ⟨50, 55⟩⟩, none⟩ soundCondition
            ⟨.doWord, "do", ⟨1, ⟨58, 60⟩⟩, none⟩
            (.mk ⟨.beginWord, "begin", ⟨1, ⟨61, 66⟩⟩, none⟩
              (.malformed [⟨.rightParen, ")", ⟨1, ⟨67, 68⟩⟩, none⟩])
              (.closed ⟨.endWord, "end", ⟨1, ⟨69, 72⟩⟩, none⟩)))
          (.closed ⟨.endWord, "end", ⟨1, ⟨73, 76⟩⟩, none⟩)))
  mark := ⟨.eof, "", ⟨1, ⟨76, 76⟩⟩, none⟩

theorem formed_brokenDraft : brokenDraft.Formed := by
  have function : soundFunction.IsFunction :=
    Read.intro (.start (soundFunction.tokens ++ [brokenDraft.mark]) (by decide)) rfl
      ⟨rfl, by cbv, rfl⟩ (by cbv) (by decide)
  have assignment : soundAssignment.IsAssignment :=
    Read.intro (.start (soundAssignment.tokens ++ [brokenDraft.mark]) (by decide)) rfl
      ⟨rfl, by cbv, rfl⟩ (by cbv) (by decide)
  have condition : soundCondition.IsCondition .doWord :=
    Read.intro (.start (soundCondition.tokens ++ [⟨.doWord, "do", ⟨1, ⟨58, 60⟩⟩, none⟩,
      brokenDraft.mark]) (by decide)) rfl ⟨by cbv, rfl⟩ (by cbv) (by decide)
  have number : MalformedStatement [⟨.number, "42", ⟨1, ⟨36, 38⟩⟩, some (.int 42)⟩] :=
    ⟨by decide, .start [_, brokenDraft.mark] (by decide), brokenDraft.mark, [], _, rfl, by decide,
      by cbv⟩
  have paren : MalformedStatement [⟨.rightParen, ")", ⟨1, ⟨67, 68⟩⟩, none⟩] :=
    ⟨by decide, .start [_, brokenDraft.mark] (by decide), brokenDraft.mark, [], _, rfl, by decide,
      by cbv⟩
  have unnamed : MalformedDeclaration [⟨.funcWord, "func", ⟨1, ⟨8, 12⟩⟩, none⟩,
      ⟨.number, "1", ⟨1, ⟨13, 14⟩⟩, some (.int 1)⟩] :=
    ⟨⟨_, _, rfl, rfl, by decide⟩, .start [_, _, brokenDraft.mark] (by decide), brokenDraft.mark,
      [], _, rfl, by decide, by cbv⟩
  exact ⟨rfl, ⟨unnamed, rfl, function, trivial, .inl rfl⟩,
    ⟨rfl, number, rfl, assignment, rfl, ⟨rfl, condition, rfl, rfl, paren, rfl⟩, rfl⟩, rfl⟩

theorem recovery_is_precise_of_brokenDraft :
    ∃ formed : brokenDraft.Formed,
      brokenDraft.RecoversAs (Parsed.ofTokens brokenDraft.tokens formed.closed) ∧
        brokenDraft.kept.RecoversAs (Parsed.ofTokens brokenDraft.kept.tokens formed.kept.closed) ∧
        (Parsed.ofTokens brokenDraft.kept.tokens formed.kept.closed).program? =
          (Parsed.ofTokens brokenDraft.tokens formed.closed).program? ∧
        ∀ segment ∈ brokenDraft.kept.segments, segment.tokens = [] :=
  ⟨formed_brokenDraft, recovery_is_precise brokenDraft formed_brokenDraft⟩

end Draft

end Sipl
