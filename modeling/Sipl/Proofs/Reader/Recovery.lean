import Mathlib.Data.List.Basic
import Sipl.Proofs.Reader.Ahead
import Sipl.Proofs.Reader.Builds
import Sipl.Proofs.Reader.Declares
import Sipl.Proofs.Reader.Passes
import Sipl.Proofs.Reader.Tried

namespace Sipl

/-- The first token of a stream whose kind is in the set, and the tokens behind it. -/
def FirstOf (set : KindSet) (tokens : List Token) (found : Token) (rest : List Token) : Prop :=
  set.contains found.kind = true ∧ ∃ skipped, tokens = skipped ++ found :: rest ∧
    ∀ token ∈ skipped, token.kind ≠ .eof ∧ set.contains token.kind = false

/-- No token of a stream has a kind that is in the set. -/
def NoneOf (set : KindSet) (tokens : List Token) : Prop :=
  ∀ token ∈ tokens, set.contains token.kind = false

/-- What stands in front of some tokens ends before one that is none of them. -/
theorem exists_split_of_not_mem {front left skipped rest : List Token} {found : Token}
    (whole : front ++ left = skipped ++ found :: rest) (missing : found ∉ front) :
    ∃ others, skipped = front ++ others ∧ left = others ++ found :: rest := by
  rcases List.append_eq_append_iff.mp whole with ⟨others, before, behind⟩ | ⟨others, before, behind⟩
  · exact ⟨others, before, behind⟩
  · cases others with
    | nil => exact ⟨[], by simpa using before.symm, by simpa using behind.symm⟩
    | cons first more =>
        obtain ⟨rfl, _⟩ := List.cons.inj behind
        exact absurd (by simp [before]) missing

/-- A token that cannot be passed is ahead wherever reading stops. -/
theorem Meets.exists_split {kinds : List Kind} {sort : SyntaxError → Prop}
    {tokens left skipped rest : List Token} {errors : List SyntaxError} {found : Token}
    (meets : Meets kinds sort tokens errors left) (ahead : tokens = skipped ++ found :: rest)
    (barred : found.kind ∉ kinds) :
    ∃ others, others <:+ skipped ∧ left = others ++ found :: rest := by
  induction meets generalizing skipped with
  | none passed =>
      obtain ⟨others, rfl, behind⟩ :=
        exists_split_of_not_mem ahead fun member => barred (passed found member)
      exact ⟨others, List.suffix_append _ _, behind⟩
  | error passed _ _ ih =>
      obtain ⟨others, rfl, behind⟩ :=
        exists_split_of_not_mem ahead fun member => barred (passed found member)
      obtain ⟨more, shorter, left⟩ := ih behind
      exact ⟨more, shorter.trans (List.suffix_append _ _), left⟩

namespace Cursor

variable {set : KindSet} {cursor : Cursor} {found : Token} {rest : List Token}

theorem kind_of_upcoming (ahead : cursor.upcoming = found :: rest) : cursor.kind = found.kind :=
  congrArg Token.kind (List.cons.inj ahead).1

theorem upcoming_advance (inside : found.kind ≠ .eof) (ahead : cursor.upcoming = found :: rest) :
    cursor.advance.upcoming = rest := by
  rw [upcoming_eq_cons (kind_of_upcoming ahead ▸ inside)] at ahead
  exact (List.cons.inj ahead).2

theorem upcoming_skipTo (first : FirstOf set cursor.upcoming found rest) :
    (cursor.skipTo set).upcoming = found :: rest := by
  obtain ⟨listed, skipped, ahead, free⟩ := first
  induction skipped generalizing cursor with
  | nil =>
      have stays : cursor.skipTo set = cursor := by
        rw [skipTo, dite_eq_ite, ite_eq_left_iff]
        intro _
        rw [kind_of_upcoming ahead, if_pos listed]
      rw [stays]
      exact ahead
  | cons token others ih =>
      obtain ⟨⟨inside, other⟩, later⟩ := List.forall_mem_cons.mp free
      have here := kind_of_upcoming ahead
      rw [skipTo, dif_neg (here ▸ inside), here, other, if_neg Bool.false_ne_true]
      exact ih (upcoming_advance inside ahead) later

theorem kind_skipTo (none : NoneOf set cursor.upcoming) : (cursor.skipTo set).kind = .eof := by
  obtain ⟨skipped, skips⟩ := exists_skips set cursor
  have member : (cursor.skipTo set).current ∈ cursor.upcoming := by
    rw [skips.passes.upcoming]
    exact List.mem_append_right skipped List.mem_cons_self
  have free : set.contains (cursor.skipTo set).kind = false := none _ member
  exact skips.stops.resolve_right (Bool.eq_false_iff.mp free)

end Cursor

/-- Behind a reading that fails only its error is reported, and reading goes on at the boundary. -/
theorem Reading.orSkip_of_error {start : Cursor} {α : Type}
    {reading : Reading start (α × List SyntaxError)} {error : SyntaxError} (boundary : KindSet)
    (failed : reading.result = .error error) :
    (trees.orSkip reading boundary).value = [] ∧ (trees.orSkip reading boundary).errors = [error] ∧
      (trees.orSkip reading boundary).stop = reading.stop.skipTo boundary := by
  obtain ⟨result, middle, bound⟩ := reading
  cases failed
  exact ⟨rfl, rfl, Keeper.stop_skip boundary middle⟩

namespace Reader

open Keeper

/-- Reading an assignment does not pass the separator in front of the next statement, or the word
that closes the block. -/
theorem firstOf_statement {cursor : Cursor} {found : Token} {rest : List Token}
    (first : FirstOf .statementBoundary cursor.upcoming found rest)
    (separator : found.kind = .semicolon ∨ found.kind = .endWord) :
    FirstOf .statementBoundary (trees.statement cursor).stop.upcoming found rest := by
  obtain ⟨listed, skipped, ahead, free⟩ := first
  have start : cursor.kind ≠ .ifWord ∧ cursor.kind ≠ .whileWord := by
    cases skipped with
    | nil =>
        rw [Cursor.kind_of_upcoming ahead]
        rcases separator with same | same <;> simp [same]
    | cons token others =>
        rw [Cursor.kind_of_upcoming ahead]
        have other := (free token List.mem_cons_self).2
        constructor <;> intro same <;> rw [same] at other <;> cases other
  have barred : found.kind ∉ assignmentKinds := by
    rcases separator with same | same <;> rw [same] <;> decide
  obtain ⟨others, shorter, behind⟩ :=
    (meets_assignment start.1 start.2).way.exists_split ahead barred
  exact ⟨listed, others, behind, fun token member => free token (shorter.subset member)⟩

/-- Where reading goes on behind a statement, which may have been skipped in part. -/
def behindStatement (cursor : Cursor) : Cursor :=
  (statementOrSkip cursor).stop

/-- The statements that are tried from a place on: one there, and another one behind every
semicolon. -/
inductive TriesStatement (start : Cursor) : Cursor → Prop where
  | first : TriesStatement start start
  | next {cursor : Cursor} (earlier : TriesStatement start cursor)
      (separated : (behindStatement cursor).kind = .semicolon) :
      TriesStatement start (behindStatement cursor).advance

theorem statements_of_separated {cursor : Cursor}
    (separated : (behindStatement cursor).kind = .semicolon) :
    (trees.statements cursor).errors = (statementOrSkip cursor).errors ++
        (trees.statements (behindStatement cursor).advance).errors ∧
      (trees.statements cursor).stop =
        (trees.statements (behindStatement cursor).advance).stop := by
  have tail := Recovered.yields_self (trees.statements (behindStatement cursor).advance)
  exact (yields_statements.mpr ⟨_, _, _, Recovered.yields_self (statementOrSkip cursor),
    .inl ⟨separated, _, _, tail, rfl, rfl⟩⟩).2

theorem statements_of_other {cursor : Cursor}
    (other : (behindStatement cursor).kind ≠ .semicolon) :
    (trees.statements cursor).errors = (statementOrSkip cursor).errors ∧
      (trees.statements cursor).stop = behindStatement cursor := by
  exact (yields_statements.mpr ⟨_, _, _, Recovered.yields_self (statementOrSkip cursor),
    .inr ⟨other, rfl, rfl, rfl⟩⟩).2

/-- Whatever is tried behind the first statement is a part of the same block. -/
theorem TriesStatement.statements_suffix {start cursor : Cursor}
    (tries : TriesStatement start cursor) :
    (trees.statements cursor).errors <:+ (trees.statements start).errors ∧
      (trees.statements cursor).stop = (trees.statements start).stop := by
  induction tries with
  | first => exact ⟨List.suffix_rfl, rfl⟩
  | next _ separated ih =>
      obtain ⟨errors, stop⟩ := statements_of_separated separated
      exact ⟨(errors ▸ List.suffix_append _ _).trans ih.1, stop ▸ ih.2⟩

theorem errors_subset_statements (cursor : Cursor) :
    (statementOrSkip cursor).errors ⊆ (trees.statements cursor).errors := by
  by_cases separated : (behindStatement cursor).kind = .semicolon
  · rw [(statements_of_separated separated).1]
    exact List.subset_append_left _ _
  · rw [(statements_of_other separated).1]
    exact List.Subset.refl _

theorem block_of_opened {cursor : Cursor} (opened : cursor.kind = .beginWord) :
    (trees.block cursor).errors = (trees.statements cursor.advance).errors ++
        (trees.closeBlock (trees.statements cursor.advance).stop).errors ∧
      (trees.block cursor).stop =
        (trees.closeBlock (trees.statements cursor.advance).stop).stop := by
  exact ((yields_block opened).mpr ⟨_, _, _, Recovered.yields_self _, _,
    Recovered.yields_self (trees.closeBlock _), rfl, rfl⟩).2

theorem stop_closeBlock {cursor : Cursor} (closed : cursor.kind = .endWord) :
    (trees.closeBlock cursor).stop = cursor.advance :=
  ((closeBlock_of_end closed).mpr ⟨rfl, rfl⟩).2.2

section Abandoned

variable {cursor : Cursor} {missing : Kind} {message : String}

/-- A block that lacks its first or last word is closed by an `end` at the next boundary. -/
theorem upcoming_abandonBlock {found : Token} {rest : List Token}
    (first : FirstOf .statementBoundary cursor.upcoming found rest)
    (closing : found.kind = .endWord) :
    (trees.abandonBlock cursor missing message).stop.upcoming = rest := by
  have skipped := Cursor.upcoming_skipTo first
  have here := (Cursor.kind_of_upcoming skipped).trans closing
  rw [stop_abandonBlock, Cursor.eat, if_pos here]
  exact Cursor.upcoming_advance (by simp [closing]) skipped

theorem kind_abandonBlock (none : NoneOf .statementBoundary cursor.upcoming) :
    (trees.abandonBlock cursor missing message).stop.kind = .eof := by
  have ended := Cursor.kind_skipTo none
  rw [stop_abandonBlock, Cursor.eat, if_neg (by simp [ended]), ended]

end Abandoned

theorem block_of_unopened {cursor : Cursor} (unopened : cursor.kind ≠ .beginWord) :
    (trees.block cursor).errors =
        [cursor.errorHere (.unexpectedToken .beginWord) "expected 'begin'"] ∧
      (trees.block cursor).stop =
        (trees.abandonBlock cursor .beginWord "expected 'begin'").stop := by
  exact ((yields_block_of_unopened unopened).mpr ⟨Recovered.yields_self _, rfl⟩).2

theorem kind_closeBlock {cursor : Cursor} (ended : cursor.kind = .eof) :
    (trees.closeBlock cursor).stop.kind = .eof := by
  have stays : cursor.skipTo .statementBoundary = cursor := by
    rw [Cursor.skipTo, dif_pos ended]
  rw [closeBlock_of_other (by simp [ended]), stop_abandonBlock, stays, Cursor.eat,
    if_neg (by simp [ended]), ended]

/-- A statement that is read has a block at the second place. -/
inductive HasBlock (cursor : Cursor) : Cursor → Prop where
  | thenBlock {cond : Expr} {afterCond : Cursor} (choice : cursor.kind = .ifWord)
      (condition : (trees.disjunction cursor.advance).Yields cond afterCond)
      (word : afterCond.kind = .thenWord) : HasBlock cursor afterCond.advance
  | elseBlock {cond : Expr} {afterCond : Cursor} (choice : cursor.kind = .ifWord)
      (condition : (trees.disjunction cursor.advance).Yields cond afterCond)
      (word : afterCond.kind = .thenWord)
      (again : (trees.block afterCond.advance).stop.kind = .elseWord) :
      HasBlock cursor (trees.block afterCond.advance).stop.advance
  | body {cond : Expr} {afterCond : Cursor} (loop : cursor.kind = .whileWord)
      (condition : (trees.disjunction cursor.advance).Yields cond afterCond)
      (word : afterCond.kind = .doWord) : HasBlock cursor afterCond.advance

/-- The errors of a block of a statement are among those of the statement, which goes on behind the
block with its other block, or ends there. -/
theorem HasBlock.read {cursor inner : Cursor} (has : HasBlock cursor inner) :
    ∃ stmt errors stop, (trees.statement cursor).Yields (stmt, errors) stop ∧
      (trees.block inner).errors ⊆ errors ∧
      ((trees.block inner).stop.kind = .elseWord ∧
          HasBlock cursor (trees.block inner).stop.advance ∨
        stop = (trees.block inner).stop) := by
  cases has with
  | @thenBlock cond afterCond choice condition word =>
      have first := Recovered.yields_self (trees.block afterCond.advance)
      by_cases again : (trees.block afterCond.advance).stop.kind = .elseWord
      · have second := Recovered.yields_self
          (trees.block (trees.block afterCond.advance).stop.advance)
        have read := (yields_ifStatement choice).mpr ⟨_, _, condition, word, _, _, _, first,
          .inl ⟨again, _, _, second, rfl, rfl⟩⟩
        exact ⟨_, _, _, read, List.subset_append_left _ _,
          .inl ⟨again, .elseBlock choice condition word again⟩⟩
      · have read := (yields_ifStatement choice).mpr ⟨_, _, condition, word, _, _, _, first,
          .inr ⟨again, rfl, rfl, rfl⟩⟩
        exact ⟨_, _, _, read, List.Subset.refl _, .inr rfl⟩
  | @elseBlock cond afterCond choice condition word again =>
      have first := Recovered.yields_self (trees.block afterCond.advance)
      have second := Recovered.yields_self
        (trees.block (trees.block afterCond.advance).stop.advance)
      have read := (yields_ifStatement choice).mpr ⟨_, _, condition, word, _, _, _, first,
        .inl ⟨again, _, _, second, rfl, rfl⟩⟩
      exact ⟨_, _, _, read, List.subset_append_right _ _, .inr rfl⟩
  | @body cond afterCond loop condition word =>
      have only := Recovered.yields_self (trees.block afterCond.advance)
      have read := (yields_whileStatement loop).mpr ⟨_, _, condition, word, _, only, rfl⟩
      exact ⟨_, _, _, read, List.Subset.refl _, .inr rfl⟩

theorem statementOrSkip_of_yields {cursor stop : Cursor} {stmt : Stmt} {errors : List SyntaxError}
    (yields : (trees.statement cursor).Yields (stmt, errors) stop) :
    (statementOrSkip cursor).Yields [stmt] errors stop :=
  Reading.yields_orSkip.mpr (.inl ⟨stmt, yields, rfl⟩)

theorem HasBlock.errors_subset {cursor inner : Cursor} (has : HasBlock cursor inner) :
    (trees.block inner).errors ⊆ (statementOrSkip cursor).errors := by
  obtain ⟨stmt, errors, stop, read, within, _⟩ := has.read
  rw [(statementOrSkip_of_yields read).2.1]
  exact within

/-- Blocks that are parts of a block, or the block itself. -/
inductive Nested (outer : Cursor) : Cursor → Prop where
  | whole : Nested outer outer
  | inside {cursor stmt inner : Cursor} (nested : Nested outer cursor)
      (opened : cursor.kind = .beginWord) (tries : TriesStatement cursor.advance stmt)
      (has : HasBlock stmt inner) : Nested outer inner

/-- The errors of a statement that is tried in a block are among those of the block. -/
theorem TriesStatement.errors_subset {cursor stmt : Cursor} (opened : cursor.kind = .beginWord)
    (tries : TriesStatement cursor.advance stmt) :
    (statementOrSkip stmt).errors ⊆ (trees.block cursor).errors := by
  rw [(block_of_opened opened).1]
  calc
    _ ⊆ (trees.statements stmt).errors := errors_subset_statements stmt
    _ ⊆ (trees.statements cursor.advance).errors := tries.statements_suffix.1.subset
    _ ⊆ _ := List.subset_append_left _ _

theorem Nested.errors_subset {outer cursor : Cursor} (nested : Nested outer cursor) :
    (trees.block cursor).errors ⊆ (trees.block outer).errors := by
  induction nested with
  | whole => exact List.Subset.refl _
  | inside _ opened tries has ih =>
      exact List.Subset.trans has.errors_subset (List.Subset.trans (tries.errors_subset opened) ih)

/-- From a place in a block on, an `end` that is the first boundary closes the block, and the input
has ended behind the block if there is no boundary. -/
def ClosesBehind (cursor place : Cursor) : Prop :=
  (∀ found rest, FirstOf .statementBoundary place.upcoming found rest →
      found.kind = .endWord → (trees.block cursor).stop.upcoming = rest) ∧
    (NoneOf .statementBoundary place.upcoming → (trees.block cursor).stop.kind = .eof)

/-- What is malformed in the block or in blocks inside of it is reported, and reading goes on. -/
structure StatementsResume (outer : Cursor) (errors : List SyntaxError) : Prop where
  /-- Every statement that cannot be read is reported where reading it stops.  Reading goes on
  behind the semicolon or the `end` that is the first boundary there, or at the end of the input if
  there is no boundary.  The boundary in question is also the first one behind the start of the
  statement, if that is a semicolon or an `end`. -/
  statement : ∀ cursor stmt error, Nested outer cursor → cursor.kind = .beginWord →
    TriesStatement cursor.advance stmt → (trees.statement stmt).result = .error error →
    error ∈ errors ∧ error.token = (trees.statement stmt).stop.current ∧
      (∀ found rest,
        FirstOf .statementBoundary (trees.statement stmt).stop.upcoming found rest →
        found.kind = .semicolon →
          ∃ next, TriesStatement cursor.advance next ∧ next.upcoming = rest) ∧
      ClosesBehind cursor (trees.statement stmt).stop ∧
      ∀ found rest, FirstOf .statementBoundary stmt.upcoming found rest →
        found.kind = .semicolon ∨ found.kind = .endWord →
        FirstOf .statementBoundary (trees.statement stmt).stop.upcoming found rest
  /-- Every block whose `begin` is missing is reported where the `begin` should stand. -/
  unopened : ∀ cursor, Nested outer cursor → cursor.kind ≠ .beginWord →
    cursor.errorHere (.unexpectedToken .beginWord) "expected 'begin'" ∈ errors ∧
      ClosesBehind cursor cursor
  /-- Every block whose `end` is missing behind a statement is reported there. -/
  unclosed : ∀ cursor stmt read, Nested outer cursor → cursor.kind = .beginWord →
    TriesStatement cursor.advance stmt → (trees.statement stmt).result = .ok read →
    (trees.statement stmt).stop.kind ∉ [.semicolon, .endWord] →
    (trees.statement stmt).stop.errorHere (.unexpectedToken .endWord)
        "expected 'end' after block" ∈ errors ∧
      ClosesBehind cursor (trees.statement stmt).stop
  /-- Whatever is malformed in a block of a statement, the statement goes on behind the block, with
  its other block or to its end. -/
  inner : ∀ cursor stmt inner, Nested outer cursor → cursor.kind = .beginWord →
    TriesStatement cursor.advance stmt → HasBlock stmt inner →
    (trees.block inner).stop.kind = .elseWord ∧ HasBlock stmt (trees.block inner).stop.advance ∨
      behindStatement stmt = (trees.block inner).stop

theorem StatementsResume.mono {outer : Cursor} {errors more : List SyntaxError}
    (resume : StatementsResume outer errors) (within : errors ⊆ more) :
    StatementsResume outer more where
  statement cursor stmt error nested opened tries failed := by
    obtain ⟨reported, rest⟩ := resume.statement cursor stmt error nested opened tries failed
    exact ⟨within reported, rest⟩
  unopened cursor nested unopened := by
    obtain ⟨reported, rest⟩ := resume.unopened cursor nested unopened
    exact ⟨within reported, rest⟩
  unclosed cursor stmt read nested opened tries whole other := by
    obtain ⟨reported, rest⟩ := resume.unclosed cursor stmt read nested opened tries whole other
    exact ⟨within reported, rest⟩
  inner := resume.inner

/-- A block stops where its last statement is followed by no semicolon. -/
theorem TriesStatement.block_eq {cursor stmt : Cursor} (opened : cursor.kind = .beginWord)
    (tries : TriesStatement cursor.advance stmt)
    (other : (behindStatement stmt).kind ≠ .semicolon) :
    (trees.closeBlock (behindStatement stmt)).errors ⊆ (trees.block cursor).errors ∧
      (trees.block cursor).stop = (trees.closeBlock (behindStatement stmt)).stop := by
  obtain ⟨errors, stop⟩ := block_of_opened opened
  rw [errors, stop, ← tries.statements_suffix.2, (statements_of_other other).2]
  exact ⟨List.subset_append_right _ _, rfl⟩

theorem closesBehind_of_failed {cursor stmt : Cursor} {error : SyntaxError}
    (opened : cursor.kind = .beginWord) (tries : TriesStatement cursor.advance stmt)
    (failed : (trees.statement stmt).result = .error error) :
    ClosesBehind cursor (trees.statement stmt).stop := by
  obtain ⟨_, _, behind⟩ := Reading.orSkip_of_error .statementBoundary failed
  refine ⟨fun found rest first closing => ?_, fun none => ?_⟩
  · have stop : (behindStatement stmt).upcoming = found :: rest := by
      rw [behindStatement, statementOrSkip, behind, Cursor.upcoming_skipTo first]
    have closed := (Cursor.kind_of_upcoming stop).trans closing
    rw [(tries.block_eq opened (by simp [closed])).2, stop_closeBlock closed]
    exact Cursor.upcoming_advance (by simp [closing]) stop
  · have ended : (behindStatement stmt).kind = .eof := by
      rw [behindStatement, statementOrSkip, behind, Cursor.kind_skipTo none]
    rw [(tries.block_eq opened (by simp [ended])).2, kind_closeBlock ended]

theorem behindStatement_of_ok {stmt : Cursor} {read : Stmt × List SyntaxError}
    (whole : (trees.statement stmt).result = .ok read) :
    behindStatement stmt = (trees.statement stmt).stop :=
  (statementOrSkip_of_yields ⟨whole, rfl⟩).2.2

theorem HasBlock.goes_on {stmt inner : Cursor} (has : HasBlock stmt inner) :
    (trees.block inner).stop.kind = .elseWord ∧ HasBlock stmt (trees.block inner).stop.advance ∨
      behindStatement stmt = (trees.block inner).stop := by
  obtain ⟨made, errors, stop, read, _, ⟨again, second⟩ | ended⟩ := has.read
  · exact .inl ⟨again, second⟩
  · exact .inr ((behindStatement_of_ok read.1).trans (read.2.trans ended))

theorem statements_resume (outer : Cursor) : StatementsResume outer (trees.block outer).errors where
  statement := by
    intro cursor stmt error nested opened tries failed
    obtain ⟨_, errors, behind⟩ := Reading.orSkip_of_error .statementBoundary failed
    have reported : error ∈ (trees.block outer).errors :=
      nested.errors_subset (tries.errors_subset opened (errors ▸ List.mem_singleton_self error))
    refine ⟨reported, (meets_statement stmt).here error failed, fun found rest first => ?_,
      closesBehind_of_failed opened tries failed, fun _ _ => firstOf_statement⟩
    have stop : (behindStatement stmt).upcoming = found :: rest := by
      rw [behindStatement, statementOrSkip, behind, Cursor.upcoming_skipTo first]
    intro separator
    have separated := (Cursor.kind_of_upcoming stop).trans separator
    exact ⟨_, .next tries separated, Cursor.upcoming_advance (by simp [separator]) stop⟩
  unopened := by
    intro cursor nested unopened
    obtain ⟨errors, stop⟩ := block_of_unopened unopened
    refine ⟨nested.errors_subset (errors ▸ List.mem_singleton_self _), ?_⟩
    rw [ClosesBehind, stop]
    exact ⟨fun _ _ => upcoming_abandonBlock, kind_abandonBlock⟩
  unclosed := by
    intro cursor stmt read nested opened tries whole other
    obtain ⟨noSemicolon, noEnd⟩ : (trees.statement stmt).stop.kind ≠ .semicolon ∧
        (trees.statement stmt).stop.kind ≠ .endWord := by simpa using other
    obtain ⟨errors, stop⟩ := tries.block_eq opened (behindStatement_of_ok whole ▸ noSemicolon)
    rw [behindStatement_of_ok whole, closeBlock_of_other noEnd] at errors stop
    refine ⟨nested.errors_subset (errors (List.mem_singleton_self _)), ?_⟩
    rw [ClosesBehind, stop]
    exact ⟨fun _ _ => upcoming_abandonBlock, kind_abandonBlock⟩
  inner _ _ _ _ _ _ has := has.goes_on

/-- Where reading goes on behind the declaration at a place. -/
def behindFunction (cursor : Cursor) : Cursor :=
  (declarationOrSkip cursor).stop

/-- Where declarations are tried from a place on: there, behind a semicolon, and behind one that
cannot be read. -/
inductive TriesFunction (start : Cursor) : Cursor → Prop where
  | first : TriesFunction start start
  | next {cursor : Cursor} (earlier : TriesFunction start cursor)
      (word : cursor.kind = .funcWord) (separated : (behindFunction cursor).kind = .semicolon) :
      TriesFunction start (behindFunction cursor).advance
  | resumed {cursor : Cursor} {error : SyntaxError} (earlier : TriesFunction start cursor)
      (word : cursor.kind = .funcWord)
      (failed : (trees.function cursor.current cursor.advance).result = .error error)
      (other : (behindFunction cursor).kind ≠ .semicolon) :
      TriesFunction start (behindFunction cursor)

section Functions

variable {cursor : Cursor} (word : cursor.kind = .funcWord)

include word

theorem functions_of_separated (separated : (behindFunction cursor).kind = .semicolon) :
    (trees.functions cursor).errors = (declarationOrSkip cursor).errors ++
        (trees.functions (behindFunction cursor).advance).errors ∧
      (trees.functions cursor).stop = (trees.functions (behindFunction cursor).advance).stop := by
  have tail := Recovered.yields_self (trees.functions (behindFunction cursor).advance)
  exact ((yields_functions word).mpr ⟨_, _, _, Recovered.yields_self (declarationOrSkip cursor),
    .inl ⟨separated, _, _, tail, rfl, rfl⟩⟩).2

theorem functions_of_failed {error : SyntaxError}
    (failed : (trees.function cursor.current cursor.advance).result = .error error)
    (other : (behindFunction cursor).kind ≠ .semicolon) :
    (trees.functions cursor).errors = error :: (trees.functions (behindFunction cursor)).errors ∧
      (trees.functions cursor).stop = (trees.functions (behindFunction cursor)).stop := by
  obtain ⟨none, errors, _⟩ := Reading.orSkip_of_error .declarationBoundary failed
  have tail := Recovered.yields_self (trees.functions (behindFunction cursor))
  exact ((yields_functions word).mpr ⟨[], [error], _, ⟨none, errors, rfl⟩,
    .inr (.inl ⟨other, rfl, _, tail, rfl⟩)⟩).2

theorem error_mem_functions {error : SyntaxError}
    (failed : (trees.function cursor.current cursor.advance).result = .error error) :
    error ∈ (trees.functions cursor).errors := by
  by_cases separated : (behindFunction cursor).kind = .semicolon
  · obtain ⟨_, errors, _⟩ := Reading.orSkip_of_error .declarationBoundary failed
    rw [(functions_of_separated word separated).1, declarationOrSkip, errors]
    exact List.mem_cons_self
  · rw [(functions_of_failed word failed separated).1]
    exact List.mem_cons_self

end Functions

theorem stop_functions {cursor : Cursor} (other : cursor.kind ≠ .funcWord) :
    (trees.functions cursor).stop = cursor := by
  rw [functions_of_other other]
  rfl

theorem TriesFunction.functions_suffix {start cursor : Cursor}
    (tries : TriesFunction start cursor) :
    (trees.functions cursor).errors <:+ (trees.functions start).errors ∧
      (trees.functions cursor).stop = (trees.functions start).stop := by
  induction tries with
  | first => exact ⟨List.suffix_rfl, rfl⟩
  | next _ word separated ih =>
      obtain ⟨errors, stop⟩ := functions_of_separated word separated
      exact ⟨(errors ▸ List.suffix_append _ _).trans ih.1, stop ▸ ih.2⟩
  | resumed _ word failed other ih =>
      obtain ⟨errors, stop⟩ := functions_of_failed word failed other
      exact ⟨(errors ▸ List.suffix_cons _ _).trans ih.1, stop ▸ ih.2⟩

/-- Every declaration that cannot be read is reported where reading it stops.  Reading goes on
behind the semicolon, or at the declaration or the block, that is the first boundary there, or at
the end of the input.  Where no declaration stands, the main block is read. -/
structure DeclarationsResume (start : Cursor) (errors : List SyntaxError) : Prop where
  reported : ∀ cursor error, TriesFunction start cursor → cursor.kind = .funcWord →
    (trees.function cursor.current cursor.advance).result = .error error →
    error ∈ errors ∧ error.token = (trees.function cursor.current cursor.advance).stop.current ∧
      (∀ found rest, FirstOf .declarationBoundary
          (trees.function cursor.current cursor.advance).stop.upcoming found rest →
        ∃ next, TriesFunction start next ∧
          next.upcoming = if found.kind = .semicolon then rest else found :: rest) ∧
      (NoneOf .declarationBoundary (trees.function cursor.current cursor.advance).stop.upcoming →
        ∃ next, TriesFunction start next ∧ next.kind = .eof)
  block : ∀ cursor, TriesFunction start cursor → cursor.kind ≠ .funcWord →
    (trees.functions start).stop = cursor

theorem DeclarationsResume.mono {start : Cursor} {errors more : List SyntaxError}
    (resume : DeclarationsResume start errors) (within : errors ⊆ more) :
    DeclarationsResume start more := by
  refine ⟨fun cursor error tries word failed => ?_, resume.block⟩
  obtain ⟨reported, rest⟩ := resume.reported cursor error tries word failed
  exact ⟨within reported, rest⟩

theorem declarations_resume (start : Cursor) :
    DeclarationsResume start (trees.functions start).errors where
  reported := by
    intro cursor error tries word failed
    have met := tries.functions_suffix.1.subset (error_mem_functions word failed)
    obtain ⟨_, _, behind⟩ := Reading.orSkip_of_error .declarationBoundary failed
    refine ⟨met, (meets_function _ _).here error failed, fun found rest first => ?_, fun none => ?_⟩
    · have stop : (behindFunction cursor).upcoming = found :: rest := by
        rw [behindFunction, declarationOrSkip, behind, Cursor.upcoming_skipTo first]
      have here := Cursor.kind_of_upcoming stop
      split
      · next separator =>
          exact ⟨_, .next tries word (here.trans separator),
            Cursor.upcoming_advance (by simp [separator]) stop⟩
      · next other => exact ⟨_, .resumed tries word failed (here ▸ other), stop⟩
    · have ended : (behindFunction cursor).kind = .eof := by
        rw [behindFunction, declarationOrSkip, behind, Cursor.kind_skipTo none]
      exact ⟨_, .resumed tries word failed (by simp [ended]), ended⟩
  block cursor tries other := by rw [← tries.functions_suffix.2, stop_functions other]

end Reader

namespace Parsed

open Reader Keeper

/-- Input that is left over is reported exactly if nothing else is. -/
theorem trailingInput_iff {cursor : Cursor} (word : cursor.kind = .programWord) :
    (∃ error ∈ (ofCursor cursor).errors, error.fault = .trailingInput) ↔
      (trees.block (trees.functions cursor.advance).stop).stop.kind ≠ .eof ∧
        ∀ error ∈ (ofCursor cursor).errors, error.fault = .trailingInput := by
  have inner : ∀ error ∈ (trees.functions cursor.advance).errors ++
      (trees.block (trees.functions cursor.advance).stop).errors, error.fault ≠ .trailingInput := by
    have met : Meets _ _ _ _ _ := (meets_functions cursor.advance).trans (meets_block _)
    exact fun error member => (met.sorted error member).inside
  rw [errors_ofCursor word]
  generalize (trees.functions cursor.advance).errors ++
    (trees.block (trees.functions cursor.advance).stop).errors = earlier at inner ⊢
  cases earlier with
  | nil =>
      by_cases ended : (trees.block (trees.functions cursor.advance).stop).stop.kind = .eof
      · simp [Cursor.atEnd, ended]
      · simp [Cursor.atEnd, ended, Cursor.errorHere]
  | cons error others =>
      have first := inner error List.mem_cons_self
      simp only [List.isEmpty_cons, Bool.false_and, Bool.false_eq_true, if_false, List.append_nil]
      constructor
      · rintro ⟨last, member, trailing⟩
        exact absurd trailing (inner last member)
      · rintro ⟨_, trailing⟩
        exact absurd (trailing error List.mem_cons_self) first

theorem kind_start {tokens : List Token} (closed : Token.Closed tokens)
    (headed : tokens.head?.map Token.kind = some .programWord) :
    (Cursor.start tokens closed).kind = .programWord := by
  cases tokens with
  | nil => cases headed
  | cons first rest => exact Option.some.inj headed

/-- Input that is left over behind the program is reported exactly if nothing else is.  Every
declaration, every statement of the main block and of the blocks inside of it, that cannot be read,
and every block without its first or last word is reported, and reading goes on at the next
boundary. -/
theorem reading_goes_on (tokens : List Token) (closed : Token.Closed tokens)
    (headed : tokens.head?.map Token.kind = some .programWord) :
    let start := (Cursor.start tokens closed).advance
    let body := (trees.functions start).stop
    let errors := (ofTokens tokens closed).errors
    ((∃ error ∈ errors, error.fault = .trailingInput) ↔
        (trees.block body).stop.kind ≠ .eof ∧ ∀ error ∈ errors, error.fault = .trailingInput) ∧
      DeclarationsResume start errors ∧ StatementsResume body errors := by
  intro start body errors
  have word := kind_start closed headed
  have whole : errors = _ := errors_ofCursor word
  have declared : (trees.functions start).errors ⊆ errors := by
    rw [whole, List.append_assoc]
    exact List.subset_append_left _ _
  have stated : (trees.block body).errors ⊆ errors := by
    rw [whole]
    exact List.Subset.trans (List.subset_append_right _ _) (List.subset_append_left _ _)
  exact ⟨trailingInput_iff word, (declarations_resume start).mono declared,
    (statements_resume body).mono stated⟩

def malformedSource : String :=
  "program func 1 begin 42; if a then begin x := 1 y := 2 end else z := 3 end; 43 end"

/-- A declaration, a statement, both words of blocks, and another statement are reported. -/
theorem reading_goes_on_in_malformed :
    (scan malformedSource).tokens.head?.map Token.kind = some .programWord ∧
      ((ofTokens _ (closed_scan malformedSource)).errors.map fun error =>
        (error.fault, error.token.lexeme)) =
          [(.expectedIdentifier, "1"), (.invalidStatement, "42"),
            (.unexpectedToken .endWord, "y"), (.unexpectedToken .beginWord, "z"),
            (.invalidStatement, "43")] ∧
      DeclarationsResume (Cursor.start _ (closed_scan malformedSource)).advance
        (ofTokens _ (closed_scan malformedSource)).errors ∧
      StatementsResume (trees.functions (Cursor.start _ (closed_scan malformedSource)).advance).stop
        (ofTokens _ (closed_scan malformedSource)).errors := by
  have headed : (scan malformedSource).tokens.head?.map Token.kind = some .programWord := by
    decide +kernel
  exact ⟨headed, by decide +kernel, (reading_goes_on _ (closed_scan malformedSource) headed).2⟩

/-- The tokens of `program begin 42 end x`. -/
def leftoverTokens : List Token :=
  [⟨.programWord, "program", ⟨1, ⟨0, 7⟩⟩, none⟩, ⟨.beginWord, "begin", ⟨1, ⟨8, 13⟩⟩, none⟩,
    ⟨.number, "42", ⟨1, ⟨14, 16⟩⟩, some (.int 42)⟩, ⟨.endWord, "end", ⟨1, ⟨17, 20⟩⟩, none⟩,
    ⟨.ident, "x", ⟨1, ⟨21, 22⟩⟩, none⟩, ⟨.eof, "", ⟨1, ⟨22, 22⟩⟩, none⟩]

/-- Behind an error in the program the input that is left over is not reported. -/
theorem leftover_is_not_reported :
    ∃ tokens, ∃ closed : Token.Closed tokens,
      tokens.head?.map Token.kind = some .programWord ∧
      (∀ token ∈ tokens.dropLast, token.kind ≠ .eof) ∧
      ¬ ((trees.block (trees.functions (Cursor.start tokens closed).advance).stop).stop.kind =
          .eof ∨
        ∃ error ∈ (ofTokens tokens closed).errors, error.fault = .trailingInput) := by
  have closed : Token.Closed leftoverTokens := by decide
  have errors : (ofTokens leftoverTokens closed).errors =
      [⟨.invalidStatement, "invalid statement",
        ⟨.number, "42", ⟨1, ⟨14, 16⟩⟩, some (.int 42)⟩⟩] := by
    cbv
  have stop :
      (trees.block (trees.functions (Cursor.start leftoverTokens closed).advance).stop).stop.kind =
        .ident := by
    have undeclared : (Cursor.start leftoverTokens closed).advance.kind ≠ .funcWord := by
      rintro ⟨⟩
    rw [stop_functions undeclared]
    cbv
  refine ⟨leftoverTokens, closed, rfl, by decide, ?_⟩
  simp [errors, stop]

end Parsed

end Sipl
