import Sipl.Proofs.Reader.Reads

namespace Sipl

namespace Reader

open Reading Cursor Keeper

/-- What the reader yields of statements. -/
inductive Code where
  | block (block : Block)
  | statements (stmts : List Stmt)
  | statement (stmt : Stmt)

/-- Code is built between two cursors, with the errors met. -/
inductive Builds : Cursor → Code → List SyntaxError → Cursor → Prop where
  | block {start later : Cursor} {stmts : List Stmt} {errors : List SyntaxError}
      (opened : start.kind = .beginWord)
      (inner : Builds start.advance (.statements stmts) errors later)
      (closed : later.kind = .endWord) :
      Builds start (.block (.mk (start.span.merge later.advance.previousSpan) stmts)) errors
        later.advance
  | empty {start : Cursor} (closed : start.kind = .endWord) :
      Builds start (.statements []) [start.errorHere .invalidStatement "invalid statement"] start
  | last {start stop : Cursor} {stmt : Stmt} {errors : List SyntaxError}
      (one : Builds start (.statement stmt) errors stop) (other : stop.kind ≠ .semicolon) :
      Builds start (.statements [stmt]) errors stop
  | more {start later stop : Cursor} {stmt : Stmt} {stmts : List Stmt}
      {errors others : List SyntaxError} (one : Builds start (.statement stmt) errors later)
      (semicolon : later.kind = .semicolon)
      (rest : Builds later.advance (.statements stmts) others stop) :
      Builds start (.statements (stmt :: stmts)) (errors ++ others) stop
  | ifThen {start afterCond stop : Cursor} {cond : Expr} {thenBlock : Block}
      {errors : List SyntaxError} (word : start.kind = .ifWord)
      (condition : Reads start.advance (.disjunction cond) afterCond)
      (thenWord : afterCond.kind = .thenWord)
      (only : Builds afterCond.advance (.block thenBlock) errors stop)
      (other : stop.kind ≠ .elseWord) :
      Builds start (.statement (.ifThen ⟨start.current.site.line,
        start.current.site.span.merge stop.previousSpan⟩ cond thenBlock)) errors stop
  | ifElse {start afterCond afterThen stop : Cursor} {cond : Expr} {thenBlock elseBlock : Block}
      {errors others : List SyntaxError} (word : start.kind = .ifWord)
      (condition : Reads start.advance (.disjunction cond) afterCond)
      (thenWord : afterCond.kind = .thenWord)
      (first : Builds afterCond.advance (.block thenBlock) errors afterThen)
      (elseWord : afterThen.kind = .elseWord)
      (second : Builds afterThen.advance (.block elseBlock) others stop) :
      Builds start (.statement (.ifElse ⟨start.current.site.line,
        start.current.site.span.merge stop.previousSpan⟩ cond thenBlock elseBlock))
        (errors ++ others) stop
  | whileLoop {start afterCond stop : Cursor} {cond : Expr} {body : Block}
      {errors : List SyntaxError} (word : start.kind = .whileWord)
      (condition : Reads start.advance (.disjunction cond) afterCond)
      (doWord : afterCond.kind = .doWord)
      (only : Builds afterCond.advance (.block body) errors stop) :
      Builds start (.statement (.whileLoop ⟨start.current.site.line,
        start.current.site.span.merge stop.previousSpan⟩ cond body)) errors stop
  | assign {start stop : Cursor} {value : Expr} (name : start.kind = .ident)
      (assign : start.advance.kind = .assign)
      (source : Reads start.advance.advance (.disjunction value) stop) :
      Builds start (.statement (.assign ⟨start.current.site.line,
        start.current.site.span.merge stop.previousSpan⟩ start.current.lexeme value)) [] stop

/-- Code is the result of the part of the reader that it names. -/
def Built (start : Cursor) (code : Code) (errors : List SyntaxError) (stop : Cursor) : Prop :=
  match code with
  | .block built => (trees.block start).Yields built errors stop
  | .statements stmts => (trees.statements start).Yields stmts errors stop
  | .statement stmt => (trees.statement start).Yields (stmt, errors) stop

section Statements

variable {start stop : Cursor} {stmt : Stmt} {errors : List SyntaxError}

theorem yields_ifStatement (word : start.kind = .ifWord) :
    (trees.statement start).Yields (stmt, errors) stop ↔
      ∃ cond afterCond, (trees.disjunction start.advance).Yields cond afterCond ∧
        afterCond.kind = .thenWord ∧
        ∃ thenBlock before afterThen,
          (trees.block afterCond.advance).Yields thenBlock before afterThen ∧
          ((afterThen.kind = .elseWord ∧
              ∃ elseBlock after, (trees.block afterThen.advance).Yields elseBlock after stop ∧
                .ifElse ⟨start.current.site.line,
                  start.current.site.span.merge stop.previousSpan⟩ cond thenBlock elseBlock = stmt ∧
                before ++ after = errors) ∨
            (afterThen.kind ≠ .elseWord ∧
              .ifThen ⟨start.current.site.line,
                start.current.site.span.merge afterThen.previousSpan⟩ cond thenBlock = stmt ∧
              before = errors ∧ afterThen = stop)) := by
  rw [statement, during_trees]
  split
  case h_1 =>
    simp only [yields_take, yields_andThen, yields_expect, exists_prop]
    refine exists_congr fun cond => exists_congr fun afterCond => and_congr_right fun _ => ?_
    constructor
    · rintro ⟨_, _, ⟨thenWord, rfl, rfl⟩, ⟨thenBlock, before⟩, afterThen, first, rest⟩
      refine ⟨thenWord, thenBlock, before, afterThen, Recovered.yields_noted.mp first, ?_⟩
      by_cases elseWord : afterThen.kind = .elseWord
      · rw [dif_pos elseWord, yields_take, yields_finish] at rest
        obtain ⟨⟨elseBlock, after⟩, second, same⟩ := rest
        exact .inl ⟨elseWord, elseBlock, after, Recovered.yields_noted.mp second,
          Prod.mk.inj same⟩
      · rw [dif_neg elseWord, bind_trees, pure_trees, yields_done] at rest
        obtain ⟨same, ended⟩ := rest
        exact .inr ⟨elseWord, (Prod.mk.inj same).1, (Prod.mk.inj same).2, ended⟩
    · rintro ⟨thenWord, thenBlock, before, afterThen, first, rest⟩
      refine ⟨_, _, ⟨thenWord, rfl, rfl⟩, (thenBlock, before), afterThen,
        Recovered.yields_noted.mpr first, ?_⟩
      rcases rest with ⟨elseWord, elseBlock, after, second, rfl, rfl⟩ | ⟨other, rfl, rfl, rfl⟩
      · rw [dif_pos elseWord, yields_take, yields_finish]
        exact ⟨(elseBlock, after), Recovered.yields_noted.mpr second, rfl⟩
      · rw [dif_neg other, bind_trees, pure_trees, yields_done]
        exact ⟨rfl, rfl⟩
  all_goals simp_all

theorem yields_whileStatement (word : start.kind = .whileWord) :
    (trees.statement start).Yields (stmt, errors) stop ↔
      ∃ cond afterCond, (trees.disjunction start.advance).Yields cond afterCond ∧
        afterCond.kind = .doWord ∧
        ∃ body, (trees.block afterCond.advance).Yields body errors stop ∧
          .whileLoop ⟨start.current.site.line,
            start.current.site.span.merge stop.previousSpan⟩ cond body = stmt := by
  rw [statement, during_trees]
  split
  case h_2 =>
    simp only [yields_take, yields_andThen, yields_expect, yields_finish, exists_prop]
    refine exists_congr fun cond => exists_congr fun afterCond => and_congr_right fun _ => ?_
    constructor
    · rintro ⟨_, _, ⟨doWord, rfl, rfl⟩, ⟨body, more⟩, only, same⟩
      obtain ⟨rfl, rfl⟩ := Prod.mk.inj same
      exact ⟨doWord, body, Recovered.yields_noted.mp only, rfl⟩
    · rintro ⟨doWord, body, only, rfl⟩
      exact ⟨_, _, ⟨doWord, rfl, rfl⟩, (body, errors), Recovered.yields_noted.mpr only, rfl⟩
  all_goals simp_all

theorem yields_assignment (name : start.kind = .ident) :
    (trees.statement start).Yields (stmt, errors) stop ↔
      start.advance.kind = .assign ∧
        ∃ value, (trees.disjunction start.advance.advance).Yields value stop ∧
          .assign ⟨start.current.site.line,
            start.current.site.span.merge stop.previousSpan⟩ start.current.lexeme value = stmt ∧
          [] = errors := by
  rw [statement, during_trees]
  split
  case h_3 =>
    simp only [yields_take, yields_andThen, yields_expect, yields_finish, exists_prop, bind_trees,
      pure_trees, keepStmt_trees, StmtForm.tree, Prod.mk.injEq]
    constructor
    · rintro ⟨_, _, ⟨assign, rfl, rfl⟩, value⟩
      exact ⟨assign, value⟩
    · rintro ⟨assign, value⟩
      exact ⟨_, _, ⟨assign, rfl, rfl⟩, value⟩
  all_goals simp_all

theorem statement_eq_fail (noIf : start.kind ≠ .ifWord) (noWhile : start.kind ≠ .whileWord)
    (noName : start.kind ≠ .ident) :
    trees.statement start = .fail .invalidStatement "invalid statement" := by
  rw [statement, during_trees]
  split <;> simp_all

/-- A statement that is read, or none where one cannot be read and is skipped. -/
def statementOrSkip (cursor : Cursor) : Recovered cursor (List Stmt) :=
  trees.orSkip (trees.statement cursor) .statementBoundary

theorem yields_statements {stmts : List Stmt} :
    (trees.statements start).Yields stmts errors stop ↔
      ∃ first before later, (statementOrSkip start).Yields first before later ∧
        ((later.kind = .semicolon ∧
            ∃ others after, (trees.statements later.advance).Yields others after stop ∧
              first ++ others = stmts ∧ before ++ after = errors) ∨
          (later.kind ≠ .semicolon ∧ first = stmts ∧ before = errors ∧ later = stop)) := by
  rw [statements, Recovered.yields_andThen]
  constructor
  · rintro ⟨first, before, later, after, one, rest, rfl⟩
    refine ⟨first, before, later, one, ?_⟩
    by_cases semicolon : later.kind = .semicolon
    · rw [dif_pos semicolon, during_trees, yields_pass, Recovered.yields_finish] at rest
      obtain ⟨others, tail, same⟩ := rest
      exact .inl ⟨semicolon, others, after, tail, same, rfl⟩
    · rw [dif_neg semicolon, pure_trees, Recovered.yields_done] at rest
      obtain ⟨same, rfl, ended⟩ := rest
      exact .inr ⟨semicolon, same, (List.append_nil _).symm, ended⟩
  · rintro ⟨first, before, later, one, ⟨semicolon, others, after, tail, rfl, rfl⟩ |
      ⟨other, rfl, rfl, rfl⟩⟩
    · refine ⟨first, before, later, after, one, ?_, rfl⟩
      rw [dif_pos semicolon, during_trees, yields_pass]
      exact Recovered.yields_finish.mpr ⟨others, tail, rfl⟩
    · refine ⟨first, before, later, [], one, ?_, List.append_nil _⟩
      rw [dif_neg other]
      exact ⟨rfl, rfl, rfl⟩

theorem closeBlock_of_end (closed : start.kind = .endWord) :
    (trees.closeBlock start).Yields () errors stop ↔ [] = errors ∧ start.advance = stop := by
  rw [closeBlock, dif_pos closed, yields_pass, pure_trees, Recovered.yields_done]
  exact and_iff_right rfl

theorem closeBlock_of_other (other : start.kind ≠ .endWord) :
    trees.closeBlock start =
      trees.abandonBlock start .endWord "expected 'end' after block" := by
  rw [closeBlock, dif_neg other]

variable {made : Block}

theorem yields_block (opened : start.kind = .beginWord) :
    (trees.block start).Yields made errors stop ↔
      ∃ stmts before later, (trees.statements start.advance).Yields stmts before later ∧
        ∃ after, (trees.closeBlock later).Yields () after stop ∧
          .mk (start.span.merge stop.previousSpan) stmts = made ∧ before ++ after = errors := by
  rw [block, during_trees, dif_pos opened, yields_pass, Recovered.yields_andThen]
  constructor
  · rintro ⟨stmts, before, later, after, inner, rest, same⟩
    obtain ⟨_, closing, made⟩ := Recovered.yields_finish.mp rest
    exact ⟨stmts, before, later, inner, after, closing, made, same⟩
  · rintro ⟨stmts, before, later, inner, after, closing, made, same⟩
    exact ⟨stmts, before, later, after, inner, Recovered.yields_finish.mpr ⟨(), closing, made⟩,
      same⟩

theorem yields_block_of_unopened (unopened : start.kind ≠ .beginWord) :
    (trees.block start).Yields made errors stop ↔
      (trees.abandonBlock start .beginWord "expected 'begin'").Yields () errors stop ∧
        .mk (start.span.merge stop.previousSpan) [] = made := by
  rw [block, during_trees, dif_neg unopened, Recovered.yields_finish]
  constructor
  · rintro ⟨_, abandoned, made⟩
    exact ⟨abandoned, made⟩
  · rintro ⟨abandoned, made⟩
    exact ⟨(), abandoned, made⟩

end Statements

theorem built_of_builds {start stop : Cursor} {code : Code} {errors : List SyntaxError}
    (builds : Builds start code errors stop) : Built start code errors stop := by
  induction builds with
  | block opened inner closed ihInner =>
      exact (yields_block opened).mpr ⟨_, _, _, ihInner, [], (closeBlock_of_end closed).mpr
        ⟨rfl, rfl⟩, rfl, List.append_nil _⟩
  | @empty start closed =>
      have failed : trees.statement start = .fail .invalidStatement "invalid statement" :=
        statement_eq_fail (by simp [closed]) (by simp [closed]) (by simp [closed])
      have kept : start.skipTo .statementBoundary = start := by
        have listed : KindSet.statementBoundary.contains .endWord := by decide
        rw [skipTo, dif_neg (by simp [closed]), if_pos (by rw [closed]; exact listed)]
      have other : start.kind ≠ .semicolon := by simp [closed]
      refine yields_statements.mpr ⟨[], _, start, yields_orSkip.mpr (.inr ?_),
        .inr ⟨other, rfl, rfl, rfl⟩⟩
      exact ⟨_, by rw [failed]; rfl, rfl, rfl, by rw [failed]; exact kept⟩
  | last one other ihOne =>
      exact yields_statements.mpr ⟨_, _, _, yields_orSkip.mpr (.inl ⟨_, ihOne, rfl⟩),
        .inr ⟨other, rfl, rfl, rfl⟩⟩
  | more one semicolon rest ihOne ihRest =>
      exact yields_statements.mpr ⟨_, _, _, yields_orSkip.mpr (.inl ⟨_, ihOne, rfl⟩),
        .inl ⟨semicolon, _, _, ihRest, rfl, rfl⟩⟩
  | ifThen word condition thenWord only other ihOnly =>
      refine (yields_ifStatement word).mpr
        ⟨_, _, yielded_of_reads condition, thenWord, _, _, _, ihOnly, ?_⟩
      exact .inr ⟨other, rfl, rfl, rfl⟩
  | ifElse word condition thenWord first elseWord second ihFirst ihSecond =>
      refine (yields_ifStatement word).mpr
        ⟨_, _, yielded_of_reads condition, thenWord, _, _, _, ihFirst, ?_⟩
      exact .inl ⟨elseWord, _, _, ihSecond, rfl, rfl⟩
  | whileLoop word condition doWord only ihOnly =>
      exact (yields_whileStatement word).mpr
        ⟨_, _, yielded_of_reads condition, doWord, _, ihOnly, rfl⟩
  | assign name assign source =>
      exact (yields_assignment name).mpr ⟨assign, _, yielded_of_reads source, rfl, rfl⟩

def Code.level : Code → Nat
  | .block _ => 2
  | .statements _ => 1
  | .statement _ => 0

theorem closed_of_clean {start stop : Cursor}
    (clean : (trees.closeBlock start).Yields () [] stop) :
    start.kind = .endWord ∧ start.advance = stop := by
  by_cases closed : start.kind = .endWord
  · exact ⟨closed, ((closeBlock_of_end closed).mp clean).2⟩
  · rw [closeBlock_of_other closed] at clean
    cases clean.2.1

/-- Without an error nothing was skipped. -/
theorem builds_of_built {start stop : Cursor} (code : Code) (built : Built start code [] stop) :
    Builds start code [] stop := by
  match code with
  | .block made =>
      by_cases opened : start.kind = .beginWord
      · obtain ⟨stmts, before, later, inner, after, closing, rfl, clean⟩ :=
          (yields_block opened).mp built
        obtain ⟨rfl, rfl⟩ := List.append_eq_nil_iff.mp clean
        have less := remaining_advance_lt (inside_of_kind opened)
        obtain ⟨closed, rfl⟩ := closed_of_clean closing
        exact .block opened (builds_of_built (.statements stmts) inner) closed
      · cases ((yields_block_of_unopened opened).mp built).1.2.1
  | .statements stmts =>
      obtain ⟨first, before, later, one, rest⟩ := yields_statements.mp built
      have clean : before = [] := by
        rcases rest with ⟨_, _, _, _, _, clean⟩ | ⟨_, _, clean, _⟩
        · exact (List.append_eq_nil_iff.mp clean).1
        · exact clean
      subst clean
      rcases yields_orSkip.mp one with ⟨stmt, read, rfl⟩ | ⟨_, _, _, dirty, _⟩
      · have bound := read.bound
        have head := builds_of_built (.statement stmt) read
        rcases rest with ⟨semicolon, others, after, tail, rfl, rfl⟩ | ⟨other, rfl, _, rfl⟩
        · have less := remaining_advance_lt (inside_of_kind semicolon)
          exact .more head semicolon (builds_of_built (.statements others) tail)
        · exact .last head other
      · cases dirty
  | .statement stmt =>
      by_cases ifWord : start.kind = .ifWord
      · obtain ⟨cond, afterCond, condition, thenWord, thenBlock, before, afterThen, first, rest⟩ :=
          (yields_ifStatement ifWord).mp built
        have less := remaining_advance_lt (inside_of_kind ifWord)
        have thenLess := remaining_advance_lt (inside_of_kind thenWord)
        have condBound := condition.bound
        have thenBound := first.bound
        have condition := reads_of_yielded (.disjunction cond) condition
        rcases rest with ⟨elseWord, elseBlock, after, second, rfl, clean⟩ | ⟨other, rfl, rfl, rfl⟩
        · obtain ⟨rfl, rfl⟩ := List.append_eq_nil_iff.mp clean
          have elseLess := remaining_advance_lt (inside_of_kind elseWord)
          exact .ifElse ifWord condition thenWord (builds_of_built (.block thenBlock) first)
            elseWord (builds_of_built (.block elseBlock) second)
        · exact .ifThen ifWord condition thenWord (builds_of_built (.block thenBlock) first) other
      by_cases whileWord : start.kind = .whileWord
      · obtain ⟨cond, afterCond, condition, doWord, body, only, rfl⟩ :=
          (yields_whileStatement whileWord).mp built
        have less := remaining_advance_lt (inside_of_kind whileWord)
        have doLess := remaining_advance_lt (inside_of_kind doWord)
        have condBound := condition.bound
        have condition := reads_of_yielded (.disjunction cond) condition
        exact .whileLoop whileWord condition doWord (builds_of_built (.block body) only)
      by_cases name : start.kind = .ident
      · obtain ⟨assign, value, source, rfl, _⟩ := (yields_assignment name).mp built
        exact .assign name assign (reads_of_yielded (.disjunction value) source)
      · rw [Built, statement_eq_fail ifWord whileWord name] at built
        exact absurd built yields_fail
termination_by start.remaining * 4 + code.level
decreasing_by all_goals (simp only [Code.level]; omega)

end Reader

end Sipl
