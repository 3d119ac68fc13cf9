import Mathlib.Data.List.Basic
import Sipl.Proofs.Reader.Builds
import Sipl.Proofs.Reader.Completeness
import Sipl.Proofs.Reader.Declares

namespace Sipl

open Grammar Reader

namespace Reader

open Reading Cursor

/-- What a part of the reader takes, as a form of the grammar. -/
def Code.form : Code → Form
  | .block _ => .rule .block
  | .statements _ =>
      .seq (.rule .statement) (.star (.seq (.token [.semicolon]) (.rule .statement)))
  | .statement _ => .rule .statement

theorem follows_of_builds {start stop : Cursor} {code : Code} {errors : List SyntaxError}
    (builds : Builds start code errors stop) (clean : errors = []) :
    Follows code.form (· = stop.upcoming) start.upcoming := by
  induction builds with
  | block opened _ closed ihInner =>
      have whole := Follows.seq (ihInner clean) (word_follows closed (by decide))
      refine Follows.rule_iff.mpr (.seq (word_follows opened (by decide)) ?_)
      simpa only [Code.form, Follows.seq_eq] using whole
  | empty => cases clean
  | last _ _ ihOne => exact .seq (ihOne clean) (Follows.star_iff.mpr (.inl rfl))
  | more _ semicolon _ ihOne ihRest =>
      obtain ⟨rfl, rfl⟩ := List.append_eq_nil_iff.mp clean
      have others := Follows.seq_iff.mp (ihRest rfl)
      refine .seq (ihOne rfl) (Follows.star_iff.mpr (.inr ?_))
      exact .seq (word_follows semicolon (by decide)) others
  | ifThen word condition thenWord _ _ ihOnly =>
      refine Follows.rule_iff.mpr (Follows.alt_iff.mpr (.inl ?_))
      refine .seq (word_follows word (by decide)) (.seq (follows_of_reads condition) ?_)
      refine .seq (word_follows thenWord (by decide)) (.seq (ihOnly clean) ?_)
      exact Follows.opt_iff.mpr (.inl rfl)
  | ifElse word condition thenWord _ elseWord _ ihFirst ihSecond =>
      obtain ⟨rfl, rfl⟩ := List.append_eq_nil_iff.mp clean
      have other := Follows.seq (word_follows elseWord (by decide)) (ihSecond rfl)
      refine Follows.rule_iff.mpr (Follows.alt_iff.mpr (.inl ?_))
      refine .seq (word_follows word (by decide)) (.seq (follows_of_reads condition) ?_)
      refine .seq (word_follows thenWord (by decide)) (.seq (ihFirst rfl) ?_)
      exact Follows.opt_iff.mpr (.inr other)
  | whileLoop word condition doWord _ ihOnly =>
      refine Follows.rule_iff.mpr (Follows.alt_iff.mpr (.inr (Follows.alt_iff.mpr (.inl ?_))))
      refine .seq (word_follows word (by decide)) (.seq (follows_of_reads condition) ?_)
      exact .seq (word_follows doWord (by decide)) (ihOnly clean)
  | assign name assign source =>
      refine Follows.rule_iff.mpr (Follows.alt_iff.mpr (.inr (Follows.alt_iff.mpr (.inr ?_))))
      refine .seq (word_follows name (by decide)) ?_
      exact .seq (word_follows assign (by decide)) (follows_of_reads source)

/-- Code is built without an error, and the rest of the tokens is as required. -/
def IsBuilt (start : Cursor) {Value : Type} (code : Value → Code)
    (after : List Token → Prop) : Prop :=
  ∃ value stop, Builds start (code value) [] stop ∧ stop.Numbered ∧ after stop.upcoming

/-- A condition is read up to the word behind it. -/
theorem condition_read {start : Cursor} {word : Kind} {body : Form} {after : List Token → Prop}
    (numbered : start.Numbered) (inert : ∀ kind ∈ [word],
      kind ≠ .leftParen ∧ operandBehind? kind = none ∧ kind ≠ .eof)
    (follows : Follows (.seq (.rule (.expr .disjunction)) (.seq (.token [word]) body)) after
      start.upcoming) :
    ∃ cond afterCond, Reads start (.disjunction cond) afterCond ∧ afterCond.kind = word ∧
      afterCond.advance.remaining < start.remaining ∧ afterCond.advance.Numbered ∧
      Follows body after afterCond.advance.upcoming := by
  have outside : Kind.eof ∉ [word] := fun listed => (inert _ listed).2.2 rfl
  have greedy : Greedy (Follows (.seq (.token [word]) body) after) :=
    greedy_of_inert (fun tokens holds => (Follows.seq_iff.mp holds).startsIn_token)
      fun kind listed => ⟨(inert kind listed).1, (inert kind listed).2.1⟩
  obtain ⟨cond, afterCond, condition, numberedCond, rest⟩ :=
    complete .disjunction start numbered _ greedy (Follows.seq_iff.mp follows)
  obtain ⟨listed, rest⟩ := (follows_token outside).mp (Follows.seq_iff.mp rest)
  have inside : afterCond.kind ≠ .eof := fun ended => outside (ended ▸ listed)
  have bound := condition.bound
  have less := remaining_advance_lt inside
  exact ⟨cond, afterCond, condition, List.mem_singleton.mp listed, by omega,
    numberedCond.advance inside, rest⟩

theorem Builds.bound {start stop : Cursor} {code : Code} {errors : List SyntaxError}
    (builds : Builds start code errors stop) : stop.remaining ≤ start.remaining := by
  have built := built_of_builds builds
  cases code with
  | block | statements => exact Recovered.Yields.bound built
  | statement => exact Reading.Yields.bound built

section Blocks

variable {start : Cursor} {after : List Token → Prop} (numbered : start.Numbered)
  (smaller : ∀ later : Cursor, later.remaining < start.remaining → later.Numbered →
    ∀ after, Follows (.rule .block) after later.upcoming → IsBuilt later .block after)

include numbered smaller

theorem isBuilt_choice (ends : ∀ tokens, after tokens → StartsIn [.semicolon, .endWord] tokens)
    (word : start.kind = .ifWord)
    (follows : Follows (.seq (.rule (.expr .disjunction)) (.seq (.token [.thenWord])
      (.seq (.rule .block) (.opt (.seq (.token [.elseWord]) (.rule .block)))))) after
      start.advance.upcoming) :
    IsBuilt start .statement after := by
  have inside : start.kind ≠ .eof := by simp [word]
  have less := remaining_advance_lt inside
  obtain ⟨cond, afterCond, condition, thenWord, condLess, numberedCond, rest⟩ :=
    condition_read (numbered.advance inside) (by decide) follows
  obtain ⟨thenBlock, afterThen, first, numberedThen, rest⟩ :=
    smaller _ (by omega) numberedCond _ (Follows.seq_iff.mp rest)
  have bound := first.bound
  rcases Follows.opt_iff.mp rest with holds | taken
  · have other : afterThen.kind ≠ .elseWord := by
      obtain ⟨token, others, whole, listed⟩ := ends _ holds
      have same : afterThen.kind = token.kind := congrArg Token.kind (List.cons.inj whole).1
      intro elseWord
      rw [← same, elseWord] at listed
      exact absurd listed (by decide)
    exact ⟨_, afterThen, .ifThen word condition thenWord first other, numberedThen, holds⟩
  · obtain ⟨listed, rest⟩ := (follows_token (by decide)).mp (Follows.seq_iff.mp taken)
    have elseWord := List.mem_singleton.mp listed
    have thenInside : afterThen.kind ≠ .eof := by simp [elseWord]
    have thenLess := remaining_advance_lt thenInside
    obtain ⟨elseBlock, stop, second, numberedStop, holds⟩ :=
      smaller _ (by omega) (numberedThen.advance thenInside) _ rest
    exact ⟨_, stop, .ifElse word condition thenWord first elseWord second, numberedStop, holds⟩

theorem isBuilt_loop (word : start.kind = .whileWord)
    (follows : Follows (.seq (.rule (.expr .disjunction)) (.seq (.token [.doWord])
      (.rule .block))) after start.advance.upcoming) :
    IsBuilt start .statement after := by
  have inside : start.kind ≠ .eof := by simp [word]
  have less := remaining_advance_lt inside
  obtain ⟨cond, afterCond, condition, doWord, condLess, numberedCond, rest⟩ :=
    condition_read (numbered.advance inside) (by decide) follows
  obtain ⟨body, stop, only, numberedStop, holds⟩ := smaller _ (by omega) numberedCond _ rest
  exact ⟨_, stop, .whileLoop word condition doWord only, numberedStop, holds⟩

theorem isBuilt_statement
    (ends : ∀ tokens, after tokens → StartsIn [.semicolon, .endWord] tokens)
    (follows : Follows (.rule .statement) after start.upcoming) :
    IsBuilt start .statement after := by
  have shapes := Follows.rule_iff.mp follows
  simp only [Rule.form, Follows.alt_iff] at shapes
  rcases shapes with choice | loop | assign
  · obtain ⟨word, rest⟩ := (follows_token (by decide)).mp (Follows.seq_iff.mp choice)
    exact isBuilt_choice numbered smaller ends (List.mem_singleton.mp word) rest
  · obtain ⟨word, rest⟩ := (follows_token (by decide)).mp (Follows.seq_iff.mp loop)
    exact isBuilt_loop numbered smaller (List.mem_singleton.mp word) rest
  · obtain ⟨name, rest⟩ := (follows_token (by decide)).mp (Follows.seq_iff.mp assign)
    obtain ⟨assign, rest⟩ := (follows_token (by decide)).mp (Follows.seq_iff.mp rest)
    have name := List.mem_singleton.mp name
    have assign := List.mem_singleton.mp assign
    have numberedValue := (numbered.advance (by simp [name])).advance (by simp [assign])
    have greedy : Greedy after := greedy_of_inert ends (by decide)
    obtain ⟨value, stop, source, numberedStop, holds⟩ :=
      complete .disjunction _ numberedValue _ greedy rest
    exact ⟨_, stop, .assign name assign source, numberedStop, holds⟩

end Blocks

theorem isBuilt_statements {start : Cursor} {after : List Token → Prop}
    (numbered : start.Numbered)
    (smaller : ∀ later : Cursor, later.remaining < start.remaining → later.Numbered →
      ∀ after, Follows (.rule .block) after later.upcoming → IsBuilt later .block after)
    (follows : Follows (.rule .statement) (Follows (.star (.seq (.token [.semicolon])
      (.rule .statement))) (Follows (.token [.endWord]) after)) start.upcoming) :
    IsBuilt start .statements (Follows (.token [.endWord]) after) := by
  have ends : ∀ tokens, Follows (.star (.seq (.token [.semicolon]) (.rule .statement)))
      (Follows (.token [.endWord]) after) tokens → StartsIn [.semicolon, .endWord] tokens := by
    intro tokens holds
    rcases Follows.star_iff.mp holds with closed | next
    · exact closed.startsIn_token.mono (by decide)
    · exact (Follows.seq_iff.mp next).startsIn_token.mono (by decide)
  obtain ⟨stmt, later, one, numberedLater, rest⟩ :=
    isBuilt_statement numbered smaller ends follows
  have bound := one.bound
  rcases Follows.star_iff.mp rest with closed | next
  · obtain ⟨listed, _⟩ := (follows_token (by decide)).mp closed
    have other : later.kind ≠ .semicolon := by simp [List.mem_singleton.mp listed]
    exact ⟨[stmt], later, .last one other, numberedLater, closed⟩
  · obtain ⟨listed, rest⟩ := (follows_token (by decide)).mp (Follows.seq_iff.mp next)
    have semicolon := List.mem_singleton.mp listed
    have inside : later.kind ≠ .eof := by simp [semicolon]
    have less := remaining_advance_lt inside
    obtain ⟨stmts, stop, others, numberedStop, holds⟩ :=
      isBuilt_statements (numberedLater.advance inside)
        (fun other less => smaller other (by omega)) rest
    exact ⟨stmt :: stmts, stop, .more one semicolon others, numberedStop, holds⟩
termination_by start.remaining

theorem isBuilt_block {start : Cursor} {after : List Token → Prop} (numbered : start.Numbered)
    (follows : Follows (.rule .block) after start.upcoming) : IsBuilt start .block after := by
  obtain ⟨listed, rest⟩ :=
    (follows_token (by decide)).mp (Follows.seq_iff.mp (Follows.rule_iff.mp follows))
  have opened := List.mem_singleton.mp listed
  have inside : start.kind ≠ .eof := by simp [opened]
  have less := remaining_advance_lt inside
  simp only [Follows.seq_eq] at rest
  obtain ⟨stmts, later, inner, numberedLater, rest⟩ :=
    isBuilt_statements (numbered.advance inside)
      (fun later less n after follows => isBuilt_block n follows) rest
  obtain ⟨listed, holds⟩ := (follows_token (by decide)).mp rest
  have closed := List.mem_singleton.mp listed
  exact ⟨_, later.advance, .block opened inner closed, numberedLater.advance (by simp [closed]),
    holds⟩
termination_by start.remaining

/-- What a part of the reader takes, as a form of the grammar. -/
def Declaration.form : Declaration → Form
  | .params _ => .opt (.rule .params)
  | .paramsTail _ => .star (.seq (.token [.comma]) (.token [.ident]))
  | .function _ _ => .seq (.token [.ident]) (.seq (.token [.leftParen])
      (.seq (.opt (.rule .params)) (.seq (.token [.rightParen]) (.seq (.token [.eq])
        (.rule (.expr .comparison))))))
  | .functions _ => .opt (.rule .functions)

theorem function_follows {start stop : Cursor} {token : Token} {function : Function}
    (word : start.kind = .funcWord)
    (rest : Follows (Declaration.function token function).form (· = stop.upcoming)
      start.advance.upcoming) :
    Follows (.rule .function) (· = stop.upcoming) start.upcoming :=
  Follows.rule_iff.mpr (.seq (word_follows word (by decide)) rest)

theorem follows_of_declares {start stop : Cursor} {declaration : Declaration}
    (declares : Declares start declaration stop) :
    Follows declaration.form (· = stop.upcoming) start.upcoming := by
  induction declares with
  | noParams | noFunctions => exact Follows.opt_iff.mpr (.inl rfl)
  | params name _ ihTail =>
      refine Follows.opt_iff.mpr (.inr (Follows.rule_iff.mpr ?_))
      exact .seq (word_follows name (by decide)) ihTail
  | paramsEnd => exact Follows.star_iff.mpr (.inl rfl)
  | paramsMore comma name _ ihTail =>
      have next := Follows.seq (word_follows comma (by decide)) (word_follows name (by decide))
      exact .more next ihTail
  | function name opened _ closed eq value ihInner =>
      refine .seq (word_follows name (by decide)) (.seq (word_follows opened (by decide)) ?_)
      refine .seq ihInner (.seq (word_follows closed (by decide)) ?_)
      exact .seq (word_follows eq (by decide)) (follows_of_reads value)
  | functionsLast word _ _ ihDeclared =>
      have one := function_follows word ihDeclared
      refine Follows.opt_iff.mpr (.inr (Follows.rule_iff.mpr (.seq one ?_)))
      exact Follows.seq_iff.mpr (Follows.star_iff.mpr (.inl (Follows.opt_iff.mpr (.inl rfl))))
  | functionsMore word _ semicolon _ ihDeclared ihRest =>
      have one := function_follows word ihDeclared
      have separator := word_follows semicolon (by decide)
      refine Follows.opt_iff.mpr (.inr (Follows.rule_iff.mpr (.seq one (Follows.seq_iff.mpr ?_))))
      rcases Follows.opt_iff.mp ihRest with ended | others
      · refine Follows.star_iff.mpr (.inl (Follows.opt_iff.mpr (.inr ?_)))
        exact separator.mono (by rintro _ rfl; exact ended)
      · have others := Follows.seq_iff.mp (Follows.rule_iff.mp others)
        simp only [Follows.seq_eq] at others
        exact Follows.star_iff.mpr (.inr (.seq separator others))

/-- Declarations are read without an error, and the rest of the tokens is as required. -/
def IsDeclared (start : Cursor) {Value : Type} (declaration : Value → Declaration)
    (after : List Token → Prop) : Prop :=
  ∃ value stop, Declares start (declaration value) stop ∧ stop.Numbered ∧ after stop.upcoming

theorem isDeclared_paramsTail {start : Cursor} {after : List Token → Prop}
    (numbered : start.Numbered)
    (follows : Follows (.star (.seq (.token [.comma]) (.token [.ident])))
      (Follows (.token [.rightParen]) after) start.upcoming) :
    IsDeclared start .paramsTail (Follows (.token [.rightParen]) after) := by
  rcases Follows.star_iff.mp follows with ended | next
  · obtain ⟨listed, _⟩ := (follows_token (by decide)).mp ended
    have other : start.kind ≠ .comma := by simp [List.mem_singleton.mp listed]
    exact ⟨[], start, .paramsEnd other, numbered, ended⟩
  · obtain ⟨listed, rest⟩ := (follows_token (by decide)).mp (Follows.seq_iff.mp next)
    have comma := List.mem_singleton.mp listed
    obtain ⟨listed, rest⟩ := (follows_token (by decide)).mp rest
    have name := List.mem_singleton.mp listed
    have inside : start.kind ≠ .eof := by simp [comma]
    have innerInside : start.advance.kind ≠ .eof := by simp [name]
    have less := remaining_advance_lt inside
    have lesser := remaining_advance_lt innerInside
    obtain ⟨others, stop, tail, numberedStop, holds⟩ :=
      isDeclared_paramsTail ((numbered.advance inside).advance innerInside) rest
    exact ⟨_, stop, .paramsMore comma name tail, numberedStop, holds⟩
termination_by start.remaining

theorem isDeclared_params {start : Cursor} {after : List Token → Prop}
    (numbered : start.Numbered)
    (follows : Follows (.opt (.rule .params)) (Follows (.token [.rightParen]) after)
      start.upcoming) :
    IsDeclared start .params (Follows (.token [.rightParen]) after) := by
  rcases Follows.opt_iff.mp follows with ended | found
  · obtain ⟨listed, _⟩ := (follows_token (by decide)).mp ended
    exact ⟨[], start, .noParams (List.mem_singleton.mp listed), numbered, ended⟩
  · obtain ⟨listed, rest⟩ :=
      (follows_token (by decide)).mp (Follows.seq_iff.mp (Follows.rule_iff.mp found))
    have name := List.mem_singleton.mp listed
    obtain ⟨others, stop, tail, numberedStop, holds⟩ :=
      isDeclared_paramsTail (numbered.advance (by simp [name])) rest
    exact ⟨_, stop, .params name tail, numberedStop, holds⟩

theorem isDeclared_function {start : Cursor} {after : List Token → Prop} (word : Token)
    (numbered : start.Numbered) (greedy : Greedy after)
    (follows : Follows (.seq (.token [.ident]) (.seq (.token [.leftParen])
      (.seq (.opt (.rule .params)) (.seq (.token [.rightParen]) (.seq (.token [.eq])
        (.rule (.expr .comparison))))))) after start.upcoming) :
    IsDeclared start (.function word) after := by
  simp only [Follows.seq_eq] at follows
  obtain ⟨listed, rest⟩ := (follows_token (by decide)).mp follows
  have name := List.mem_singleton.mp listed
  obtain ⟨listed, rest⟩ := (follows_token (by decide)).mp rest
  have opened := List.mem_singleton.mp listed
  have numberedParams := (numbered.advance (by simp [name])).advance (by simp [opened])
  obtain ⟨params, later, inner, numberedLater, rest⟩ := isDeclared_params numberedParams rest
  obtain ⟨listed, rest⟩ := (follows_token (by decide)).mp rest
  have closed := List.mem_singleton.mp listed
  obtain ⟨listed, rest⟩ := (follows_token (by decide)).mp rest
  have eq := List.mem_singleton.mp listed
  have numberedBody := (numberedLater.advance (by simp [closed])).advance (by simp [eq])
  obtain ⟨body, stop, value, numberedStop, holds⟩ :=
    complete .comparison _ numberedBody after greedy rest
  exact ⟨_, stop, .function name opened inner closed eq value, numberedStop, holds⟩

theorem Declares.bound {start stop : Cursor} {word : Token} {function : Function}
    (declares : Declares start (.function word function) stop) :
    stop.remaining ≤ start.remaining :=
  Reading.Yields.bound (declared_of_declares declares)

/-- A semicolon behind a declaration separates it from the next one, or it is the last one. -/
theorem isDeclared_functions {start : Cursor} {after : List Token → Prop}
    (numbered : start.Numbered) (main : ∀ tokens, after tokens → StartsIn [.beginWord] tokens)
    (follows : Follows (.opt (.rule .functions)) after start.upcoming) :
    IsDeclared start .functions after := by
  rcases Follows.opt_iff.mp follows with ended | found
  · obtain ⟨token, others, whole, listed⟩ := main _ ended
    have same : start.kind = token.kind := congrArg Token.kind (List.cons.inj whole).1
    have other : start.kind ≠ .funcWord := by simp [same, List.mem_singleton.mp listed]
    exact ⟨[], start, .noFunctions other, numbered, ended⟩
  · have first := Follows.seq_iff.mp (Follows.rule_iff.mp found)
    obtain ⟨listed, rest⟩ :=
      (follows_token (by decide)).mp (Follows.seq_iff.mp (Follows.rule_iff.mp first))
    have word := List.mem_singleton.mp listed
    have inside : start.kind ≠ .eof := by simp [word]
    have less := remaining_advance_lt inside
    have greedy : Greedy (Follows (.seq (.star (.seq (.token [.semicolon]) (.rule .function)))
        (.opt (.token [.semicolon]))) after) := by
      have inert : ∀ kind ∈ [Kind.semicolon, .beginWord],
          kind ≠ .leftParen ∧ operandBehind? kind = none := by decide
      refine greedy_of_inert (fun tokens holds => ?_) inert
      rcases Follows.star_iff.mp (Follows.seq_iff.mp holds) with ended | next
      · rcases Follows.opt_iff.mp ended with holds | separator
        · exact (main _ holds).mono (by decide)
        · exact separator.startsIn_token.mono (by decide)
      · exact (Follows.seq_iff.mp next).startsIn_token.mono (by decide)
    obtain ⟨one, later, declared, numberedLater, rest⟩ :=
      isDeclared_function start.current (numbered.advance inside) greedy rest
    have bound := declared.bound
    by_cases semicolon : later.kind = .semicolon
    · have laterInside : later.kind ≠ .eof := by simp [semicolon]
      have lesser := remaining_advance_lt laterInside
      have behind : Follows (.opt (.rule .functions)) after later.advance.upcoming := by
        rcases Follows.star_iff.mp (Follows.seq_iff.mp rest) with ended | next
        · rcases Follows.opt_iff.mp ended with holds | separator
          · obtain ⟨token, others, whole, listed⟩ := main _ holds
            have same : later.kind = token.kind := congrArg Token.kind (List.cons.inj whole).1
            rw [← same, semicolon] at listed
            exact absurd listed (by decide)
          · exact Follows.opt_iff.mpr (.inl ((follows_token (by decide)).mp separator).2)
        · have next := ((follows_token (by decide)).mp (Follows.seq_iff.mp next)).2
          refine Follows.opt_iff.mpr (.inr (Follows.rule_iff.mpr (Follows.seq_iff.mpr ?_)))
          simpa only [Follows.seq_eq] using next
      obtain ⟨others, stop, tail, numberedStop, holds⟩ :=
        isDeclared_functions (numberedLater.advance laterInside) main behind
      exact ⟨_, stop, .functionsMore word declared semicolon tail, numberedStop, holds⟩
    · rcases Follows.star_iff.mp (Follows.seq_iff.mp rest) with ended | next
      · rcases Follows.opt_iff.mp ended with holds | separator
        · exact ⟨[one], later, .functionsLast word declared semicolon, numberedLater, holds⟩
        · obtain ⟨listed, _⟩ := (follows_token (by decide)).mp separator
          exact absurd (List.mem_singleton.mp listed) semicolon
      · obtain ⟨listed, _⟩ := (follows_token (by decide)).mp (Follows.seq_iff.mp next)
        exact absurd (List.mem_singleton.mp listed) semicolon
termination_by start.remaining

end Reader

namespace Parsed

open Cursor

variable {cursor : Cursor}

theorem upcoming_start {tokens : List Token} (closed : Token.Closed tokens) :
    (Cursor.start tokens closed).upcoming = tokens := by
  cases tokens with
  | nil => simp [Token.Closed] at closed
  | cons first others => rfl

/-- A stream is read without an error if its parts are and nothing is left over. -/
theorem errors_ofCursor_eq_nil_iff :
    (ofCursor cursor).errors = [] ↔
      cursor.kind = .programWord ∧
        ∃ found later, Declares cursor.advance (.functions found) later ∧
          ∃ body stop, Builds later (.block body) [] stop ∧ stop.kind = .eof := by
  by_cases word : cursor.kind = .programWord
  · rw [errors_ofCursor word, List.append_eq_nil_iff, List.append_eq_nil_iff]
    constructor
    · rintro ⟨⟨cleanFunctions, cleanBody⟩, ended⟩
      refine ⟨word, _, _, declares_of_functions ⟨rfl, cleanFunctions, rfl⟩, _, _,
        builds_of_built (.block _) ⟨rfl, cleanBody, rfl⟩, ?_⟩
      rw [cleanFunctions, cleanBody] at ended
      simpa [atEnd] using ended
    · rintro ⟨_, found, later, declares, body, stop, builds, ended⟩
      obtain ⟨rfl, cleanFunctions, rfl⟩ := declared_of_declares declares
      obtain ⟨rfl, cleanBody, rfl⟩ := built_of_builds builds
      rw [cleanFunctions, cleanBody]
      simp [atEnd, ended]
  · simp [ofCursor_of_other word, word]

theorem isSome_program?_of_errors (clean : (ofCursor cursor).errors = []) :
    (ofCursor cursor).program?.isSome := by
  have word := (errors_ofCursor_eq_nil_iff.mp clean).1
  simp [program?_ofCursor word]

/-- Nothing but the end marker is left. -/
def AtEnd (tokens : List Token) : Prop := ∃ mark, tokens = [mark] ∧ mark.kind = .eof

theorem derives_dropLast_iff {tokens : List Token} (closed : Token.Closed tokens) (rule : Rule) :
    Derives (.rule rule) (tokens.dropLast.map Token.kind) ↔
      Follows (.rule rule) AtEnd tokens := by
  constructor
  · intro derives
    obtain ⟨mark, last, ended⟩ := Option.map_eq_some_iff.mp closed
    obtain ⟨front, rfl⟩ := List.getLast?_eq_some_iff.mp last
    rw [List.dropLast_concat] at derives
    exact ⟨front, [mark], rfl, derives, mark, rfl, ended⟩
  · rintro ⟨front, _, rfl, derives, mark, rfl, _⟩
    rwa [List.dropLast_concat]

theorem atEnd_of_suffix {tokens front : List Token} {stop : Cursor}
    (single : ∀ token ∈ tokens.dropLast, token.kind ≠ .eof)
    (whole : tokens = front ++ stop.upcoming) (ended : stop.kind = .eof) :
    AtEnd stop.upcoming := by
  refine ⟨stop.current, ?_, ended⟩
  unfold upcoming at whole ⊢
  cases ahead : stop.ahead with
  | nil => rfl
  | cons next others =>
      rw [whole, ahead, List.dropLast_append_of_ne_nil (by simp), List.dropLast_cons_cons] at single
      exact absurd ended (single stop.current (by simp))

/-- The derivation of a program is what the reader goes along. -/
theorem errors_ofTokens_eq_nil_iff {tokens : List Token} (closed : Token.Closed tokens)
    (single : ∀ token ∈ tokens.dropLast, token.kind ≠ .eof)
    (numbered : ∀ token ∈ tokens, token.kind = .number →
      ∃ value, token.literal? = some (.int value)) :
    (ofTokens tokens closed).errors = [] ↔
      Derives (.rule .program) (tokens.dropLast.map Token.kind) := by
  have whole := upcoming_start closed
  rw [derives_dropLast_iff closed, ofTokens, errors_ofCursor_eq_nil_iff]
  constructor
  · rintro ⟨word, found, later, declares, body, stop, builds, ended⟩
    have middle := follows_of_declares declares
    have follows : Follows (.rule .program) (· = stop.upcoming) tokens := by
      rw [← whole]
      refine Follows.rule_iff.mpr (.seq (word_follows word (by decide)) (.seq middle ?_))
      exact follows_of_builds builds rfl
    obtain ⟨front, rest, split, derives, rfl⟩ := follows
    exact ⟨front, _, split, derives, atEnd_of_suffix single split ended⟩
  · intro follows
    rw [← whole] at follows
    have follows := Follows.seq_iff.mp (Follows.rule_iff.mp follows)
    obtain ⟨listed, rest⟩ := (follows_token (by decide)).mp follows
    have word := List.mem_singleton.mp listed
    have numberedStart : (Cursor.start tokens closed).Numbered := by
      intro token member
      exact numbered token (whole ▸ member)
    have main : ∀ tokens, Follows (.rule .block) AtEnd tokens → StartsIn [.beginWord] tokens :=
      fun tokens follows => (Follows.seq_iff.mp (Follows.rule_iff.mp follows)).startsIn_token
    obtain ⟨found, later, declares, numberedLater, rest⟩ :=
      isDeclared_functions (numberedStart.advance (by simp [word])) main (Follows.seq_iff.mp rest)
    obtain ⟨body, stop, builds, _, mark, left, ended⟩ := isBuilt_block numberedLater rest
    have marked : stop.current = mark := (List.cons.inj left).1
    exact ⟨word, found, later, declares, body, stop, builds, by rw [kind, marked]; exact ended⟩

/-- A stream whose only end marker closes it, and whose numbers have values, is read without an
error exactly when the tokens in front of the marker are a program of the grammar; the program is
then there. -/
theorem accepts_exactly_programs (tokens : List Token) (closed : Token.Closed tokens)
    (single : ∀ token ∈ tokens.dropLast, token.kind ≠ .eof)
    (numbered : ∀ token ∈ tokens, token.kind = .number →
      ∃ value, token.literal? = some (.int value)) :
    ((ofTokens tokens closed).errors = [] ↔
        Derives (.rule .program) (tokens.dropLast.map Token.kind)) ∧
      ((ofTokens tokens closed).errors = [] → (ofTokens tokens closed).program?.isSome) :=
  ⟨errors_ofTokens_eq_nil_iff closed single numbered, isSome_program?_of_errors⟩

/-- The tokens of `program begin x := 1 end`. -/
def assignmentTokens : List Token :=
  [⟨.programWord, "program", ⟨1, ⟨0, 7⟩⟩, none⟩, ⟨.beginWord, "begin", ⟨1, ⟨8, 13⟩⟩, none⟩,
    ⟨.ident, "x", ⟨1, ⟨14, 15⟩⟩, none⟩, ⟨.assign, ":=", ⟨1, ⟨16, 18⟩⟩, none⟩,
    ⟨.number, "1", ⟨1, ⟨19, 20⟩⟩, some (.int 1)⟩, ⟨.endWord, "end", ⟨1, ⟨21, 24⟩⟩, none⟩,
    ⟨.eof, "", ⟨1, ⟨24, 24⟩⟩, none⟩]

/-- The same tokens without the word `end`. -/
def unendedTokens : List Token := assignmentTokens.filter fun token => token.kind ≠ .endWord

/-- The one stream is read without an error and is a program, the other one neither. -/
theorem accepts_exactly_programs_of_assignment :
    (ofTokens assignmentTokens (by decide)).errors = [] ∧
      Derives (.rule .program) (assignmentTokens.dropLast.map Token.kind) ∧
      (ofTokens assignmentTokens (by decide)).program?.isSome ∧
      (ofTokens unendedTokens (by decide)).errors.map SyntaxError.fault =
        [.unexpectedToken .endWord] ∧
      ¬ Derives (.rule .program) (unendedTokens.dropLast.map Token.kind) := by
  have accepted : (ofTokens assignmentTokens (by decide)).errors = [] := by cbv
  have refused : (ofTokens unendedTokens (by decide)).errors.map SyntaxError.fault =
      [.unexpectedToken .endWord] := by cbv
  have whole := accepts_exactly_programs assignmentTokens (by decide) (by decide)
    (by simp [assignmentTokens])
  have unended := accepts_exactly_programs unendedTokens (by decide) (by decide)
    (by simp [unendedTokens, assignmentTokens])
  refine ⟨accepted, whole.1.mp accepted, whole.2 accepted, refused, fun derives => ?_⟩
  rw [unended.1.mpr derives] at refused
  cases refused

end Parsed

end Sipl
