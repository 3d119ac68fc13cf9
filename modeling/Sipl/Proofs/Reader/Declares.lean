import Sipl.Proofs.Reader.Reads

namespace Sipl

namespace Reader

open Reading Cursor Keeper

/-- What the reader yields of declarations. -/
inductive Declaration where
  | params (params : List Param)
  | paramsTail (params : List Param)
  | function (word : Token) (function : Function)
  | functions (functions : List Function)

/-- A declaration is read between two cursors. -/
inductive Declares : Cursor → Declaration → Cursor → Prop where
  | noParams {stop : Cursor} (closed : stop.kind = .rightParen) : Declares stop (.params []) stop
  | params {start stop : Cursor} {others : List Param} (name : start.kind = .ident)
      (tail : Declares start.advance (.paramsTail others) stop) :
      Declares start (.params (paramOf start.current :: others)) stop
  | paramsEnd {stop : Cursor} (other : stop.kind ≠ .comma) : Declares stop (.paramsTail []) stop
  | paramsMore {start stop : Cursor} {others : List Param} (comma : start.kind = .comma)
      (name : start.advance.kind = .ident)
      (tail : Declares start.advance.advance (.paramsTail others) stop) :
      Declares start (.paramsTail (paramOf start.advance.current :: others)) stop
  | function {start later stop : Cursor} {word : Token} {params : List Param} {body : Expr}
      (name : start.kind = .ident) (opened : start.advance.kind = .leftParen)
      (inner : Declares start.advance.advance (.params params) later)
      (closed : later.kind = .rightParen) (eq : later.advance.kind = .eq)
      (value : Reads later.advance.advance (.comparison body) stop) :
      Declares start (.function word ⟨⟨word.site.line, word.site.span.merge stop.previousSpan⟩,
        start.current.lexeme, params, body⟩) stop
  | noFunctions {stop : Cursor} (other : stop.kind ≠ .funcWord) :
      Declares stop (.functions []) stop
  | functionsLast {start stop : Cursor} {one : Function} (word : start.kind = .funcWord)
      (declared : Declares start.advance (.function start.current one) stop)
      (other : stop.kind ≠ .semicolon) : Declares start (.functions [one]) stop
  | functionsMore {start later stop : Cursor} {one : Function} {others : List Function}
      (word : start.kind = .funcWord)
      (declared : Declares start.advance (.function start.current one) later)
      (semicolon : later.kind = .semicolon)
      (rest : Declares later.advance (.functions others) stop) :
      Declares start (.functions (one :: others)) stop

section Parts

variable {start stop : Cursor} {found : List Param}

theorem yields_paramsTail : (trees.paramsTail start).Yields found stop ↔
    (start.kind = .comma ∧ start.advance.kind = .ident ∧
      ∃ others, (trees.paramsTail start.advance.advance).Yields others stop ∧
        paramOf start.advance.current :: others = found) ∨
    (start.kind ≠ .comma ∧ [] = found ∧ start = stop) := by
  rw [paramsTail]
  by_cases comma : start.kind = .comma
  · simp only [comma, ↓reduceDIte, during_trees, yields_take, yields_andThen, yields_expectName,
      yields_finish, exists_prop, true_and, ne_eq, not_true_eq_false, false_and, or_false]
    constructor
    · rintro ⟨_, _, ⟨name, rfl, rfl⟩, tail⟩
      exact ⟨name, tail⟩
    · rintro ⟨name, tail⟩
      exact ⟨_, _, ⟨name, rfl, rfl⟩, tail⟩
  · simp [comma]

theorem yields_params : (trees.params start).Yields found stop ↔
    (start.kind = .rightParen ∧ [] = found ∧ start = stop) ∨
    (start.kind = .ident ∧ ∃ others, (trees.paramsTail start.advance).Yields others stop ∧
      paramOf start.current :: others = found) := by
  rw [params, during_trees]
  by_cases closed : start.kind = .rightParen
  · simp [closed]
  · simp only [closed, ↓reduceIte, yields_andThen, yields_expectName, yields_finish, exists_prop,
      false_and, false_or]
    constructor
    · rintro ⟨_, _, ⟨name, rfl, rfl⟩, tail⟩
      exact ⟨name, tail⟩
    · rintro ⟨name, tail⟩
      exact ⟨_, _, ⟨name, rfl, rfl⟩, tail⟩

theorem yields_function {word : Token} {made : Function × List SyntaxError} :
    (trees.function word start).Yields made stop ↔
      start.kind = .ident ∧ start.advance.kind = .leftParen ∧
        ∃ inner later, (trees.params start.advance.advance).Yields inner later ∧
          later.kind = .rightParen ∧ later.advance.kind = .eq ∧
          ∃ body, (trees.comparison later.advance.advance).Yields body stop ∧
            (⟨⟨word.site.line, word.site.span.merge stop.previousSpan⟩, start.current.lexeme,
              inner, body⟩, []) = made := by
  simp only [function, yields_andThen, yields_expectName, yields_expect, yields_finish, exists_prop]
  constructor
  · rintro ⟨_, _, ⟨name, rfl, rfl⟩, _, _, ⟨opened, _, rfl⟩, inner, later, listed,
      _, _, ⟨closed, _, rfl⟩, _, _, ⟨eq, _, rfl⟩, value⟩
    exact ⟨name, opened, inner, later, listed, closed, eq, value⟩
  · rintro ⟨name, opened, inner, later, listed, closed, eq, value⟩
    exact ⟨_, _, ⟨name, rfl, rfl⟩, _, _, ⟨opened, rfl, rfl⟩, inner, later, listed,
      _, _, ⟨closed, rfl, rfl⟩, _, _, ⟨eq, rfl, rfl⟩, value⟩

/-- The declaration at a place, or none where it cannot be read and is skipped. -/
def declarationOrSkip (cursor : Cursor) : Recovered cursor.advance (List Function) :=
  trees.orSkip (trees.function cursor.current cursor.advance) .declarationBoundary

theorem yields_functions {functions : List Function} {errors : List SyntaxError}
    (word : start.kind = .funcWord) :
    (trees.functions start).Yields functions errors stop ↔
      ∃ declared before later, (declarationOrSkip start).Yields declared before later ∧
        ((later.kind = .semicolon ∧
            ∃ others after, (trees.functions later.advance).Yields others after stop ∧
              declared ++ others = functions ∧ before ++ after = errors) ∨
          (later.kind ≠ .semicolon ∧ declared = [] ∧
            ∃ after, (trees.functions later).Yields functions after stop ∧
              before ++ after = errors) ∨
          (later.kind ≠ .semicolon ∧ declared ≠ [] ∧ declared = functions ∧ before = errors ∧
            later = stop)) := by
  rw [Keeper.functions, dif_pos word, during_trees, during_trees, yields_pass,
    Recovered.yields_andThen]
  constructor
  · rintro ⟨declared, before, later, after, one, rest, rfl⟩
    refine ⟨declared, before, later, one, ?_⟩
    by_cases semicolon : later.kind = .semicolon
    · rw [dif_pos semicolon, yields_pass, Recovered.yields_finish] at rest
      obtain ⟨others, tail, same⟩ := rest
      exact .inl ⟨semicolon, others, after, tail, same, rfl⟩
    · rw [dif_neg semicolon] at rest
      by_cases empty : declared = []
      · subst empty
        exact .inr (.inl ⟨semicolon, rfl, after, rest, rfl⟩)
      · rw [if_neg (by simpa using empty)] at rest
        obtain ⟨same, rfl, ended⟩ := rest
        exact .inr (.inr ⟨semicolon, empty, same, (List.append_nil _).symm, ended⟩)
  · rintro ⟨declared, before, later, one, ⟨semicolon, others, after, tail, rfl, rfl⟩ |
      ⟨other, rfl, after, tail, rfl⟩ | ⟨other, some, rfl, rfl, rfl⟩⟩
    · refine ⟨declared, before, later, after, one, ?_, rfl⟩
      rw [dif_pos semicolon, yields_pass]
      exact Recovered.yields_finish.mpr ⟨others, tail, rfl⟩
    · refine ⟨[], before, later, after, one, ?_, rfl⟩
      rw [dif_neg other]
      exact tail
    · refine ⟨declared, before, later, [], one, ?_, List.append_nil _⟩
      rw [dif_neg other, if_neg (by simpa using some)]
      exact ⟨rfl, rfl, rfl⟩

theorem functions_of_other (other : start.kind ≠ .funcWord) :
    trees.functions start = .done [] := by
  rw [Keeper.functions, dif_neg other]
  rfl

end Parts

/-- A declaration is the result of the part of the reader that it names, without an error. -/
def Declared (start : Cursor) (declaration : Declaration) (stop : Cursor) : Prop :=
  match declaration with
  | .params found => (trees.params start).Yields found stop
  | .paramsTail found => (trees.paramsTail start).Yields found stop
  | .function word found => (trees.function word start).Yields (found, []) stop
  | .functions found => (trees.functions start).Yields found [] stop

theorem declared_of_declares {start stop : Cursor} {declaration : Declaration}
    (declares : Declares start declaration stop) : Declared start declaration stop := by
  induction declares with
  | noParams closed => exact yields_params.mpr (.inl ⟨closed, rfl, rfl⟩)
  | params name tail ihTail => exact yields_params.mpr (.inr ⟨name, _, ihTail, rfl⟩)
  | paramsEnd other => exact yields_paramsTail.mpr (.inr ⟨other, rfl, rfl⟩)
  | paramsMore comma name tail ihTail =>
      exact yields_paramsTail.mpr (.inl ⟨comma, name, _, ihTail, rfl⟩)
  | function name opened inner closed eq value ihInner =>
      have readBody := yielded_of_reads value
      exact yields_function.mpr ⟨name, opened, _, _, ihInner, closed, eq, _, readBody, rfl⟩
  | noFunctions other =>
      rw [Declared, functions_of_other other]
      exact ⟨rfl, rfl, rfl⟩
  | functionsLast word declared other ihDeclared =>
      exact (yields_functions word).mpr ⟨_, _, _, yields_orSkip.mpr (.inl ⟨_, ihDeclared, rfl⟩),
        .inr (.inr ⟨other, List.cons_ne_nil _ _, rfl, rfl, rfl⟩)⟩
  | functionsMore word declared semicolon rest ihDeclared ihRest =>
      exact (yields_functions word).mpr ⟨_, _, _, yields_orSkip.mpr (.inl ⟨_, ihDeclared, rfl⟩),
        .inl ⟨semicolon, _, _, ihRest, rfl, rfl⟩⟩

theorem declares_of_paramsTail {start stop : Cursor} {found : List Param}
    (yields : (trees.paramsTail start).Yields found stop) :
    Declares start (.paramsTail found) stop := by
  rcases yields_paramsTail.mp yields with ⟨comma, name, others, tail, rfl⟩ | ⟨other, rfl, rfl⟩
  · have less := remaining_advance_lt (inside_of_kind comma)
    have lesser := remaining_advance_lt (inside_of_kind name)
    exact .paramsMore comma name (declares_of_paramsTail tail)
  · exact .paramsEnd other
termination_by start.remaining

theorem declares_of_params {start stop : Cursor} {found : List Param}
    (yields : (trees.params start).Yields found stop) : Declares start (.params found) stop := by
  rcases yields_params.mp yields with ⟨closed, rfl, rfl⟩ | ⟨name, others, tail, rfl⟩
  · exact .noParams closed
  · exact .params name (declares_of_paramsTail tail)

theorem declares_of_function {start stop : Cursor} {word : Token}
    {found : Function × List SyntaxError} (yields : (trees.function word start).Yields found stop) :
    Declares start (.function word found.1) stop ∧ found.2 = [] := by
  obtain ⟨name, opened, inner, later, listed, closed, eq, body, value, rfl⟩ :=
    yields_function.mp yields
  have value := reads_of_yielded (.comparison body) value
  exact ⟨.function name opened (declares_of_params listed) closed eq value, rfl⟩

theorem declares_of_functions {start stop : Cursor} {found : List Function}
    (yields : (trees.functions start).Yields found [] stop) :
    Declares start (.functions found) stop := by
  by_cases word : start.kind = .funcWord
  · obtain ⟨declared, before, later, one, rest⟩ := (yields_functions word).mp yields
    have clean : before = [] := by
      rcases rest with ⟨_, _, _, _, _, clean⟩ | ⟨_, _, _, _, clean⟩ | ⟨_, _, _, clean, _⟩
      · exact (List.append_eq_nil_iff.mp clean).1
      · exact (List.append_eq_nil_iff.mp clean).1
      · exact clean
    subst clean
    rcases yields_orSkip.mp one with ⟨found, read, rfl⟩ | ⟨_, _, _, dirty, _⟩
    · have less := remaining_advance_lt (inside_of_kind word)
      have bound := read.bound
      have head := (declares_of_function read).1
      rcases rest with ⟨semicolon, others, after, tail, rfl, rfl⟩ | ⟨_, empty, _⟩ |
        ⟨other, _, rfl, _, rfl⟩
      · have lesser := remaining_advance_lt (inside_of_kind semicolon)
        exact .functionsMore word head semicolon (declares_of_functions tail)
      · cases empty
      · exact .functionsLast word head other
    · cases dirty
  · rw [functions_of_other word] at yields
    obtain ⟨rfl, _, rfl⟩ := Recovered.yields_done.mp yields
    exact .noFunctions word
termination_by start.remaining

end Reader

end Sipl
