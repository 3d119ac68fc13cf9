import Sipl.Proofs.Format.Writable
import Sipl.Proofs.Reader.Ahead
import Sipl.Proofs.Reader.Builds
import Sipl.Proofs.Reader.Declares
import Sipl.Proofs.Reader.Soundness

namespace Sipl

theorem Spelled.of_suffix {tokens tail : List Token} {words : List String}
    (spelled : Spelled tokens words) (suffix : tail <:+ tokens) (nonempty : tail ≠ []) :
    ∃ words, Spelled tail words := by
  induction spelled with
  | ended closed =>
      rcases List.suffix_cons_iff.mp suffix with rfl | nothing
      · exact ⟨[], .ended closed⟩
      · exact absurd (List.suffix_nil.mp nothing) nonempty
  | token spells literal rest ih =>
      rcases List.suffix_cons_iff.mp suffix with rfl | inner
      · exact ⟨_, .token spells literal rest⟩
      · exact ih inner

namespace Cursor

/-- The tokens that are not taken yet are spelled. -/
def IsSpelled (cursor : Cursor) : Prop := ∃ words, Spelled cursor.upcoming words

namespace IsSpelled

variable {cursor : Cursor}

theorem later {stop : Cursor} (spelled : cursor.IsSpelled)
    (suffix : stop.upcoming <:+ cursor.upcoming) : stop.IsSpelled := by
  obtain ⟨words, known⟩ := spelled
  exact known.of_suffix suffix (by simp [upcoming])

theorem advance (spelled : cursor.IsSpelled) : cursor.advance.IsSpelled :=
  spelled.later cursor.advance_upcoming_suffix

theorem behind {stop : Cursor} {phrase : Reader.Phrase} (spelled : cursor.IsSpelled)
    (reads : Reader.Reads cursor phrase stop) : stop.IsSpelled := by
  obtain ⟨front, rest, whole, _, rfl⟩ := Reader.follows_of_reads reads
  exact spelled.later ⟨front, whole.symm⟩

/-- A token in front of the end marker is spelled and has the literal of its lexeme. -/
theorem current (spelled : cursor.IsSpelled) (inside : cursor.kind ≠ .eof) :
    Spells cursor.kind cursor.current.lexeme.toList ∧
      cursor.current.literal? = Scan.literalOf? cursor.kind cursor.current.lexeme.toList := by
  obtain ⟨passed, current, ahead, closed⟩ := cursor
  obtain ⟨words, known⟩ := spelled
  unfold upcoming at known
  cases known with
  | ended closed => exact absurd closed inside
  | token spells literal => exact ⟨spells, literal⟩

theorem isName (spelled : cursor.IsSpelled) (name : cursor.kind = .ident) :
    IsName cursor.current.lexeme := by
  have spells := (spelled.current (by simp [name])).1
  rwa [name] at spells

theorem natural (spelled : cursor.IsSpelled) (digits : cursor.kind = .number) {value : Int}
    (known : cursor.current.literal? = some (.int value)) : 0 ≤ value := by
  have literal := (spelled.current (by simp [digits])).2
  rw [digits, known] at literal
  obtain rfl := Literal.int.inj (Option.some.inj literal)
  exact Int.natCast_nonneg _

end IsSpelled

end Cursor

namespace Reader

open Reading Cursor Keeper

/-- What is read of a phrase can be written.  Only the loosest two levels yield anything that
parentheses do not hold. -/
def Phrase.Writable : Phrase → Prop
  | .disjunction expr => expr.Writable
  | .disjunctionTail left expr => left.Writable → expr.Writable
  | .conjunction expr => expr.Writable ∧ expr.loose .and = false
  | .conjunctionTail left expr =>
    left.Writable ∧ left.loose .and = false → expr.Writable ∧ expr.loose .and = false
  | .additiveTail left expr =>
    left.Writable ∧ left.loose .comparison = false →
      expr.Writable ∧ expr.loose .comparison = false
  | .comparison expr | .additive expr | .multiplicative expr | .unary expr | .primary expr
  | .conditional _ expr => expr.Writable ∧ expr.loose .comparison = false
  | .arguments args | .argumentsTail args => Expr.ArgsWritable args

theorem loose_arith (site : Site) (op : ArithOp) (left right : Expr) :
    (Expr.arith site op left right).loose .comparison = false := by
  cases op <;> rfl

theorem loose_and_of_comparison {expr : Expr} (tight : expr.loose .comparison = false) :
    expr.loose .and = false := by
  simp only [Expr.loose, decide_eq_false_iff_not] at tight ⊢
  revert tight
  cases expr.precedence <;> decide

theorem writable_of_reads {start stop : Cursor} {phrase : Phrase}
    (reads : Reads start phrase stop) (spelled : start.IsSpelled) : phrase.Writable := by
  induction reads with
  | disjunction first _ ihFirst ihOthers =>
      exact ihOthers (spelled.behind first) (ihFirst spelled).1
  | disjunctionMore _ next _ ihNext ihOthers =>
      intro left
      have right := ihNext spelled.advance
      refine ihOthers (spelled.advance.behind next) ⟨⟨left, .inl rfl⟩, right.1, .inl right.2⟩
  | disjunctionEnd => exact id
  | conjunction first _ ihFirst ihOthers =>
      have left := ihFirst spelled
      exact ihOthers (spelled.behind first) ⟨left.1, loose_and_of_comparison left.2⟩
  | conjunctionMore _ next _ ihNext ihOthers =>
      intro left
      have right := ihNext spelled.advance
      exact ihOthers (spelled.advance.behind next)
        ⟨⟨⟨left.1, .inl left.2⟩, right.1, .inr right.2⟩, rfl⟩
  | conjunctionEnd => exact id
  | comparisonBoth first _ _ ihFirst ihSecond =>
      have left := ihFirst spelled
      have right := ihSecond (spelled.behind first).advance
      exact ⟨⟨⟨left.1, .inr left.2⟩, right.1, .inr right.2⟩, loose_arith ..⟩
  | comparisonOne _ _ ihOnly => exact ihOnly spelled
  | additive first _ ihFirst ihOthers => exact ihOthers (spelled.behind first) (ihFirst spelled)
  | additiveMore _ next _ ihNext ihOthers =>
      intro left
      have right := ihNext spelled.advance
      exact ihOthers (spelled.advance.behind next)
        ⟨⟨⟨left.1, .inr left.2⟩, right.1, .inr right.2⟩, loose_arith ..⟩
  | additiveEnd => exact id
  | multiplicativeBoth first _ _ ihFirst ihSecond =>
      have left := ihFirst spelled
      have right := ihSecond (spelled.behind first).advance
      exact ⟨⟨⟨left.1, .inr left.2⟩, right.1, .inr right.2⟩, loose_arith ..⟩
  | multiplicativeOne _ _ ihOnly => exact ihOnly spelled
  | unaryOperator _ _ ihInner =>
      have operand := ihInner spelled.advance
      exact ⟨⟨operand.1, .inr operand.2⟩, rfl⟩
  | unaryPrimary _ _ ihOnly => exact ihOnly spelled
  | grouping _ _ _ ihInner => exact ihInner spelled.advance
  | choice _ _ ihRest => exact ihRest spelled.advance
  | number digits known => exact ⟨spelled.natural digits known, rfl⟩
  | trueWord | falseWord => exact ⟨trivial, rfl⟩
  | var name => exact ⟨spelled.isName name, rfl⟩
  | call name _ _ ihInner => exact ⟨⟨spelled.isName name, ihInner spelled.advance.advance⟩, rfl⟩
  | conditionalBoth condition _ first _ _ ihCondition ihFirst ihSecond =>
      have cond := ihCondition spelled
      have spelledThen := (spelled.behind condition).advance
      have thenBranch := ihFirst spelledThen
      have elseBranch := ihSecond (spelledThen.behind first).advance
      exact ⟨⟨cond, ⟨thenBranch.1, .inr thenBranch.2⟩, elseBranch.1, .inr elseBranch.2⟩, rfl⟩
  | conditionalOne condition _ _ _ ihCondition ihOnly =>
      have branch := ihOnly (spelled.behind condition).advance
      exact ⟨⟨ihCondition spelled, branch.1, .inr branch.2⟩, rfl⟩
  | noArguments | argumentsEnd => exact trivial
  | arguments _ head _ ihHead ihTail =>
      have first := ihHead spelled
      exact ⟨⟨first.1, .inr first.2⟩, ihTail (spelled.behind head)⟩
  | argumentsMore _ head _ ihHead ihTail =>
      have first := ihHead spelled.advance
      exact ⟨⟨first.1, .inr first.2⟩, ihTail (spelled.advance.behind head)⟩

theorem writable_of_disjunction {cursor stop : Cursor} {expr : Expr} (spelled : cursor.IsSpelled)
    (yields : (trees.disjunction cursor).Yields expr stop) : expr.Writable ∧ stop.IsSpelled := by
  have reads := reads_of_yielded (.disjunction expr) yields
  exact ⟨writable_of_reads reads spelled, spelled.behind reads⟩

theorem stmtsWritable_append {left right : List Stmt} (first : StmtsWritable left)
    (second : StmtsWritable right) : StmtsWritable (left ++ right) := by
  rw [stmtsWritable_iff] at first second ⊢
  exact List.forall_mem_append.mpr ⟨first, second⟩

mutual

theorem writable_block {cursor stop : Cursor} {made : Block} {errors : List SyntaxError}
    (spelled : cursor.IsSpelled) (yields : (trees.block cursor).Yields made errors stop) :
    made.Writable := by
  by_cases opened : cursor.kind = .beginWord
  · obtain ⟨stmts, _, _, inner, _, _, rfl, _⟩ := (yields_block opened).mp yields
    have less := remaining_advance_lt (inside_of_kind opened)
    exact writable_statements spelled.advance inner
  · obtain ⟨_, rfl⟩ := (yields_block_of_unopened opened).mp yields
    exact trivial
termination_by cursor.remaining * 4 + 2

theorem writable_statements {cursor stop : Cursor} {stmts : List Stmt}
    {errors : List SyntaxError} (spelled : cursor.IsSpelled)
    (yields : (trees.statements cursor).Yields stmts errors stop) : StmtsWritable stmts := by
  obtain ⟨first, _, later, one, rest⟩ := yields_statements.mp yields
  have bound := one.bound
  have spelledLater := spelled.later (one.ahead (Recovered.meets_orSkip (meets_statement cursor)))
  have kept : StmtsWritable first := by
    rcases yields_orSkip.mp one with ⟨stmt, read, rfl⟩ | ⟨_, _, rfl, _⟩
    · exact ⟨writable_statement spelled read, trivial⟩
    · exact trivial
  rcases rest with ⟨semicolon, others, _, tail, rfl, _⟩ | ⟨_, rfl, _⟩
  · have less := remaining_advance_lt (inside_of_kind semicolon)
    exact stmtsWritable_append kept (writable_statements spelledLater.advance tail)
  · exact kept
termination_by cursor.remaining * 4 + 1

theorem writable_statement {cursor stop : Cursor} {stmt : Stmt} {errors : List SyntaxError}
    (spelled : cursor.IsSpelled) (yields : (trees.statement cursor).Yields (stmt, errors) stop) :
    stmt.Writable := by
  by_cases ifWord : cursor.kind = .ifWord
  · obtain ⟨cond, afterCond, condition, thenWord, thenBlock, _, afterThen, first, rest⟩ :=
      (yields_ifStatement ifWord).mp yields
    have less := remaining_advance_lt (inside_of_kind ifWord)
    have condBound := condition.bound
    have thenLess := remaining_advance_lt (inside_of_kind thenWord)
    have thenBound := first.bound
    obtain ⟨condWritable, spelledCond⟩ := writable_of_disjunction spelled.advance condition
    have spelledThen := spelledCond.advance.later (first.ahead (meets_block _))
    have thenWritable := writable_block spelledCond.advance first
    rcases rest with ⟨elseWord, elseBlock, _, second, rfl, _⟩ | ⟨_, rfl, _, _⟩
    · have elseLess := remaining_advance_lt (inside_of_kind elseWord)
      exact ⟨condWritable, thenWritable, writable_block spelledThen.advance second⟩
    · exact ⟨condWritable, thenWritable⟩
  by_cases whileWord : cursor.kind = .whileWord
  · obtain ⟨cond, afterCond, condition, doWord, body, only, rfl⟩ :=
      (yields_whileStatement whileWord).mp yields
    have less := remaining_advance_lt (inside_of_kind whileWord)
    have condBound := condition.bound
    have doLess := remaining_advance_lt (inside_of_kind doWord)
    obtain ⟨condWritable, spelledCond⟩ := writable_of_disjunction spelled.advance condition
    exact ⟨condWritable, writable_block spelledCond.advance only⟩
  by_cases name : cursor.kind = .ident
  · obtain ⟨_, value, source, rfl, _⟩ := (yields_assignment name).mp yields
    exact ⟨spelled.isName name, (writable_of_disjunction spelled.advance.advance source).1⟩
  · rw [statement_eq_fail ifWord whileWord name] at yields
    exact absurd yields yields_fail
termination_by cursor.remaining * 4

end

theorem writable_paramsTail {cursor stop : Cursor} {found : List Param}
    (spelled : cursor.IsSpelled) (yields : (trees.paramsTail cursor).Yields found stop) :
    ∀ param ∈ found, IsName param.name := by
  rcases yields_paramsTail.mp yields with ⟨comma, name, others, tail, rfl⟩ | ⟨_, rfl, _⟩
  · have less := remaining_advance_lt (inside_of_kind comma)
    have lesser := remaining_advance_lt (inside_of_kind name)
    have others := writable_paramsTail spelled.advance.advance tail
    exact List.forall_mem_cons.mpr ⟨spelled.advance.isName name, others⟩
  · exact List.forall_mem_nil _
termination_by cursor.remaining

theorem writable_params {cursor stop : Cursor} {found : List Param}
    (spelled : cursor.IsSpelled) (yields : (trees.params cursor).Yields found stop) :
    ∀ param ∈ found, IsName param.name := by
  rcases yields_params.mp yields with ⟨_, rfl, _⟩ | ⟨name, others, tail, rfl⟩
  · exact List.forall_mem_nil _
  · have others := writable_paramsTail spelled.advance tail
    exact List.forall_mem_cons.mpr ⟨spelled.isName name, others⟩

theorem writable_function {cursor stop : Cursor} {word : Token} {found : Function}
    {errors : List SyntaxError} (spelled : cursor.IsSpelled)
    (yields : (trees.function word cursor).Yields (found, errors) stop) : found.Writable := by
  obtain ⟨name, _, params, afterParams, inner, _, _, body, value, same⟩ :=
    yields_function.mp yields
  obtain ⟨rfl, _⟩ := Prod.mk.inj same
  have spelledParams := spelled.advance.advance
  have spelledBody := (spelledParams.later (inner.ahead (meets_params _))).advance.advance
  have body := writable_of_reads (reads_of_yielded (.comparison body) value) spelledBody
  exact ⟨spelled.isName name, writable_params spelledParams inner, body.1, .inl body.2⟩

theorem writable_functions {cursor stop : Cursor} {found : List Function}
    {errors : List SyntaxError} (spelled : cursor.IsSpelled)
    (yields : (trees.functions cursor).Yields found errors stop) :
    ∀ function ∈ found, function.Writable := by
  by_cases word : cursor.kind = .funcWord
  · obtain ⟨declared, _, later, one, rest⟩ := (yields_functions word).mp yields
    have less := remaining_advance_lt (inside_of_kind word)
    have bound := one.bound
    have spelledLater := spelled.advance.later
      (one.ahead (Recovered.meets_orSkip (meets_function _ _)))
    have kept : ∀ function ∈ declared, function.Writable := by
      rcases yields_orSkip.mp one with ⟨function, read, rfl⟩ | ⟨_, _, rfl, _⟩
      · exact List.forall_mem_singleton.mpr (writable_function spelled.advance read)
      · exact List.forall_mem_nil _
    rcases rest with ⟨semicolon, others, _, tail, rfl, _⟩ | ⟨_, _, _, tail, _⟩ | ⟨_, _, rfl, _⟩
    · have lesser := remaining_advance_lt (inside_of_kind semicolon)
      exact List.forall_mem_append.mpr ⟨kept, writable_functions spelledLater.advance tail⟩
    · exact writable_functions spelledLater tail
    · exact kept
  · rw [functions_of_other word] at yields
    obtain ⟨rfl, _⟩ := Recovered.yields_done.mp yields
    exact List.forall_mem_nil _
termination_by cursor.remaining

end Reader

/-- Programs that are read can be written. -/
theorem Parsed.writable_ofCursor {cursor : Cursor} {program : Program}
    (spelled : cursor.IsSpelled) (found : (ofCursor cursor).program? = some program) :
    program.Writable := by
  by_cases word : cursor.kind = .programWord
  · obtain rfl := Option.some.inj ((program?_ofCursor word).symm.trans found)
    have behind := (Reader.meets_functions cursor.advance).suffix
    exact ⟨Reader.writable_functions spelled.advance ⟨rfl, rfl, rfl⟩,
      Reader.writable_block (spelled.advance.later behind) ⟨rfl, rfl, rfl⟩⟩
  · rw [ofCursor_of_other word] at found
    cases found

end Sipl
