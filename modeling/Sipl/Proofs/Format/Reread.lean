import Sipl.Proofs.Format.ReadTrees
import Sipl.Proofs.Reader.Completeness

namespace Sipl

open Grammar Reader Ink Scan

/-! An expression that was written is read as the same one, up to places.  Where it stands, nothing
may follow that the reader would take for a part of it; an operator that groups to the left may
follow, so such a level is left open for it. -/

/-- The words that are not taken yet. -/
def Cursor.At (cursor : Cursor) (words : List String) : Prop := Spelled cursor.upcoming words

namespace Cursor.At

variable {cursor : Cursor} {lexeme : String} {rest : List String} {kind : Kind}

theorem kind_eq (stands : cursor.At (lexeme :: rest)) (spells : Spells kind lexeme.toList) :
    cursor.kind = kind := by
  obtain ⟨passed, current, ahead, closed⟩ := cursor
  unfold At upcoming at stands
  cases stands with
  | token known literal others => exact known.kind_unique spells

theorem lexeme_eq (stands : cursor.At (lexeme :: rest)) : cursor.current.lexeme = lexeme := by
  obtain ⟨passed, current, ahead, closed⟩ := cursor
  unfold At upcoming at stands
  cases stands with
  | token known literal others => rfl

theorem literal_eq (stands : cursor.At (lexeme :: rest)) :
    cursor.current.literal? = literalOf? cursor.kind lexeme.toList := by
  obtain ⟨passed, current, ahead, closed⟩ := cursor
  unfold At upcoming at stands
  cases stands with
  | token known literal others => exact literal

theorem advance (stands : cursor.At (lexeme :: rest)) : cursor.advance.At rest := by
  have inside : cursor.kind ≠ .eof := by
    obtain ⟨passed, current, ahead, closed⟩ := cursor
    unfold At upcoming at stands
    cases stands with
    | token known literal others => exact known.ne_eof
  unfold At at stands ⊢
  rw [upcoming_eq_cons inside] at stands
  cases stands with
  | token known literal others => exact others

theorem kind_eq_eof (stands : cursor.At []) : cursor.kind = .eof := by
  obtain ⟨passed, current, ahead, closed⟩ := cursor
  unfold At upcoming at stands
  cases stands with
  | ended closed => exact closed

end Cursor.At

/-- No token of the kinds comes next. -/
def NotNext (kinds : List Kind) (rest : List String) : Prop :=
  ∀ cursor : Cursor, cursor.At rest → cursor.kind ∉ kinds

theorem notNext_of_spells {kinds : List Kind} {kind : Kind} {lexeme : String}
    {rest : List String} (spells : Spells kind lexeme.toList) (other : kind ∉ kinds) :
    NotNext kinds (lexeme :: rest) := by
  intro cursor stands
  rw [stands.kind_eq spells]
  exact other

theorem NotNext.mono {kinds fewer : List Kind} {rest : List String} (free : NotNext kinds rest)
    (within : fewer ⊆ kinds) : NotNext fewer rest :=
  fun cursor stands listed => free cursor stands (within listed)

theorem NotNext.cons {kind : Kind} {kinds : List Kind} {rest : List String}
    (head : NotNext [kind] rest) (tail : NotNext kinds rest) : NotNext (kind :: kinds) rest := by
  intro cursor stands listed
  rcases List.mem_cons.mp listed with same | listed
  · exact head cursor stands (List.mem_singleton.mpr same)
  · exact tail cursor stands listed

def Precedence.level : Precedence → Level
  | .or => .disjunction
  | .and => .conjunction
  | .comparison => .comparison
  | .additive => .additive
  | .multiplicative => .multiplicative
  | .unary => .unary
  | .primary => .primary

theorem Expr.height_le_of_tight {expr : Expr} {minimum : Precedence}
    (tight : expr.loose minimum = false) :
    expr.precedence.level.height ≤ minimum.level.height := by
  simp only [Expr.loose, decide_eq_false_iff_not] at tight
  revert tight
  cases expr.precedence <;> cases minimum <;> decide

namespace Reader

/-- The operators that a level repeats. -/
def repeated : Level → List Kind
  | .disjunction => [.orWord]
  | .conjunction => [.andWord]
  | .additive => [.plus, .minus]
  | _ => []

def arithmeticKinds : List Kind :=
  [.star, .slash, .plus, .minus, .eq, .lt, .ltEq, .gt, .gtEq, .notEq]

/-- The operators that would become part of an expression of a level, the repeated ones apart. -/
def absorbed : Level → List Kind
  | .primary | .unary => []
  | .multiplicative | .additive => [.star, .slash]
  | .comparison | .conjunction => arithmeticKinds
  | .disjunction => .andWord :: arithmeticKinds

/-- An expression of a level is read up to a place where the level may go on. -/
def Opens (level : Level) (start : Cursor) (expr : Expr) (middle : Cursor) : Prop :=
  match level with
  | .disjunction => ∀ final stop, Reads middle (.disjunctionTail expr final) stop →
      Reads start (.disjunction final) stop
  | .conjunction => ∀ final stop, Reads middle (.conjunctionTail expr final) stop →
      Reads start (.conjunction final) stop
  | .additive => ∀ final stop, Reads middle (.additiveTail expr final) stop →
      Reads start (.additive final) stop
  | level => Reads start (phraseAt level expr) middle

variable {start middle : Cursor} {expr : Expr} {level : Level}

theorem Opens.close (opens : Opens level start expr middle)
    (ended : middle.kind ∉ repeated level) : Reads start (phraseAt level expr) middle := by
  cases level with
  | disjunction => exact opens _ _ (.disjunctionEnd (by simpa [repeated] using ended))
  | conjunction => exact opens _ _ (.conjunctionEnd (by simpa [repeated] using ended))
  | additive =>
      refine opens _ _ (.additiveEnd ?_)
      rwa [← Option.not_isSome_iff_eq_none, isSome_additiveHere]
  | comparison | multiplicative | unary | primary => exact opens

theorem unaryHere_of_primary {stop : Cursor} (reads : Reads start (.primary expr) stop) :
    UnaryOp.ofKind? start.kind = none := by
  cases reads with
  | grouping found | choice found | number found | trueWord found | falseWord found | var found
  | call found => rw [found]; rfl

/-- What is read as an argument does not start with the parenthesis that closes a call. -/
theorem Reads.kind_ne_rightParen {stop : Cursor} (reads : Reads start (.comparison expr) stop) :
    start.kind ≠ .rightParen := by
  obtain ⟨token, _, whole, starts⟩ := (follows_of_reads reads).startsIn_expr
  have found : start.kind = token.kind := congrArg Token.kind (List.cons.inj whole).1
  rw [found]
  rintro closed
  rw [closed] at starts
  exact absurd starts (by decide)

/-- From one level to the next looser one. -/
theorem Opens.loosen_primary (opens : Opens .primary start expr middle) :
    Opens .unary start expr middle :=
  Reads.unaryPrimary (unaryHere_of_primary opens) opens

theorem Opens.loosen_unary (opens : Opens .unary start expr middle)
    (ended : middle.kind ∉ absorbed .multiplicative) : Opens .multiplicative start expr middle := by
  refine Reads.multiplicativeOne opens ?_
  rwa [← Option.not_isSome_iff_eq_none, isSome_multiplicativeHere]

theorem Opens.loosen_multiplicative (opens : Opens .multiplicative start expr middle) :
    Opens .additive start expr middle :=
  fun _ _ others => Reads.additive opens others

theorem Opens.loosen_additive (opens : Opens .additive start expr middle)
    (ended : middle.kind ∉ absorbed .comparison) : Opens .comparison start expr middle := by
  have within : repeated .additive ⊆ absorbed .comparison ∧ comparisons ⊆ absorbed .comparison := by
    decide
  have only := Opens.close opens fun listed => ended (within.1 listed)
  refine Reads.comparisonOne only ?_
  rw [← Option.not_isSome_iff_eq_none, isSome_comparisonHere]
  exact fun listed => ended (within.2 listed)

theorem Opens.loosen_comparison (opens : Opens .comparison start expr middle) :
    Opens .conjunction start expr middle :=
  fun _ _ others => Reads.conjunction opens others

theorem Opens.loosen_conjunction (opens : Opens .conjunction start expr middle)
    (ended : middle.kind ∉ absorbed .disjunction) : Opens .disjunction start expr middle := by
  have within : repeated .conjunction ⊆ absorbed .disjunction := by decide
  have only := Opens.close opens fun listed => ended (within listed)
  exact fun _ _ others => Reads.disjunction only others

theorem absorbed_mono {tight loose : Level} (looser : tight.height ≤ loose.height) :
    absorbed tight ⊆ absorbed loose := by
  revert looser
  cases tight <;> cases loose <;> decide

/-- An expression of a level is one of every looser level, unless it goes on there. -/
theorem Opens.climb {loose : Level} (opens : Opens level start expr middle)
    (looser : level.height ≤ loose.height) (ended : middle.kind ∉ absorbed loose) :
    Opens loose start expr middle := by
  rcases Nat.eq_or_lt_of_le looser with same | looser
  · have same : level = loose := by
      revert same
      cases level <;> cases loose <;> decide
    exact same ▸ opens
  · have below : ∀ tight : Level, tight.height ≤ loose.height → middle.kind ∉ absorbed tight :=
      fun tight looser listed => ended (absorbed_mono looser listed)
    match loose with
    | .primary => cases level <;> cases looser
    | .unary =>
        have reached : Opens .primary start expr middle :=
          opens.climb (Nat.le_of_lt_succ looser) (below _ (by decide))
        exact reached.loosen_primary
    | .multiplicative =>
        have reached : Opens .unary start expr middle :=
          opens.climb (Nat.le_of_lt_succ looser) (below _ (by decide))
        exact reached.loosen_unary ended
    | .additive =>
        have reached : Opens .multiplicative start expr middle :=
          opens.climb (Nat.le_of_lt_succ looser) (below _ (by decide))
        exact reached.loosen_multiplicative
    | .comparison =>
        have reached : Opens .additive start expr middle :=
          opens.climb (Nat.le_of_lt_succ looser) (below _ (by decide))
        exact reached.loosen_additive ended
    | .conjunction =>
        have reached : Opens .comparison start expr middle :=
          opens.climb (Nat.le_of_lt_succ looser) (below _ (by decide))
        exact reached.loosen_comparison
    | .disjunction =>
        have reached : Opens .conjunction start expr middle :=
          opens.climb (Nat.le_of_lt_succ looser) (below _ (by decide))
        exact reached.loosen_conjunction ended
termination_by loose.height
decreasing_by all_goals decide

end Reader

/-- The expression is read again at the cursor, up to a place in front of the rest. -/
def Rereads (expr : Expr) (level : Level) (cursor : Cursor) (rest : List String) : Prop :=
  ∃ again middle, Opens level cursor again middle ∧ again.unplaced = expr.unplaced ∧
    middle.At rest

/-- Nothing that would belong to the expression follows it. -/
structure Expr.Ends (expr : Expr) (level : Level) (rest : List String) : Prop where
  free : NotNext (.leftParen :: absorbed level) rest
  conditional : expr.isConditional = true → NotNext (absorbed .comparison) rest
  dangling : expr.endsOpen = true → NotNext [.elseWord] rest

/-- The expression is read again at the level of its outermost construct. -/
def Expr.Survives (expr : Expr) : Prop :=
  ∀ cursor rest, cursor.At (words expr.inks ++ rest) →
    expr.Ends expr.precedence.level rest → Rereads expr expr.precedence.level cursor rest

namespace Rereads

variable {expr : Expr} {level : Level} {cursor : Cursor} {rest : List String}

theorem climb {loose : Level} (rereads : Rereads expr level cursor rest)
    (looser : level.height ≤ loose.height) (free : NotNext (absorbed loose) rest) :
    Rereads expr loose cursor rest := by
  obtain ⟨again, middle, opens, same, stands⟩ := rereads
  exact ⟨again, middle, opens.climb looser (free middle stands), same, stands⟩

theorem close (rereads : Rereads expr level cursor rest) (ended : NotNext (repeated level) rest) :
    ∃ again stop, Reads cursor (phraseAt level again) stop ∧ again.unplaced = expr.unplaced ∧
      stop.At rest := by
  obtain ⟨again, middle, opens, same, stands⟩ := rereads
  exact ⟨again, middle, opens.close (ended middle stands), same, stands⟩

end Rereads

namespace Expr

variable {expr : Expr} {cursor : Cursor} {rest : List String}

/-- As it is, an expression is read again at every level that it binds tightly enough for. -/
theorem Survives.at_level {minimum : Precedence} (survives : expr.Survives)
    (tight : expr.loose minimum = false) (stands : cursor.At (words expr.inks ++ rest))
    (ends : expr.Ends minimum.level rest) : Rereads expr minimum.level cursor rest := by
  have looser := height_le_of_tight tight
  have within : absorbed expr.precedence.level ⊆ absorbed minimum.level := absorbed_mono looser
  have own : expr.Ends expr.precedence.level rest :=
    ⟨ends.free.mono (List.cons_subset_cons _ within), ends.conditional, ends.dangling⟩
  exact (survives cursor rest stands own).climb looser
    (ends.free.mono (List.subset_cons_self _ _))

/-- Between parentheses, it is read again wherever a primary expression may stand. -/
theorem Survives.in_parentheses (survives : expr.Survives)
    (tight : expr.loose .comparison = false)
    (stands : cursor.At ("(" :: words expr.inks ++ ")" :: rest)) :
    Rereads expr .primary cursor rest := by
  have opening : Spells .leftParen "(".toList := .symbol (by decide)
  have closing : Spells .rightParen ")".toList := .symbol (by decide)
  have opened := stands.kind_eq opening
  have closes : ∀ kinds, Kind.rightParen ∉ kinds → NotNext kinds (")" :: rest) :=
    fun kinds other => notNext_of_spells closing other
  have inner : Rereads expr .comparison cursor.advance (")" :: rest) :=
    survives.at_level tight stands.advance ⟨closes _ (by decide), fun _ => closes _ (by decide),
      fun _ => closes _ (by decide)⟩
  obtain ⟨again, later, reads, same, standsLater⟩ := inner.close (closes _ (by decide))
  have closed := standsLater.kind_eq closing
  exact ⟨again, later.advance, .grouping opened reads closed, same, standsLater.advance⟩

/-- An expression that is grouped if it has to be is read again. -/
theorem Survives.grouped {minimum : Precedence} (survives : expr.Survives) (needed : Bool)
    (bare : needed = false → expr.loose minimum = false)
    (closed : needed = true → expr.loose .comparison = false)
    (stands : cursor.At (words (Ink.grouped needed expr.inks) ++ rest))
    (free : NotNext (.leftParen :: absorbed minimum.level) rest)
    (conditional : needed = false → expr.isConditional = true → NotNext (absorbed .comparison) rest)
    (dangling : needed = false → expr.endsOpen = true → NotNext [.elseWord] rest) :
    Rereads expr minimum.level cursor rest := by
  cases needed with
  | false =>
      exact survives.at_level (bare rfl) stands ⟨free, conditional rfl, dangling rfl⟩
  | true =>
      have parenthesised : cursor.At ("(" :: words expr.inks ++ ")" :: rest) := by
        simpa [Ink.grouped, words] using stands
      have primary := survives.in_parentheses (closed rfl) parenthesised
      exact primary.climb (Nat.zero_le _) (free.mono (List.subset_cons_self _ _))

theorem isConditional_of_endsOpen (ends : expr.endsOpen = true) : expr.isConditional = true := by
  cases expr <;> first | rfl | simp [endsOpen] at ends

/-- Conditionals bind as tightly as anything. -/
theorem tight_of_conditional (conditional : expr.isConditional = true) :
    expr.loose .comparison = false := by
  cases expr <;> first | rfl | simp [isConditional] at conditional

/-- Operands are grouped if they are conditionals or too loose. -/
theorem Survives.operand {minimum : Precedence} (survives : expr.Survives)
    (fits : expr.FitsAt minimum)
    (stands : cursor.At (words (Ink.grouped (expr.looseOperand minimum) expr.inks) ++ rest))
    (free : NotNext (.leftParen :: absorbed minimum.level) rest) :
    Rereads expr minimum.level cursor rest := by
  have bare : expr.looseOperand minimum = false →
      expr.isConditional = false ∧ expr.loose minimum = false := by
    simp [looseOperand]
  refine survives.grouped _ (fun needless => (bare needless).2) ?_ stands free ?_ ?_
  · intro needed
    rcases Bool.or_eq_true_iff.mp needed with conditional | loose
    · exact tight_of_conditional conditional
    · rcases fits with tight | tight
      · rw [tight] at loose
        cases loose
      · exact tight
  · intro needless conditional
    rw [(bare needless).1] at conditional
    cases conditional
  · intro needless ends
    have conditional := isConditional_of_endsOpen ends
    rw [(bare needless).1] at conditional
    cases conditional

theorem survives_literal {site : Site} {value : Literal} (writable : value.Writable) :
    (literal site value).Survives := by
  intro cursor rest stands ends
  obtain ⟨kind, listed, spells, known⟩ := Literal.exists_spells writable
  have found : cursor.kind = kind := stands.kind_eq spells
  have literal := stands.literal_eq
  rw [found, known] at literal
  refine ⟨.literal cursor.current.site value, cursor.advance, ?_, rfl, stands.advance⟩
  simp only [List.mem_cons, List.not_mem_nil, or_false] at listed
  rcases listed with rfl | rfl | rfl
  · obtain ⟨number, rfl⟩ : ∃ number, value = .int number := by
      simp only [literalOf?, Option.some.injEq] at known
      exact ⟨_, known.symm⟩
    exact Reads.number found literal
  · obtain rfl : Literal.bool true = value := by simpa [literalOf?] using known
    exact Reads.trueWord found
  · obtain rfl : Literal.bool false = value := by simpa [literalOf?] using known
    exact Reads.falseWord found

theorem survives_var {site : Site} {name : String} (named : IsName name) :
    (var site name).Survives := by
  intro cursor rest stands ends
  have found : cursor.kind = .ident := stands.kind_eq named
  have other : cursor.advance.kind ≠ .leftParen := by
    intro opened
    exact ends.free cursor.advance stands.advance (by simp [opened])
  have lexeme : cursor.current.lexeme = name := stands.lexeme_eq
  refine ⟨_, cursor.advance, Reads.var found other, ?_, stands.advance⟩
  rw [lexeme]
  rfl

theorem survives_unary {site : Site} {op : UnaryOp} {operand : Expr} (survives : operand.Survives)
    (fits : operand.FitsAt .unary) : (unary site op operand).Survives := by
  intro cursor rest stands ends
  have split : words (unary site op operand).inks ++ rest =
      op.symbol :: (words (Ink.grouped (operand.looseOperand .unary) operand.inks) ++ rest) := by
    cases op <;> simp [inks, unaryInks, words, UnaryOp.symbol]
  rw [split] at stands
  have found : cursor.kind = op.kind := stands.kind_eq op.spells_symbol
  have operator : UnaryOp.ofKind? cursor.kind = some op := by
    rw [found]
    cases op <;> rfl
  obtain ⟨again, middle, reads, same, standsMiddle⟩ :=
    survives.operand fits stands.advance ends.free
  refine ⟨_, middle, Reads.unaryOperator operator reads, ?_, standsMiddle⟩
  simp only [unplaced, same]

theorem words_binaryInks {symbol : String} {first second : List Ink} {rest : List String} :
    words (binaryInks symbol first second) ++ rest =
      words first ++ symbol :: (words second ++ rest) := by
  simp [binaryInks, words]

theorem ArithOp.operatorHere {op : ArithOp} {strength : ArithOp → Bool}
    (found : cursor.kind = op.kind) (strong : strength op = true) :
    operatorHere? cursor strength = some op := by
  have own : ArithOp.ofKind? op.kind = some op := by cases op <;> rfl
  simp [operatorHere?, found, own, Option.filter, strong]

theorem survives_additive {site : Site} {op : ArithOp} {left right : Expr}
    (additive : op.precedence = .additive) (leftSurvives : left.Survives)
    (leftFits : left.FitsAt .additive) (rightSurvives : right.Survives)
    (rightFits : right.FitsAt .multiplicative) : (arith site op left right).Survives := by
  intro cursor rest stands ends
  have level : (arith site op left right).precedence.level = .additive := by
    rw [precedence, additive]
    rfl
  have operands : op.operandPrecedence = (.additive, .multiplicative) := by
    rw [ArithOp.operandPrecedence, additive]
  have strong : op.isAdditive = true ∧ op.kind ∉ .leftParen :: absorbed .additive := by
    revert additive
    cases op <;> decide
  rw [level] at ends ⊢
  rw [inks, operands, words_binaryInks] at stands
  obtain ⟨leftAgain, middle, opens, leftSame, standsMiddle⟩ :=
    leftSurvives.operand leftFits stands (notNext_of_spells op.spells_symbol strong.2)
  have found := standsMiddle.kind_eq op.spells_symbol
  obtain ⟨rightAgain, stop, reads, rightSame, standsStop⟩ :=
    rightSurvives.operand rightFits standsMiddle.advance ends.free
  refine ⟨_, stop, fun final _ others => opens final _
    (.additiveMore (ArithOp.operatorHere found strong.1) reads others), ?_, standsStop⟩
  simp only [unplaced, leftSame, rightSame]

theorem survives_multiplicative {site : Site} {op : ArithOp} {left right : Expr}
    (multiplicative : op.precedence = .multiplicative) (leftSurvives : left.Survives)
    (leftFits : left.FitsAt .unary) (rightSurvives : right.Survives)
    (rightFits : right.FitsAt .multiplicative) : (arith site op left right).Survives := by
  intro cursor rest stands ends
  have level : (arith site op left right).precedence.level = .multiplicative := by
    rw [precedence, multiplicative]
    rfl
  have operands : op.operandPrecedence = (.unary, .multiplicative) := by
    rw [ArithOp.operandPrecedence, multiplicative]
  have strong : op.isMultiplicative = true ∧ op.kind ∉ .leftParen :: absorbed .unary := by
    revert multiplicative
    cases op <;> decide
  rw [level] at ends ⊢
  rw [inks, operands, words_binaryInks] at stands
  obtain ⟨leftAgain, middle, leftReads, leftSame, standsMiddle⟩ :=
    leftSurvives.operand leftFits stands (notNext_of_spells op.spells_symbol strong.2)
  have found := standsMiddle.kind_eq op.spells_symbol
  obtain ⟨rightAgain, stop, rightReads, rightSame, standsStop⟩ :=
    rightSurvives.operand rightFits standsMiddle.advance ends.free
  refine ⟨_, stop, Reads.multiplicativeBoth leftReads
    (ArithOp.operatorHere found strong.1) rightReads, ?_, standsStop⟩
  simp only [unplaced, leftSame, rightSame]

theorem survives_comparison {site : Site} {op : ArithOp} {left right : Expr}
    (comparison : op.precedence = .comparison) (leftSurvives : left.Survives)
    (leftFits : left.FitsAt .additive) (rightSurvives : right.Survives)
    (rightFits : right.FitsAt .additive) : (arith site op left right).Survives := by
  intro cursor rest stands ends
  have level : (arith site op left right).precedence.level = .comparison := by
    rw [precedence, comparison]
    rfl
  have operands : op.operandPrecedence = (.additive, .additive) := by
    rw [ArithOp.operandPrecedence, comparison]
  have strong : op.isComparison = true ∧ op.kind ∉ .leftParen :: absorbed .additive ∧
      op.kind ∉ repeated .additive := by
    revert comparison
    cases op <;> decide
  rw [level] at ends ⊢
  rw [inks, operands, words_binaryInks] at stands
  have leftRereads : Rereads left .additive cursor _ :=
    leftSurvives.operand leftFits stands (notNext_of_spells op.spells_symbol strong.2.1)
  obtain ⟨leftAgain, middle, leftReads, leftSame, standsMiddle⟩ :=
    leftRereads.close (notNext_of_spells op.spells_symbol strong.2.2)
  have found := standsMiddle.kind_eq op.spells_symbol
  have rightRereads : Rereads right .additive middle.advance rest :=
    rightSurvives.operand rightFits standsMiddle.advance (ends.free.mono (by decide))
  obtain ⟨rightAgain, stop, rightReads, rightSame, standsStop⟩ :=
    rightRereads.close (ends.free.mono (by decide))
  refine ⟨_, stop, Reads.comparisonBoth leftReads
    (ArithOp.operatorHere found strong.1) rightReads, ?_, standsStop⟩
  simp only [unplaced, leftSame, rightSame]

theorem survives_or {site : Site} {left right : Expr} (leftSurvives : left.Survives)
    (leftFits : left.FitsAt .or) (rightSurvives : right.Survives)
    (rightFits : right.FitsAt .and) : (logical site .or left right).Survives := by
  intro cursor rest stands ends
  rw [inks, LogicalOp.operandPrecedence, words_binaryInks] at stands
  have spells := LogicalOp.spells_symbol .or
  have free : NotNext (.leftParen :: absorbed .disjunction) rest := ends.free
  obtain ⟨leftAgain, middle, opens, leftSame, standsMiddle⟩ :=
    leftSurvives.operand leftFits stands (notNext_of_spells spells (by decide))
  have found := standsMiddle.kind_eq spells
  have rightRereads : Rereads right .conjunction middle.advance rest :=
    rightSurvives.operand rightFits standsMiddle.advance (free.mono (by decide))
  obtain ⟨rightAgain, stop, reads, rightSame, standsStop⟩ :=
    rightRereads.close (free.mono (by decide))
  refine ⟨_, stop, fun final _ others => opens final _
    (.disjunctionMore found reads others), ?_, standsStop⟩
  simp only [unplaced, leftSame, rightSame]

theorem survives_and {site : Site} {left right : Expr} (leftSurvives : left.Survives)
    (leftFits : left.FitsAt .and) (rightSurvives : right.Survives)
    (rightFits : right.FitsAt .unary) : (logical site .and left right).Survives := by
  intro cursor rest stands ends
  rw [inks, LogicalOp.operandPrecedence, words_binaryInks] at stands
  have spells := LogicalOp.spells_symbol .and
  have free : NotNext (.leftParen :: absorbed .conjunction) rest := ends.free
  obtain ⟨leftAgain, middle, opens, leftSame, standsMiddle⟩ :=
    leftSurvives.operand leftFits stands (notNext_of_spells spells (by decide))
  have found := standsMiddle.kind_eq spells
  obtain ⟨rightAgain, stop, reads, rightSame, standsStop⟩ :=
    rightSurvives.operand rightFits standsMiddle.advance (free.mono (by decide))
  refine ⟨_, stop, fun final _ others => opens final _
    (.conjunctionMore found reads others), ?_, standsStop⟩
  simp only [unplaced, leftSame, rightSame]

/-- A condition is read up to the word behind it. -/
theorem Survives.condition {cond : Expr} {word : Kind} (survives : cond.Survives)
    (listed : word ∈ [Kind.thenWord, .doWord])
    (stands : cursor.At (words cond.inks ++ word.text :: rest)) :
    ∃ again afterCond, Reads cursor (.disjunction again) afterCond ∧
      again.unplaced = cond.unplaced ∧ afterCond.kind = word ∧ afterCond.advance.At rest := by
  have known : ∀ word ∈ [Kind.thenWord, .doWord], word ∈ Kind.reserved ∧
      word ∉ .leftParen :: .elseWord :: (absorbed .disjunction ++ repeated .disjunction) := by
    decide
  obtain ⟨reserved, other⟩ := known word listed
  have spells : Spells word word.text.toList := .of_reserved reserved
  have free : NotNext (.leftParen :: .elseWord :: (absorbed .disjunction ++ repeated .disjunction))
      (word.text :: rest) := notNext_of_spells spells other
  have tight : cond.loose .or = false := rfl
  have rereads : Rereads cond .disjunction cursor (word.text :: rest) :=
    survives.at_level tight stands ⟨free.mono (by decide), fun _ => free.mono (by decide),
      fun _ => free.mono (by decide)⟩
  obtain ⟨again, afterCond, reads, same, standsAfter⟩ := rereads.close (free.mono (by decide))
  exact ⟨again, afterCond, reads, same, standsAfter.kind_eq spells, standsAfter.advance⟩

theorem tight_of_fits {expr : Expr} (fits : expr.FitsAt .comparison) :
    expr.loose .comparison = false :=
  fits.elim id id

theorem survives_ifThen {site : Site} {cond thenBranch : Expr} (condSurvives : cond.Survives)
    (thenSurvives : thenBranch.Survives) (thenFits : thenBranch.FitsAt .comparison) :
    (ifThen site cond thenBranch).Survives := by
  intro cursor rest stands ends
  have tight := tight_of_fits thenFits
  have split : words (ifThen site cond thenBranch).inks ++ rest =
      "if" :: (words cond.inks ++ "then" :: (words thenBranch.inks ++ rest)) := by
    simp [inks, words, Ink.grouped, tight]
  rw [split] at stands
  have word : cursor.kind = .ifWord :=
    stands.kind_eq (.of_reserved (by decide : Kind.ifWord ∈ _))
  obtain ⟨condAgain, afterCond, condition, condSame, thenWord, standsThen⟩ :=
    condSurvives.condition (by decide : Kind.thenWord ∈ _) stands.advance
  have dangling := ends.dangling rfl
  have branch : Rereads thenBranch .comparison afterCond.advance rest :=
    thenSurvives.at_level tight standsThen ⟨ends.free.cons (ends.conditional rfl),
      fun _ => ends.conditional rfl, fun _ => dangling⟩
  obtain ⟨thenAgain, stop, reads, thenSame, standsStop⟩ :=
    branch.close (fun _ _ => List.not_mem_nil)
  have other : stop.kind ≠ .elseWord := by
    simpa using dangling stop standsStop
  refine ⟨_, stop, Reads.choice word (.conditionalOne condition thenWord reads other), ?_,
    standsStop⟩
  simp only [unplaced, condSame, thenSame]

theorem survives_ifElse {site : Site} {cond thenBranch elseBranch : Expr}
    (condSurvives : cond.Survives) (thenSurvives : thenBranch.Survives)
    (thenFits : thenBranch.FitsAt .comparison) (elseSurvives : elseBranch.Survives)
    (elseFits : elseBranch.FitsAt .comparison) :
    (ifElse site cond thenBranch elseBranch).Survives := by
  intro cursor rest stands ends
  have thenTight := tight_of_fits thenFits
  have elseTight := tight_of_fits elseFits
  have split : words (ifElse site cond thenBranch elseBranch).inks ++ rest =
      "if" :: (words cond.inks ++ "then" ::
        (words (Ink.grouped thenBranch.endsOpen thenBranch.inks) ++
          "else" :: (words elseBranch.inks ++ rest))) := by
    simp [inks, words, Ink.grouped, thenTight, elseTight]
  rw [split] at stands
  have word : cursor.kind = .ifWord :=
    stands.kind_eq (.of_reserved (by decide : Kind.ifWord ∈ _))
  obtain ⟨condAgain, afterCond, condition, condSame, thenWord, standsThen⟩ :=
    condSurvives.condition (by decide : Kind.thenWord ∈ _) stands.advance
  have spells : Spells .elseWord "else".toList := .reserved (by decide)
  have free : NotNext (.leftParen :: absorbed .comparison)
      ("else" :: (words elseBranch.inks ++ rest)) := notNext_of_spells spells (by decide)
  have first : Rereads thenBranch .comparison afterCond.advance _ :=
    thenSurvives.grouped thenBranch.endsOpen (fun _ => thenTight) (fun _ => thenTight) standsThen
      free (fun _ _ => free.mono (by decide)) (by simp_all)
  obtain ⟨thenAgain, afterThen, firstReads, thenSame, standsElse⟩ :=
    first.close (fun _ _ => List.not_mem_nil)
  have elseWord := standsElse.kind_eq spells
  have second : Rereads elseBranch .comparison afterThen.advance rest :=
    elseSurvives.at_level elseTight standsElse.advance ⟨ends.free.cons (ends.conditional rfl),
      fun _ => ends.conditional rfl, ends.dangling⟩
  obtain ⟨elseAgain, stop, secondReads, elseSame, standsStop⟩ :=
    second.close (fun _ _ => List.not_mem_nil)
  refine ⟨_, stop, Reads.choice word
    (.conditionalBoth condition thenWord firstReads elseWord secondReads), ?_, standsStop⟩
  simp only [unplaced, condSame, thenSame, elseSame]

/-- Arguments behind the first one, as they are written. -/
def tailWords (args : List Expr) : List String :=
  args.flatMap fun arg => "," :: words arg.inks

theorem words_argsInks {first : Expr} {others : List Expr}
    (tight : ∀ arg ∈ first :: others, arg.loose .comparison = false) :
    words (commaSeparated (argsInks (first :: others))) =
      words first.inks ++ tailWords others := by
  induction others generalizing first with
  | nil => simp [argsInks, commaSeparated, tailWords, Ink.grouped, tight]
  | cons next others ih =>
      have rest := ih fun arg member => tight arg (List.mem_cons_of_mem _ member)
      simp only [argsInks, tight, List.mem_cons, true_or, or_true, Ink.grouped, Bool.false_eq_true,
        if_false] at rest ⊢
      rw [commaSeparated, words_append, words, words, rest]
      · simp [tailWords]
      · simp

/-- An argument ends in front of a comma or a closing parenthesis. -/
theorem Survives.argument {arg : Expr} {others : List Expr} (survives : arg.Survives)
    (tight : arg.loose .comparison = false)
    (stands : cursor.At (words arg.inks ++ (tailWords others ++ ")" :: rest))) :
    ∃ again stop, Reads cursor (.comparison again) stop ∧ again.unplaced = arg.unplaced ∧
      stop.At (tailWords others ++ ")" :: rest) := by
  have free : NotNext (.leftParen :: .elseWord :: absorbed .comparison)
      (tailWords others ++ ")" :: rest) := by
    cases others with
    | nil => exact notNext_of_spells (.of_symbol (by decide : Kind.rightParen ∈ _)) (by decide)
    | cons next others =>
        exact notNext_of_spells (.of_symbol (by decide : Kind.comma ∈ _)) (by decide)
  have rereads : Rereads arg .comparison cursor _ :=
    survives.at_level tight stands ⟨free.mono (by decide), fun _ => free.mono (by decide),
      fun _ => free.mono (by decide)⟩
  exact rereads.close (fun _ _ => List.not_mem_nil)

theorem reread_tail {args : List Expr} (survive : ∀ arg ∈ args, arg.Survives)
    (tight : ∀ arg ∈ args, arg.loose .comparison = false)
    (stands : cursor.At (tailWords args ++ ")" :: rest)) :
    ∃ again stop, Reads cursor (.argumentsTail again) stop ∧
      argsUnplaced again = argsUnplaced args ∧ stop.At rest := by
  induction args generalizing cursor with
  | nil =>
      have closed : cursor.kind = .rightParen :=
        stands.kind_eq (.of_symbol (by decide : Kind.rightParen ∈ _))
      exact ⟨[], cursor.advance, .argumentsEnd closed, rfl, stands.advance⟩
  | cons arg others ih =>
      have split : tailWords (arg :: others) ++ ")" :: rest =
          "," :: (words arg.inks ++ (tailWords others ++ ")" :: rest)) := by
        simp [tailWords]
      rw [split] at stands
      have comma : cursor.kind = .comma :=
        stands.kind_eq (.of_symbol (by decide : Kind.comma ∈ _))
      obtain ⟨again, later, reads, same, standsLater⟩ :=
        (survive arg List.mem_cons_self).argument (tight arg List.mem_cons_self) stands.advance
      obtain ⟨rest, stop, tail, sameRest, standsStop⟩ :=
        ih (fun other member => survive other (List.mem_cons_of_mem _ member))
          (fun other member => tight other (List.mem_cons_of_mem _ member)) standsLater
      refine ⟨again :: rest, stop, .argumentsMore comma reads tail, ?_, standsStop⟩
      simp only [argsUnplaced, same, sameRest]

theorem reread_arguments {args : List Expr} (survive : ∀ arg ∈ args, arg.Survives)
    (tight : ∀ arg ∈ args, arg.loose .comparison = false)
    (stands : cursor.At (words (commaSeparated (argsInks args)) ++ ")" :: rest)) :
    ∃ again stop, Reads cursor (.arguments again) stop ∧
      argsUnplaced again = argsUnplaced args ∧ stop.At rest := by
  cases args with
  | nil =>
      have closed : cursor.kind = .rightParen :=
        stands.kind_eq (.of_symbol (by decide : Kind.rightParen ∈ _))
      exact ⟨[], cursor.advance, .noArguments closed, rfl, stands.advance⟩
  | cons first others =>
      rw [words_argsInks tight, List.append_assoc] at stands
      obtain ⟨again, later, reads, same, standsLater⟩ :=
        (survive first List.mem_cons_self).argument (tight first List.mem_cons_self) stands
      obtain ⟨rest, stop, tail, sameRest, standsStop⟩ :=
        reread_tail (fun other member => survive other (List.mem_cons_of_mem _ member))
          (fun other member => tight other (List.mem_cons_of_mem _ member)) standsLater
      refine ⟨again :: rest, stop, .arguments reads.kind_ne_rightParen reads tail, ?_, standsStop⟩
      simp only [argsUnplaced, same, sameRest]

theorem survives_call {site : Site} {callee : String} {args : List Expr} (named : IsName callee)
    (survive : ∀ arg ∈ args, arg.Survives)
    (tight : ∀ arg ∈ args, arg.loose .comparison = false) : (call site callee args).Survives := by
  intro cursor rest stands ends
  have split : words (call site callee args).inks ++ rest =
      callee :: "(" :: (words (commaSeparated (argsInks args)) ++ ")" :: rest) := by
    simp [inks, words]
  rw [split] at stands
  have name : cursor.kind = .ident := stands.kind_eq named
  have opened : cursor.advance.kind = .leftParen :=
    stands.advance.kind_eq (.of_symbol (by decide : Kind.leftParen ∈ _))
  obtain ⟨again, stop, reads, same, standsStop⟩ :=
    reread_arguments survive tight stands.advance.advance
  have lexeme : cursor.current.lexeme = callee := stands.lexeme_eq
  refine ⟨_, stop, Reads.call name opened reads, ?_, standsStop⟩
  simp only [unplaced, same, lexeme]

mutual

/-- Every expression that can be written is read again. -/
theorem survives_of_writable (expr : Expr) (writable : expr.Writable) : expr.Survives := by
  match expr with
  | literal _ _ => exact survives_literal writable
  | var _ _ => exact survives_var writable
  | unary _ _ operand =>
      exact survives_unary (survives_of_writable operand writable.1) writable.2
  | arith _ op left right =>
      have leftSurvives := survives_of_writable left writable.1.1
      have rightSurvives := survives_of_writable right writable.2.1
      have leftFits := writable.1.2
      have rightFits := writable.2.2
      rw [ArithOp.operandPrecedence] at leftFits rightFits
      cases precedence : op.precedence with
      | additive =>
          rw [precedence] at leftFits rightFits
          exact survives_additive precedence leftSurvives leftFits rightSurvives rightFits
      | multiplicative =>
          rw [precedence] at leftFits rightFits
          exact survives_multiplicative precedence leftSurvives leftFits rightSurvives rightFits
      | comparison =>
          rw [precedence] at leftFits rightFits
          exact survives_comparison precedence leftSurvives leftFits rightSurvives rightFits
      | or | and | unary | primary => cases op <;> cases precedence
  | logical _ op left right =>
      have leftSurvives := survives_of_writable left writable.1.1
      have rightSurvives := survives_of_writable right writable.2.1
      cases op with
      | or => exact survives_or leftSurvives writable.1.2 rightSurvives writable.2.2
      | and => exact survives_and leftSurvives writable.1.2 rightSurvives writable.2.2
  | ifThen _ cond thenBranch =>
      exact survives_ifThen (survives_of_writable cond writable.1)
        (survives_of_writable thenBranch writable.2.1) writable.2.2
  | ifElse _ cond thenBranch elseBranch =>
      exact survives_ifElse (survives_of_writable cond writable.1)
        (survives_of_writable thenBranch writable.2.1.1) writable.2.1.2
        (survives_of_writable elseBranch writable.2.2.1) writable.2.2.2
  | call _ _ args =>
      have arguments := args_survive args writable.2
      exact survives_call writable.1 (fun arg member => (arguments arg member).1)
        fun arg member => (arguments arg member).2

theorem args_survive (args : List Expr) (writable : ArgsWritable args) :
    ∀ arg ∈ args, arg.Survives ∧ arg.loose .comparison = false := by
  match args with
  | [] => simp
  | arg :: rest =>
      have first := survives_of_writable arg writable.1.1
      exact List.forall_mem_cons.mpr ⟨⟨first, tight_of_fits writable.1.2⟩,
        args_survive rest writable.2⟩

end

end Expr

end Sipl
