import Sipl.Reader.Keeper

namespace Sipl

/-! From the loosest to the tightest binding:

    disjunction    → conjunction ('or' conjunction)*
    conjunction    → comparison ('and' unary)*
    comparison     → additive (COMPARE additive)?
    additive       → multiplicative (('+' | '-') multiplicative)*
    multiplicative → unary (('*' | '/') multiplicative)?
    unary          → ('-' | 'not') unary | primary

`*` and `/` group to the right, a comparison is taken at most once, and the right operand of `and`
is a unary expression.  Parentheses hold a comparison.

Each function takes a token before it is entered again, so the tokens that remain, and then the
level in the list above, measure the recursion. -/

namespace Reader

/-- The operator of the current token, if it has the given strength. -/
def operatorHere? (cursor : Cursor) (strength : ArithOp → Bool) : Option ArithOp :=
  (ArithOp.ofKind? cursor.kind).filter strength

theorem inside_of_arithOp {cursor : Cursor} {strength : ArithOp → Bool} {op : ArithOp}
    (found : operatorHere? cursor strength = some op) : cursor.kind ≠ .eof := by
  intro atEnd
  simp [operatorHere?, atEnd, ArithOp.ofKind?] at found

theorem inside_of_unaryOp {cursor : Cursor} {op : UnaryOp}
    (found : UnaryOp.ofKind? cursor.kind = some op) : cursor.kind ≠ .eof := by
  intro atEnd
  simp [atEnd, UnaryOp.ofKind?] at found

end Reader

namespace Keeper

open Reader Reading

variable {M : Type → Type} [Monad M] {E S B F : Type} (keeper : Keeper M E S B F)

mutual

def disjunction (cursor : Cursor) : M (Reading cursor E) :=
  keeper.during (.enter .disjunction) cursor <|
    andThen (conjunction cursor) fun left later _ => disjunctionTail left later
termination_by cursor.remaining * 16 + 11

def disjunctionTail (left : E) (cursor : Cursor) :
    M (Reading cursor E) :=
  if found : cursor.kind = .orWord then
    keeper.during (.turn .disjunction) cursor <|
      keeper.take cursor (by simp [found]) fun operator behind _ =>
        andThen (conjunction behind) fun right later _ => do
          let joined ← keeper.keepExpr (.logical operator .or left right)
          disjunctionTail joined later
  else
    return .done left
termination_by cursor.remaining * 16 + 10

def conjunction (cursor : Cursor) : M (Reading cursor E) :=
  keeper.during (.enter .conjunction) cursor <|
    andThen (comparison cursor) fun left later _ => conjunctionTail left later
termination_by cursor.remaining * 16 + 9

def conjunctionTail (left : E) (cursor : Cursor) :
    M (Reading cursor E) :=
  if found : cursor.kind = .andWord then
    keeper.during (.turn .conjunction) cursor <|
      keeper.take cursor (by simp [found]) fun operator behind _ =>
        andThen (unary behind) fun right later _ => do
          let joined ← keeper.keepExpr (.logical operator .and left right)
          conjunctionTail joined later
  else
    return .done left
termination_by cursor.remaining * 16 + 8

def comparison (cursor : Cursor) : M (Reading cursor E) :=
  keeper.during (.enter .comparison) cursor <|
    andThen (additive cursor) fun left later _ =>
      match found : operatorHere? later ArithOp.isComparison with
      | some op =>
        keeper.take later (inside_of_arithOp found) fun operator behind _ =>
          finish (additive behind) fun right _ =>
            keeper.keepExpr (.arith operator op left right)
      | none => return .done left
termination_by cursor.remaining * 16 + 7

def additive (cursor : Cursor) : M (Reading cursor E) :=
  keeper.during (.enter .additive) cursor <|
    andThen (multiplicative cursor) fun left later _ => additiveTail left later
termination_by cursor.remaining * 16 + 6

def additiveTail (left : E) (cursor : Cursor) : M (Reading cursor E) :=
  match found : operatorHere? cursor ArithOp.isAdditive with
  | some op =>
    keeper.during (.turn .additive) cursor <|
      keeper.take cursor (inside_of_arithOp found) fun operator behind _ =>
        andThen (multiplicative behind) fun right later _ => do
          let joined ← keeper.keepExpr (.arith operator op left right)
          additiveTail joined later
  | none => return .done left
termination_by cursor.remaining * 16 + 5

def multiplicative (cursor : Cursor) : M (Reading cursor E) :=
  keeper.during (.enter .multiplicative) cursor <|
    andThen (unary cursor) fun left later _ =>
      match found : operatorHere? later ArithOp.isMultiplicative with
      | some op =>
        keeper.take later (inside_of_arithOp found) fun operator behind _ =>
          finish (multiplicative behind) fun right _ =>
            keeper.keepExpr (.arith operator op left right)
      | none => return .done left
termination_by cursor.remaining * 16 + 4

def unary (cursor : Cursor) : M (Reading cursor E) :=
  keeper.during (.enter .unary) cursor <|
    match found : UnaryOp.ofKind? cursor.kind with
    | some op =>
      keeper.take cursor (inside_of_unaryOp found) fun operator behind _ =>
        finish (unary behind) fun operand _ => keeper.keepExpr (.unary operator op operand)
    | none => primary cursor
termination_by cursor.remaining * 16 + 3

def primary (cursor : Cursor) : M (Reading cursor E) :=
  keeper.during (.enter .primary) cursor <|
    match found : cursor.kind with
    | .leftParen =>
      keeper.take cursor (by simp [found]) fun _ behind _ =>
        andThen (comparison behind) fun inner later _ =>
          finish (keeper.expect later .rightParen "expected ')' after expression")
            fun _ _ => return inner
    | .ifWord =>
      keeper.during (.enter .conditional) cursor <|
        keeper.take cursor (by simp [found]) fun word behind _ => conditional word behind
    | .number =>
      match cursor.current.literal? with
      | some (.int value) =>
        keeper.take cursor (by simp [found]) fun token _ _ => do
          return .done (← keeper.keepExpr (.literal token.site (.int value)))
      | _ => return .fail .expectedExpression "malformed number"
    | .trueWord =>
      keeper.take cursor (by simp [found]) fun token _ _ => do
        return .done (← keeper.keepExpr (.literal token.site (.bool true)))
    | .falseWord =>
      keeper.take cursor (by simp [found]) fun token _ _ => do
        return .done (← keeper.keepExpr (.literal token.site (.bool false)))
    | .ident =>
      if cursor.nextKind = .leftParen then
        keeper.during (.enter .call) cursor <|
          keeper.take cursor (by simp [found]) fun name behind _ => call name behind
      else
        keeper.take cursor (by simp [found]) fun name _ _ => do
          return .done (← keeper.keepExpr (.var name.site name.lexeme))
    | _ => return .fail .expectedExpression "expected expression"
termination_by cursor.remaining * 16 + 2

/-- The rest of an `if` expression, behind its first word. -/
def conditional (word : Token) (cursor : Cursor) : M (Reading cursor E) :=
  andThen (disjunction cursor) fun cond afterCond _ =>
    andThen (keeper.expect afterCond .thenWord "expected 'then' after condition")
      fun _ behindThen _ =>
        andThen (comparison behindThen) fun thenBranch afterThen _ =>
          if found : afterThen.kind = .elseWord then
            keeper.take afterThen (by simp [found]) fun _ behindElse _ =>
              finish (comparison behindElse) fun elseBranch stop =>
                keeper.keepExpr
                  (.ifElse ⟨word.site.line, word.site.span.merge stop.previousSpan⟩
                    cond thenBranch elseBranch)
          else do
            return .done (← keeper.keepExpr
              (.ifThen ⟨word.site.line, word.site.span.merge afterThen.previousSpan⟩
                cond thenBranch))
termination_by cursor.remaining * 16 + 12

/-- The rest of a call, behind its name. -/
def call (name : Token) (cursor : Cursor) : M (Reading cursor E) :=
  andThen (keeper.expect cursor .leftParen "expected '(' after function name")
    fun _ behind _ =>
      finish (arguments behind) fun args stop =>
        keeper.keepExpr (.call ⟨name.site.line, name.site.span.merge stop.previousSpan⟩ name.lexeme
          args)
termination_by cursor.remaining * 16 + 15

/-- The arguments of a call and the closing parenthesis. -/
def arguments (cursor : Cursor) : M (Reading cursor (List E)) :=
  if found : cursor.kind = .rightParen then
    keeper.take cursor (by simp [found]) fun _ _ _ => return .done []
  else
    andThen (comparison cursor) fun first later _ =>
      finish (argumentsTail later) fun others _ => return first :: others
termination_by cursor.remaining * 16 + 14

/-- The arguments behind the first one and the closing parenthesis. -/
def argumentsTail (cursor : Cursor) : M (Reading cursor (List E)) :=
  if found : cursor.kind = .rightParen then
    keeper.take cursor (by simp [found]) fun _ _ _ => return .done []
  else if found : cursor.kind = .comma then
    keeper.during (.turn .arguments) cursor <|
      keeper.take cursor (by simp [found]) fun _ behind _ =>
        andThen (comparison behind) fun next later _ =>
          finish (argumentsTail later) fun others _ => return next :: others
  else
    return .fail (.unexpectedToken .comma) "expected ',' between arguments"
termination_by cursor.remaining * 16 + 13

end

end Keeper

end Sipl
