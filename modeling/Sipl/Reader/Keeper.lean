import Sipl.Reader.Reading
import Sipl.Tree.Basic

namespace Sipl

/-! One reader serves several ends.  What it keeps of the expressions, statements and blocks that it
reads is up to a keeper, which is also told what the reader does, and where. -/

inductive Production where
  | program
  | functions
  | params
  | disjunction
  | conjunction
  | comparison
  | additive
  | multiplicative
  | unary
  | primary
  | conditional
  | call
  | function
  | block
  | statement
  deriving DecidableEq, Repr

/-- The loops of the reader.  Those of expressions go round at an operator. -/
inductive Loop where
  | disjunction
  | conjunction
  | additive
  | arguments
  | params
  | functions
  | statements
  deriving DecidableEq, Repr

inductive Activity where
  | enter (production : Production)
  /-- Go round in a loop. -/
  | turn (loop : Loop)
  /-- Take the current token. -/
  | take
  deriving DecidableEq, Repr

/-- An expression over what is kept of its parts.  Where it stands is known, or follows from its
operator and where its operands stand. -/
inductive ExprForm (E : Type) where
  | literal (site : Site) (value : Literal)
  | var (site : Site) (name : String)
  | unary (operator : Token) (op : UnaryOp) (operand : E)
  | arith (operator : Token) (op : ArithOp) (left right : E)
  | logical (operator : Token) (op : LogicalOp) (left right : E)
  | ifThen (site : Site) (cond thenBranch : E)
  | ifElse (site : Site) (cond thenBranch elseBranch : E)
  | call (site : Site) (callee : String) (args : List E)

/-- A statement over what is kept of its parts. -/
inductive StmtForm (E B : Type) where
  | assign (site : Site) (target : String) (value : E)
  | ifThen (site : Site) (cond : E) (thenBlock : B)
  | ifElse (site : Site) (cond : E) (thenBlock elseBlock : B)
  | whileLoop (site : Site) (cond : E) (body : B)

/-- What a reader keeps of expressions, statements, blocks and functions. -/
structure Keeper (M : Type → Type) (E S B F : Type) where
  keepExpr : ExprForm E → M E
  keepStmt : StmtForm E B → M S
  keepBlock : Span → List S → M B
  keepFunction : Site → String → List Param → E → F
  /-- Do something at a cursor, and then all that comes of it. -/
  during {α : Type} : Activity → Cursor → M α → M α

namespace Keeper

variable {M : Type → Type} [Monad M] {E S B F : Type} (keeper : Keeper M E S B F)
  {start : Cursor} {α : Type}

/-- Take the current token, which is not an end marker, and go on behind it. -/
def take (cursor : Cursor) (inside : cursor.kind ≠ .eof)
    (next : Token → (later : Cursor) → later.remaining < cursor.remaining → M (Reading later α)) :
    M (Reading cursor α) :=
  keeper.during .take cursor do
    let rest ← next cursor.current cursor.advance (Cursor.remaining_advance_lt inside)
    return rest.widen cursor.remaining_advance_le

/-- Take a token of the kind, or fail. -/
def expect (cursor : Cursor) (kind : Kind) (message : String) : M (Reading cursor Token) :=
  if cursor.kind = kind then
    keeper.during .take cursor
      (return ⟨.ok cursor.current, cursor.advance, cursor.remaining_advance_le⟩)
  else
    return .fail (.unexpectedToken kind) message

/-- Take a name, or fail. -/
def expectName (cursor : Cursor) (message : String) : M (Reading cursor Token) :=
  if cursor.kind = .ident then
    keeper.during .take cursor
      (return ⟨.ok cursor.current, cursor.advance, cursor.remaining_advance_le⟩)
  else
    return .fail .expectedIdentifier message

/-- Pass over the current token, which is not an end marker, and go on behind it. -/
def pass (cursor : Cursor) (inside : cursor.kind ≠ .eof)
    (next : (later : Cursor) → later.remaining < cursor.remaining → M (Recovered later α)) :
    M (Recovered cursor α) :=
  keeper.during .take cursor do
    let rest ← next cursor.advance (Cursor.remaining_advance_lt inside)
    return rest.widen cursor.remaining_advance_le

/-- Take the current token if it has the kind. -/
def eat (cursor : Cursor) (kind : Kind) (other : kind ≠ .eof) : M (Recovered cursor Unit) :=
  if found : cursor.kind = kind then
    keeper.pass cursor (found ▸ other) fun _ _ => return .done ()
  else
    return .done ()

/-- Skip tokens up to the next one whose kind is in the set, or to the end marker. -/
def skip (set : KindSet) (cursor : Cursor) : M (Recovered cursor Unit) :=
  if inside : cursor.kind = .eof then
    return .done ()
  else if set.contains cursor.kind then
    return .done ()
  else
    keeper.pass cursor inside fun behind _ => skip set behind
termination_by cursor.remaining

/-- Keep what was read; if it could not be read, report the error and skip to the boundary. -/
def orSkip (reading : M (Reading start (α × List SyntaxError))) (boundary : KindSet) :
    M (Recovered start (List α)) := do
  match ← reading with
  | ⟨.ok (value, errors), stop, bound⟩ => return ⟨[value], errors, stop, bound⟩
  | ⟨.error error, stop, bound⟩ =>
    let skipped ← keeper.skip boundary stop
    return ⟨[], [error], skipped.stop, Nat.le_trans skipped.bound bound⟩

end Keeper

end Sipl
