import Sipl.Reader.Expressions

namespace Sipl

/-!
    block     → 'begin' statement (';' statement)* 'end'
    statement → 'if' disjunction 'then' block ('else' block)?
              | 'while' disjunction 'do' block
              | NAME ':=' disjunction

A block is always read: a statement that cannot be read is reported and left out, and reading goes
on at the next statement boundary.
-/

namespace Keeper

open Reading

variable {M : Type → Type} [Monad M] {E S B F : Type} (keeper : Keeper M E S B F)

/-- Report that a block lacks its first or last word.  An `end` at the next statement boundary is
taken to close the block. -/
def abandonBlock (cursor : Cursor) (missing : Kind) (message : String) :
    M (Recovered cursor Unit) := do
  let skipped ← keeper.skip .statementBoundary cursor
  let eaten ← keeper.eat skipped.stop .endWord (by decide)
  return ⟨(), [cursor.errorHere (.unexpectedToken missing) message], eaten.stop,
    Nat.le_trans eaten.bound skipped.bound⟩

/-- The `end` of a block. -/
def closeBlock (cursor : Cursor) : M (Recovered cursor Unit) :=
  if found : cursor.kind = .endWord then
    keeper.pass cursor (by simp [found]) fun _ _ => return .done ()
  else
    keeper.abandonBlock cursor .endWord "expected 'end' after block"

mutual

def block (cursor : Cursor) : M (Recovered cursor B) :=
  keeper.during (.enter .block) cursor <|
    if found : cursor.kind = .beginWord then
      keeper.pass cursor (by simp [found]) fun behind _ =>
        Recovered.andThen (statements behind) fun stmts later _ =>
          Recovered.finish (keeper.closeBlock later) fun _ stop =>
            keeper.keepBlock (cursor.span.merge stop.previousSpan) stmts
    else
      Recovered.finish (keeper.abandonBlock cursor .beginWord "expected 'begin'") fun _ stop =>
        keeper.keepBlock (cursor.span.merge stop.previousSpan) []
termination_by cursor.remaining * 4 + 2

/-- Statements separated by semicolons.  Those that cannot be read are left out. -/
def statements (cursor : Cursor) : M (Recovered cursor (List S)) :=
  Recovered.andThen (keeper.orSkip (statement cursor) .statementBoundary) fun first later _ =>
    if found : later.kind = .semicolon then
      keeper.during (.turn .statements) later <|
        keeper.pass later (by simp [found]) fun behind _ =>
          Recovered.finish (statements behind) fun others _ => return first ++ others
    else
      return .done first
termination_by cursor.remaining * 4 + 1

/-- One statement, with the errors met in its blocks. -/
def statement (cursor : Cursor) : M (Reading cursor (S × List SyntaxError)) :=
  keeper.during (.enter .statement) cursor <|
    match found : cursor.kind with
    | .ifWord =>
      keeper.take cursor (by simp [found]) fun word behind _ =>
        andThen (keeper.disjunction behind) fun cond afterCond _ =>
          andThen (keeper.expect afterCond .thenWord "expected 'then' after condition")
            fun _ behindThen _ =>
              andThen (Recovered.noted (block behindThen))
                fun (thenBlock, errors) afterThen _ =>
                  if again : afterThen.kind = .elseWord then
                    keeper.take afterThen (by simp [again]) fun _ behindElse _ =>
                      finish (Recovered.noted (block behindElse))
                        fun (elseBlock, more) stop => do
                          let stmt ← keeper.keepStmt
                            (.ifElse ⟨word.site.line, word.site.span.merge stop.previousSpan⟩
                              cond thenBlock elseBlock)
                          return (stmt, errors ++ more)
                  else do
                    let stmt ← keeper.keepStmt
                      (.ifThen ⟨word.site.line, word.site.span.merge afterThen.previousSpan⟩
                        cond thenBlock)
                    return .done (stmt, errors)
    | .whileWord =>
      keeper.take cursor (by simp [found]) fun word behind _ =>
        andThen (keeper.disjunction behind) fun cond afterCond _ =>
          andThen (keeper.expect afterCond .doWord "expected 'do' after condition")
            fun _ behindDo _ =>
              finish (Recovered.noted (block behindDo)) fun (body, errors) stop => do
                let stmt ← keeper.keepStmt
                  (.whileLoop ⟨word.site.line, word.site.span.merge stop.previousSpan⟩ cond body)
                return (stmt, errors)
    | .ident =>
      keeper.take cursor (by simp [found]) fun name behind _ =>
        andThen (keeper.expect behind .assign "expected ':=' after variable name")
          fun _ behindAssign _ =>
            finish (keeper.disjunction behindAssign) fun value stop => do
              let stmt ← keeper.keepStmt
                (.assign ⟨name.site.line, name.site.span.merge stop.previousSpan⟩ name.lexeme value)
              return (stmt, [])
    | _ => return .fail .invalidStatement "invalid statement"
termination_by cursor.remaining * 4

end

end Keeper

end Sipl
