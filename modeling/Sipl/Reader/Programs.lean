import Sipl.Reader.Statements

namespace Sipl

/-!
    program   → 'program' functions? block
    functions → function (';' function)* ';'?
    function  → 'func' NAME '(' params? ')' '=' comparison
    params    → NAME (',' NAME)*

A declaration that cannot be read is reported and left out, and reading goes on at the next
declaration or at the main block.
-/

def Reader.paramOf (name : Token) : Param := ⟨name.lexeme, name.site.span⟩

namespace Keeper

open Reader Reading

variable {M : Type → Type} [Monad M] {E S B F : Type} (keeper : Keeper M E S B F)

/-- The parameters behind the first one. -/
def paramsTail (cursor : Cursor) : M (Reading cursor (List Param)) :=
  if found : cursor.kind = .comma then
    keeper.during (.turn .params) cursor <|
      keeper.take cursor (by simp [found]) fun _ behind _ =>
        andThen (keeper.expectName behind "expected parameter name after ','")
          fun name later _ =>
            finish (paramsTail later) fun others _ => return paramOf name :: others
  else
    return .done []
termination_by cursor.remaining

def params (cursor : Cursor) : M (Reading cursor (List Param)) :=
  keeper.during (.enter .params) cursor <|
    if cursor.kind = .rightParen then
      return .done []
    else
      andThen (keeper.expectName cursor "expected parameter name") fun name later _ =>
        finish (keeper.paramsTail later) fun others _ => return paramOf name :: others

/-- The rest of a function declaration, behind its first word. -/
def function (word : Token) (cursor : Cursor) :
    M (Reading cursor (F × List SyntaxError)) :=
  andThen (keeper.expectName cursor "expected function name") fun name behindName _ =>
    andThen (keeper.expect behindName .leftParen "expected '(' after function name")
      fun _ behindOpen _ =>
        andThen (keeper.params behindOpen) fun params afterParams _ =>
          andThen (keeper.expect afterParams .rightParen "expected ')' after parameters")
            fun _ behindClose _ =>
              andThen (keeper.expect behindClose .eq "expected '=' before function body")
                fun _ behindEq _ =>
                  finish (keeper.comparison behindEq) fun body stop =>
                    return (keeper.keepFunction
                      ⟨word.site.line, word.site.span.merge stop.previousSpan⟩ name.lexeme params
                      body, [])

/-- The function declarations in front of the main block.  A semicolon separates them, and may
stand behind the last one; it may be missing behind a declaration that could not be read. -/
def functions (cursor : Cursor) : M (Recovered cursor (List F)) :=
  if found : cursor.kind = .funcWord then
    keeper.during (.turn .functions) cursor <|
      keeper.during (.enter .function) cursor <|
        keeper.pass cursor (by simp [found]) fun behind _ =>
          Recovered.andThen (keeper.orSkip (keeper.function cursor.current behind)
            .declarationBoundary) fun declared later _ =>
              if again : later.kind = .semicolon then
                keeper.pass later (by simp [again]) fun next _ =>
                  Recovered.finish (functions next) fun others _ => return declared ++ others
              else if declared.isEmpty then
                functions later
              else
                return .done declared
  else
    return .done []
termination_by cursor.remaining

/-- The functions and the main block of a program.  Input left over behind the main block is an
error of its own only if there is no other. -/
def programOf {start : Cursor} (functions : Recovered start (List F))
    (body : Recovered functions.stop B) : Recovered start (Option (List F × B)) :=
  let errors := functions.errors ++ body.errors
  let trailing :=
    if errors.isEmpty && !body.stop.atEnd then
      [body.stop.errorHere .trailingInput "expected end of input after program"]
    else
      []
  ⟨some (functions.value, body.value), errors ++ trailing, body.stop,
    Nat.le_trans body.bound functions.bound⟩

/-- A program, unless the stream does not start with the word `program`. -/
def program (cursor : Cursor) : M (Recovered cursor (Option (List F × B))) :=
  keeper.during (.enter .program) cursor <|
    if found : cursor.kind = .programWord then
      keeper.pass cursor (by simp [found]) fun behind _ => do
        let functions ← keeper.during (.enter .functions) behind (keeper.functions behind)
        let body ← keeper.block functions.stop
        return programOf functions body
    else
      return .report none (cursor.errorHere (.unexpectedToken .programWord)
        "expected 'program' at start of source")

end Keeper

end Sipl
