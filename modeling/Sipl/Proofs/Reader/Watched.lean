import Sipl.Reader.Trees

namespace Sipl

/-! The reader is watched.  It keeps trees, and a record of what it does and of where the cursor
stands then.  Whatever it does takes fuel from all that comes of it, so that no fuel would be enough
for a reader that goes on for ever. -/

structure Visit where
  activity : Activity
  position : Nat
  deriving DecidableEq, Repr

/-- What comes of some fuel, and what was done for it; nothing if the fuel does not suffice. -/
def Watched (α : Type) := Nat → Option (α × List Visit)

namespace Watched

variable {α : Type}

instance : Monad Watched where
  pure value := fun _ => some (value, [])
  bind first next := fun fuel =>
    match first fuel with
    | none => none
    | some (value, visits) =>
      (next value fuel).map fun (rest, others) => (rest, visits ++ others)

def during (activity : Activity) (cursor : Cursor) (body : Watched α) : Watched α
  | 0 => none
  | fuel + 1 =>
    (body fuel).map fun (value, visits) => (value, ⟨activity, cursor.position⟩ :: visits)

end Watched

def watching : Keeper Watched Expr Stmt Block Function where
  keepExpr form := pure form.tree
  keepStmt form := pure form.tree
  keepBlock span stmts := pure (.mk span stmts)
  keepFunction := .mk
  during := Watched.during

end Sipl
