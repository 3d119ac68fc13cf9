import Sipl.Run.Value

namespace Sipl

/-! Scopes form a stack above the global one.  A name is looked up from the innermost scope
outwards, as far as the first detached scope: the body of a function sees its parameters and nothing
else. -/

/-- The bindings of one scope, in the order in which the names were first bound. -/
abbrev Store := List (String × Value)

namespace Store

def get? (store : Store) (name : String) : Option Value := store.lookup name

def binds (store : Store) (name : String) : Bool := (store.get? name).isSome

/-- Change the value of a name, or bind it behind the others. -/
def set (name : String) (value : Value) : Store → Store
  | [] => [(name, value)]
  | (other, bound) :: rest =>
    if name = other then (name, value) :: rest else (other, bound) :: set name value rest

end Store

structure Scope where
  /-- Whether names are looked up no further than here. -/
  detached : Bool
  store : Store := []
  deriving DecidableEq, Inhabited

structure Environment where
  /-- The scopes above the global one, the innermost first. -/
  inner : List Scope := []
  globals : Store := []
  deriving DecidableEq, Inhabited

namespace Environment

/-- How many scopes there are, counting the global one. -/
def depth (env : Environment) : Nat := env.inner.length + 1

/-- Open a scope inside the current one. -/
def push (env : Environment) : Environment := { env with inner := ⟨false, []⟩ :: env.inner }

/-- Open a scope from which nothing outside is seen. -/
def pushDetached (env : Environment) : Environment :=
  { env with inner := ⟨true, []⟩ :: env.inner }

/-- Close the innermost scope.  The global scope stays open. -/
def pop? (env : Environment) : Option Environment :=
  match env.inner with
  | [] => none
  | _ :: outer => some { env with inner := outer }

/-- Close the innermost scope, if it is not the global one. -/
def pop (env : Environment) : Environment := { env with inner := env.inner.tail }

def lookupFrom (globals : Store) (name : String) : List Scope → Option Value
  | [] => globals.get? name
  | scope :: outer =>
    match scope.store.get? name with
    | some value => some value
    | none => if scope.detached then none else lookupFrom globals name outer

def lookup (env : Environment) (name : String) : Option Value :=
  lookupFrom env.globals name env.inner

/-- Change the value of a name in the nearest visible scope that binds it. -/
def rebindFrom? (globals : Store) (name : String) (value : Value) :
    List Scope → Option Environment
  | [] => if globals.binds name then some ⟨[], globals.set name value⟩ else none
  | scope :: outer =>
    if scope.store.binds name then
      some ⟨{ scope with store := scope.store.set name value } :: outer, globals⟩
    else if scope.detached then
      none
    else
      (rebindFrom? globals name value outer).map fun env =>
        { env with inner := scope :: env.inner }

/-- Bind a name in the current scope. -/
def bindHere (env : Environment) (name : String) (value : Value) : Environment :=
  match env.inner with
  | [] => { env with globals := env.globals.set name value }
  | scope :: outer =>
    { env with inner := { scope with store := scope.store.set name value } :: outer }

/-- Change the nearest visible binding of a name, or bind it in the current scope. -/
def assign (env : Environment) (name : String) (value : Value) : Environment :=
  (rebindFrom? env.globals name value env.inner).getD (env.bindHere name value)

end Environment

end Sipl
