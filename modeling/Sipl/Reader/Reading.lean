import Sipl.Reader.Cursor

namespace Sipl

/-! A reading starts at a cursor and yields a value or a syntax error.  In both cases it tells where
it stopped, which is never further from the end of the stream than where it started. -/

structure Reading (start : Cursor) (α : Type) where
  result : Except SyntaxError α
  stop : Cursor
  bound : stop.remaining ≤ start.remaining

namespace Reading

variable {M : Type → Type} [Monad M] {start : Cursor} {α β : Type}

/-- Yield a value without taking a token. -/
def done (value : α) : Reading start α := ⟨.ok value, start, Nat.le_refl _⟩

/-- Fail at the current token. -/
def fail (fault : SyntaxFault) (message : String) : Reading start α :=
  ⟨.error (start.errorHere fault message), start, Nat.le_refl _⟩

/-- See a reading from a later cursor as one from an earlier cursor. -/
def widen {later : Cursor} (reading : Reading later α) (bound : later.remaining ≤ start.remaining) :
    Reading start α :=
  ⟨reading.result, reading.stop, Nat.le_trans reading.bound bound⟩

/-- Go on from where a reading stopped, unless it failed. -/
def andThen (reading : M (Reading start α))
    (next : α → (later : Cursor) → later.remaining ≤ start.remaining → M (Reading later β)) :
    M (Reading start β) := do
  match ← reading with
  | ⟨.ok value, stop, bound⟩ => return (← next value stop bound).widen bound
  | ⟨.error error, stop, bound⟩ => return ⟨.error error, stop, bound⟩

/-- Finish with a value that may depend on where the reading stopped. -/
def finish (reading : M (Reading start α)) (make : α → Cursor → M β) : M (Reading start β) := do
  match ← reading with
  | ⟨.ok value, stop, bound⟩ => return ⟨.ok (← make value stop), stop, bound⟩
  | ⟨.error error, stop, bound⟩ => return ⟨.error error, stop, bound⟩

end Reading

/-- A reading that cannot fail, with the errors that were met on the way, in order. -/
structure Recovered (start : Cursor) (α : Type) where
  value : α
  errors : List SyntaxError
  stop : Cursor
  bound : stop.remaining ≤ start.remaining

namespace Recovered

variable {M : Type → Type} [Monad M] {start : Cursor} {α β : Type}

/-- Yield a value without taking a token. -/
def done (value : α) : Recovered start α := ⟨value, [], start, Nat.le_refl _⟩

/-- Report an error without taking a token. -/
def report (value : α) (error : SyntaxError) : Recovered start α :=
  ⟨value, [error], start, Nat.le_refl _⟩

/-- See a reading from a later cursor as one from an earlier cursor. -/
def widen {later : Cursor} (recovered : Recovered later α)
    (bound : later.remaining ≤ start.remaining) : Recovered start α :=
  ⟨recovered.value, recovered.errors, recovered.stop, Nat.le_trans recovered.bound bound⟩

/-- The value and the errors of a reading that did not fail. -/
def toReading (recovered : Recovered start α) : Reading start (α × List SyntaxError) :=
  ⟨.ok (recovered.value, recovered.errors), recovered.stop, recovered.bound⟩

/-- Go on from where a reading stopped. -/
def andThen (recovered : M (Recovered start α))
    (next : α → (later : Cursor) → later.remaining ≤ start.remaining → M (Recovered later β)) :
    M (Recovered start β) := do
  let ⟨value, errors, stop, bound⟩ ← recovered
  let rest ← next value stop bound
  return ⟨rest.value, errors ++ rest.errors, rest.stop, Nat.le_trans rest.bound bound⟩

/-- Finish with a value that may depend on where the reading stopped. -/
def finish (recovered : M (Recovered start α)) (make : α → Cursor → M β) :
    M (Recovered start β) := do
  let ⟨value, errors, stop, bound⟩ ← recovered
  return ⟨← make value stop, errors, stop, bound⟩

/-- The errors that were met belong to what was read. -/
def noted (recovered : M (Recovered start α)) : M (Reading start (α × List SyntaxError)) :=
  return (← recovered).toReading

end Recovered

end Sipl
