import Sipl.Run.RuntimeError

namespace Sipl

/-- The calls that have not returned, the latest one last, and how many there may be. -/
structure CallStack where
  limit? : Option Nat
  frames : Array Frame := #[]
  deriving DecidableEq, Inhabited

namespace CallStack

def depth (calls : CallStack) : Nat := calls.frames.size

/-- Why one more call is refused: as many are active as the limit allows. -/
def refusal? (calls : CallStack) : Option Cause :=
  (calls.limit?.filter fun limit => limit ≤ calls.depth).map .callDepthExceeded

/-- Enter a call, whatever the limit. -/
def enter (calls : CallStack) (frame : Frame) : CallStack :=
  match calls with
  | ⟨limit?, frames⟩ => ⟨limit?, frames.push frame⟩

/-- Enter a call, unless it is refused. -/
def push (calls : CallStack) (frame : Frame) : Except Cause CallStack :=
  match calls.refusal? with
  | some cause => .error cause
  | none => .ok (calls.enter frame)

/-- Leave the latest call, if there is one. -/
def pop? (calls : CallStack) : Option CallStack :=
  if calls.frames.isEmpty then none else some { calls with frames := calls.frames.pop }

/-- Leave the latest call; without one nothing changes. -/
def pop (calls : CallStack) : CallStack := { calls with frames := calls.frames.pop }

def capture (calls : CallStack) : Backtrace := ⟨calls.frames.toList.reverse⟩

/-- Give an error the calls it was raised under, unless it has a backtrace or there are none. -/
def attach (calls : CallStack) (error : RuntimeError) : RuntimeError :=
  if calls.frames.isEmpty || error.backtrace?.isSome then error
  else error.withBacktrace calls.capture

end CallStack

end Sipl
