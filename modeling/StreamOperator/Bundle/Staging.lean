import StreamOperator.Output
import StreamOperator.State.Store
import StreamOperator.Timer.Schedule

/-! What an open bundle has done so far. Nothing of it is visible outside until the bundle commits:
emissions, elements pushed back, unfinished work, timer operations, cell writes, and the first
request that was rejected. -/

namespace StreamOperator

inductive TimerOp
  | set (key : EncodedKey) (timer : Timer)
  | delete (key : EncodedKey) (slot : TimerSlot)
deriving DecidableEq

namespace Schedule

def applyOp (s : Schedule) : TimerOp → Except UnsupportedOperation Schedule
  | .set key timer => s.set key timer
  | .delete key slot => .ok (s.delete key slot).2

def applyOps (s : Schedule) (ops : List TimerOp) : Except UnsupportedOperation Schedule :=
  ops.foldlM applyOp s

end Schedule

/-- Work to go on with later, after the delay if one is asked for. -/
structure Residual (ι : Type) where
  element : Element ι
  delay : Option Duration

structure Staging (ι ο : Type) where
  /-- The latest emission first. -/
  emitted : List (Channel × Element ο)
  pushedBack : List (Element ι)
  residuals : List (Residual ι)
  timerOps : List TimerOp
  writes : Std.ExtTreeMap Address (Option Bytes)
  firedTimers : Nat
  failure : Option ExecutionError

namespace Staging

variable {ι ο : Type}

def empty : Staging ι ο := ⟨[], [], [], [], ∅, 0, none⟩

instance : Inhabited (Staging ι ο) := ⟨empty⟩

def outputs (s : Staging ι ο) : List (Channel × Element ο) := s.emitted.reverse

def emit (s : Staging ι ο) (channel : Channel) (e : Element ο) : Staging ι ο :=
  { s with emitted := (channel, e) :: s.emitted }

@[simp] theorem outputs_empty : (empty : Staging ι ο).outputs = [] := rfl

def addResidual (s : Staging ι ο) (r : Residual ι) : Staging ι ο :=
  { s with residuals := s.residuals ++ [r] }

def addTimerOp (s : Staging ι ο) (op : TimerOp) : Staging ι ο :=
  { s with timerOps := s.timerOps ++ [op] }

def write (s : Staging ι ο) (a : Address) (content : Option Bytes) : Staging ι ο :=
  { s with writes := s.writes.insert a content }

/-- Keeps a rejected request; the first one stays. -/
def fail (s : Staging ι ο) (e : ExecutionError) : Staging ι ο :=
  { s with failure := s.failure.or (some e) }

/-- What an operation says of a slot, if it is about that slot. -/
def opState (key : EncodedKey) (slot : TimerSlot) : TimerOp → Option TimerState
  | .set k t => if k = key ∧ t.slot = slot then some (.scheduled t.target t.domain) else none
  | .delete k s => if k = key ∧ s = slot then some .unset else none

/-- The state of a slot after the last operation on it, none if the bundle has not touched it. -/
def timerState? (s : Staging ι ο) (key : EncodedKey) (slot : TimerSlot) : Option TimerState :=
  s.timerOps.reverse.findSome? (opState key slot)

end Staging

/-- What a committed call gave. -/
structure CallResult (ι ο : Type) where
  outputs : Outputs ο
  residuals : List (Residual ι)
  pushedBack : Nat
  hold : Instant
  outputWatermark : Option Instant
  firedTimers : Nat

namespace CallResult

variable {ι ο : Type}

def isEmpty (r : CallResult ι ο) : Bool :=
  r.outputs.isEmpty && r.residuals.isEmpty && r.pushedBack == 0

end CallResult

end StreamOperator
