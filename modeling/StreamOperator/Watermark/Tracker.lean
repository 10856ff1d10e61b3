import StreamOperator.Error

/-! The input and output watermark of one operator. Without side inputs the output follows the
input; with them it is held back to the least timestamp of the elements pushed back. It never
goes down. -/

namespace StreamOperator

structure WatermarkTracker where
  input : Instant
  output : Instant
  hasSideInputs : Bool
deriving DecidableEq

namespace WatermarkTracker

def start (hasSideInputs : Bool) : WatermarkTracker := ⟨.negInf, .negInf, hasSideInputs⟩

/-- Where the output watermark may stand. -/
def candidate (w : WatermarkTracker) (hold : Instant) : Instant :=
  if w.hasSideInputs then min hold w.input else w.input

/-- Raises the output watermark to its candidate, with the new one if it moved. -/
def raise (w : WatermarkTracker) (hold : Instant) : Option Instant × WatermarkTracker :=
  let c := w.candidate hold
  if w.output < c then (some c, { w with output := c }) else (none, w)

/-- Moves the input watermark; it does not go back. -/
def advance (w : WatermarkTracker) (input hold : Instant) :
    Except InternalError (Option Instant × WatermarkTracker) :=
  if input < w.input then .error (.watermarkRegression w.input input)
  else .ok ({ w with input }.raise hold)

/-- Looks at the output watermark again, after elements were released. -/
def reevaluate (w : WatermarkTracker) (hold : Instant) : Option Instant × WatermarkTracker :=
  w.raise hold

@[simp] theorem input_raise (w : WatermarkTracker) (hold : Instant) :
    (w.raise hold).2.input = w.input := by
  unfold raise; dsimp only; split <;> rfl

@[simp] theorem hasSideInputs_raise (w : WatermarkTracker) (hold : Instant) :
    (w.raise hold).2.hasSideInputs = w.hasSideInputs := by
  unfold raise; dsimp only; split <;> rfl

theorem raise_eq_some_iff {w : WatermarkTracker} {hold t : Instant} :
    (w.raise hold).1 = some t ↔ w.output < w.candidate hold ∧ t = w.candidate hold := by
  unfold raise; dsimp only; split <;> simp_all [eq_comm]

end WatermarkTracker

end StreamOperator
