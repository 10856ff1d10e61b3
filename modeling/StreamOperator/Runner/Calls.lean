import StreamOperator.Runner.SideInput
import StreamOperator.Runner.Watermark

/-! Calls on a runner as data, and calls made in turn. A call that fails does not end a run: the
next one goes on from the state it left. -/

namespace StreamOperator

inductive Call (ι : Type)
  | setup
  | bundle (elements : List (Element ι))
  | sideInput (index : Nat) (message : StreamMessage SideValue)
  | watermark (time : Instant)
  | teardown

namespace Runner

variable {μ ι ο ρ σ : Type} [SideInputReader ρ] [StateStore σ]

/-- Makes a call. Setup and teardown give an empty result. -/
def call (r : Runner μ ι ο ρ σ) :
    Call ι → Except ExecutionError (CallResult ι ο) × Runner μ ι ο ρ σ
  | .setup =>
    let (result, r) := r.setup
    (result.map fun _ => r.emptyResult, r)
  | .bundle elements => r.processBundle elements
  | .sideInput index message => r.processSideInput index message
  | .watermark time => r.processWatermark time
  | .teardown =>
    let (result, r) := r.teardown
    (result.map fun _ => r.emptyResult, r)

/-- The answers of calls made in turn, and the runner after the last one. -/
def calls (r : Runner μ ι ο ρ σ) :
    List (Call ι) → List (Except ExecutionError (CallResult ι ο)) × Runner μ ι ο ρ σ
  | [] => ([], r)
  | c :: cs =>
    let (result, r) := r.call c
    let (results, r) := r.calls cs
    (result :: results, r)

theorem calls_append (r : Runner μ ι ο ρ σ) (cs ds : List (Call ι)) :
    r.calls (cs ++ ds) =
      ((r.calls cs).1 ++ ((r.calls cs).2.calls ds).1, ((r.calls cs).2.calls ds).2) := by
  induction cs generalizing r with
  | nil => rfl
  | cons c cs ih => simp only [List.cons_append, calls, ih]

end Runner

end StreamOperator
