import StreamOperator.Runner.Bundle

/-! Arrival of side-input values. A value is materialized and stays so; then every element in the
buffer is tried again as one bundle, and the output watermark is looked at again. A failed replay
leaves the buffer as it was. -/

namespace StreamOperator.Runner

variable {μ ι ο ρ σ : Type} [SideInputReader ρ] [StateStore σ]

/-- Materializes a value of a view, for good. -/
def materialize (r : Runner μ ι ο ρ σ) (view : View) (value : Element SideValue) :
    Runner μ ι ο ρ σ :=
  { r with reader := SideInputReader.materialize r.reader view value }

/-- Tries the buffered elements again. An empty buffer starts no bundle. -/
def replay (r : Runner μ ι ο ρ σ) :
    Except ExecutionError (CallResult ι ο) × Runner μ ι ο ρ σ :=
  if r.pushback.isEmpty then (.ok r.emptyResult, r)
  else
    match r.commitBundle r.pushback.elements with
    | (.error e, r) => (.error e, { r with pushback := .ofList r.pushback.elements })
    | (.ok s, r) =>
      (.ok { r.emptyResult with
          outputs := .ofEmissions r.outputs s.outputs
          residuals := s.residuals
          pushedBack := s.pushedBack.length },
        { r with pushback := .ofList s.pushedBack })

/-- Releases the output watermark as far as the buffer allows, with a mark in the outputs. -/
def releaseWatermark (r : Runner μ ι ο ρ σ) (result : CallResult ι ο) :
    CallResult ι ο × Runner μ ι ο ρ σ :=
  let hold := r.pushback.minTimestamp
  let (outputWatermark, watermark) := r.watermark.reevaluate hold
  let outputs :=
    match outputWatermark with
    | some t => result.outputs.pushWatermark t
    | none => result.outputs
  ({ result with outputs, outputWatermark, hold }, { r with watermark })

/-- Takes a message of the side input at an index. Its watermarks are passed over. -/
def processSideInput (r : Runner μ ι ο ρ σ) (index : Nat) (message : StreamMessage SideValue) :
    Except ExecutionError (CallResult ι ο) × Runner μ ι ο ρ σ :=
  match r.operator.views[index]? with
  | none => (.error (.internal (.unknownSideInput index r.operator.views.length)), r)
  | some view =>
    match message with
    | .watermark _ => (.ok r.emptyResult, r)
    | .data value =>
      match (r.materialize view value).replay with
      | (.error e, r) => (.error e, r)
      | (.ok result, r) =>
        let (result, r) := r.releaseWatermark result
        (.ok result, r)

end StreamOperator.Runner
