import StreamOperator.Runner.Bundle

/-! Arrival of a watermark. Timers that are due fire in rounds: a round takes every due timer off
the schedule, calls the function for each in turn, and then applies what the calls did to the
schedule; the next round takes what is due then. The new output watermark follows the outputs of
the timers. A failed pass changes neither watermarks nor timers. -/

namespace StreamOperator.Runner

variable {μ ι ο ρ σ : Type} [SideInputReader ρ] [StateStore σ]

/-- The surroundings of the calls of a pass: the watermark is the new one already, and the schedule
lacks the timers that are being fired. -/
def passContext (r : Runner μ ι ο ρ σ) (input : Instant) (schedule : Schedule) : Context ρ σ :=
  { r.context with inputWatermark := input, schedule }

def fireTimer (r : Runner μ ι ο ρ σ) (input : Instant) (schedule : Schedule) (s : Staging ι ο)
    (fired : FiredTimer) : Session μ (Staging ι ο) :=
  { r.passContext input schedule with
    key := some fired.key, current := some fired.timer.frame }.callback .onTimer
    (r.operator.function.onTimer fired.timer) s

def applyStaged (schedule : Schedule) (s : Staging ι ο) : Session μ (Schedule × Staging ι ο) :=
  match schedule.applyOps s.timerOps with
  | .ok schedule => return (schedule, { s with timerOps := [] })
  | .error e => throw (.unsupported e)

/-- One round over timers that were just taken off the schedule. -/
def fireRound (r : Runner μ ι ο ρ σ) (input : Instant) (due : List FiredTimer)
    (schedule : Schedule) (s : Staging ι ο) : Session μ (Schedule × Staging ι ο) := do
  let s ← due.foldlM (r.fireTimer input schedule) s
  applyStaged schedule { s with firedTimers := s.firedTimers + due.length }

/-- Rounds until nothing is due, at most `fuel` of them after this one. -/
def fireRounds (r : Runner μ ι ο ρ σ) (input : Instant) :
    (fuel : Nat) → List FiredTimer → Schedule → Staging ι ο →
      Session μ (Schedule × Staging ι ο)
  | fuel, due, schedule, s => do
    let (schedule, s) ← r.fireRound input due schedule s
    match schedule.popDue input with
    | ([], schedule) => return (schedule, s)
    | (due, schedule) =>
      match fuel with
      | 0 => throw (.unsettled (r.operator.refireLimit + 1))
      | fuel + 1 => r.fireRounds input fuel due schedule s

/-- The callbacks of a pass in which timers are due. Timers that the end of the pass sets wait for
the next one. -/
def passSession (r : Runner μ ι ο ρ σ) (input : Instant) (due : List FiredTimer)
    (schedule : Schedule) : Session μ (Schedule × Staging ι ο) := do
  let s ← (r.passContext input schedule).callback .startBundle
    r.operator.function.startBundle .empty
  let (schedule, s) ← r.fireRounds input r.operator.refireLimit due schedule s
  let s ← (r.passContext input schedule).callback .finishBundle
    r.operator.function.finishBundle s
  applyStaged schedule s

/-- Fires what is due at a watermark; where nothing is due, the function is not called. -/
def firePass (r : Runner μ ι ο ρ σ) (input : Instant) :
    Except ExecutionError (Schedule × Staging ι ο) × Runner μ ι ο ρ σ :=
  match r.schedule.popDue input with
  | ([], schedule) => (.ok (schedule, .empty), r)
  | (due, schedule) => r.inSession (r.passSession input due schedule)

def processWatermark (r : Runner μ ι ο ρ σ) (time : Instant) :
    Except ExecutionError (CallResult ι ο) × Runner μ ι ο ρ σ :=
  match r.setup with
  | (.error e, r) => (.error e, r)
  | (.ok (), r) =>
    match r.watermark.advance time r.pushback.minTimestamp with
    | .error e => (.error (.internal e), r)
    | .ok (outputWatermark, watermark) =>
      match r.firePass time with
      | (.error e, r) => (.error e, r)
      | (.ok (schedule, s), r) =>
        match r.commit s with
        | (.error e, r) => (.error e, r)
        | (.ok (), r) =>
          let outputs := Outputs.ofEmissions r.outputs s.outputs
          let outputs :=
            match outputWatermark with
            | some t => outputs.pushWatermark t
            | none => outputs
          (.ok {
            outputs
            residuals := s.residuals
            pushedBack := 0
            hold := r.pushback.minTimestamp
            outputWatermark
            firedTimers := s.firedTimers }, { r with watermark, schedule })

end StreamOperator.Runner
