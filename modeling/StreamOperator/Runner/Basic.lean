import StreamOperator.Config.Basic
import StreamOperator.Function.Context
import StreamOperator.Pushback
import StreamOperator.Watermark.Tracker

/-! Runners. An operator is declared once: its function, its configuration, its channels and views,
and how its elements are keyed. A runner executes it and holds what changes from call to call. -/

namespace StreamOperator

structure Operator (μ ι ο : Type) where
  function : UserFunction μ ι ο
  config : Config := .standard
  mainOutput : String := "main"
  sideOutputs : List String := []
  views : List View := []
  /-- The key of an element, for an operator whose state and timers are keyed. -/
  encodeKey : Option (ι → Except InternalError EncodedKey) := none
  /-- How many rounds of firing a watermark may take beyond the first: as many as there are later
  instants, unless less is asked for. -/
  refireLimit : Nat := 18446744073709551615

inductive Lifecycle
  | created
  | active
  | tornDown
deriving DecidableEq

structure Runner (μ ι ο ρ σ : Type) where
  operator : Operator μ ι ο
  outputs : OutputTable
  reader : ρ
  pushback : PushbackBuffer ι
  watermark : WatermarkTracker
  schedule : Schedule
  store : Option σ
  lifecycle : Lifecycle
  memory : μ

/-- Builds a runner. The budget is checked before the channels. -/
def Operator.runner {μ ι ο ρ σ : Type} (o : Operator μ ι ο) (reader : ρ) (store : Option σ)
    (memory : μ) : Except ConfigError (Runner μ ι ο ρ σ) :=
  match o.config.validate with
  | .error e => .error e
  | .ok () =>
    match OutputTable.create o.mainOutput o.sideOutputs o.config.maxSideOutputs.toNat with
    | .error e => .error e
    | .ok outputs =>
      .ok {
        operator := o
        outputs
        reader
        pushback := .empty
        watermark := .start (!o.views.isEmpty)
        schedule := .empty
        store
        lifecycle := .created
        memory }

namespace Runner

variable {μ ι ο ρ σ : Type}

def inputWatermark (r : Runner μ ι ο ρ σ) : Instant := r.watermark.input

def outputWatermark (r : Runner μ ι ο ρ σ) : Instant := r.watermark.output

/-- Sets the function up, unless that was done or the runner is torn down. -/
def setup (r : Runner μ ι ο ρ σ) : Except ExecutionError Unit × Runner μ ι ο ρ σ :=
  if r.lifecycle = .created then
    let outcome := r.operator.function.setup r.memory
    let r := { r with memory := outcome.memory }
    match outcome.result with
    | .ok () => (.ok (), { r with lifecycle := .active })
    | .error cause => (.error (.user .setup cause), r)
  else (.ok (), r)

/-- Tears the function down if it was set up; a second time does nothing. -/
def teardown (r : Runner μ ι ο ρ σ) : Except ExecutionError Unit × Runner μ ι ο ρ σ :=
  let wasActive := r.lifecycle = .active
  let r := { r with lifecycle := .tornDown }
  if wasActive then
    let outcome := r.operator.function.teardown r.memory
    let r := { r with memory := outcome.memory }
    match outcome.result with
    | .ok () => (.ok (), r)
    | .error cause => (.error (.user .teardown cause), r)
  else (.ok (), r)

/-- Ends the runner; a failed teardown is passed over. -/
def drop (r : Runner μ ι ο ρ σ) : Runner μ ι ο ρ σ := r.teardown.2

def context (r : Runner μ ι ο ρ σ) : Context ρ σ where
  outputs := r.outputs
  views := r.operator.views
  reader := r.reader
  schedule := r.schedule
  store := r.store
  operator := r.operator.config.operatorId
  inputWatermark := r.inputWatermark
  budget := r.operator.config.splittable
  key := none
  current := none

def emptyResult (r : Runner μ ι ο ρ σ) : CallResult ι ο where
  outputs := .empty r.outputs
  residuals := []
  pushedBack := 0
  hold := r.pushback.minTimestamp
  outputWatermark := none
  firedTimers := 0

/-- Runs work of the function on its memory. -/
def inSession {α : Type} (r : Runner μ ι ο ρ σ) (work : Session μ α) :
    Except ExecutionError α × Runner μ ι ο ρ σ :=
  let (result, memory) := work.run r.memory
  (result, { r with memory })

end Runner

end StreamOperator
