import StreamOperator.Runner.Basic

/-! Bundles: start, every element in its ready windows, finish, and then the commit of all that was
staged. A bundle that fails leaves the runner's timers, cells, buffer and watermarks alone. -/

namespace StreamOperator.Runner

variable {μ ι ο ρ σ : Type} [SideInputReader ρ] [StateStore σ]

def keyOf (r : Runner μ ι ο ρ σ) (value : ι) : Except ExecutionError (Option EncodedKey) :=
  match r.operator.encodeKey with
  | none => .ok none
  | some encode =>
    match encode value with
    | .ok key => .ok (some key)
    | .error e => .error (.internal e)

def processPiece (r : Runner μ ι ο ρ σ) (key : Option EncodedKey) (s : Staging ι ο)
    (piece : Element ι) : Session μ (Staging ι ο) :=
  { r.context with key, current := some piece.frame }.callback .processElement
    (r.operator.function.processElement piece) s

/-- Processes the ready windows of an element and stages the others for the buffer. -/
def processOne (r : Runner μ ι ο ρ σ) (s : Staging ι ο) (e : Element ι) :
    Session μ (Staging ι ο) := do
  let key ← liftExcept (r.keyOf e.value)
  let split := ReadySplit.ofElement e r.operator.views r.reader
  let s ← split.ready.foldlM (r.processPiece key) s
  return { s with pushedBack := s.pushedBack ++ split.pushedBack }
where
  liftExcept {α : Type} (x : Except ExecutionError α) : Session μ α := ExceptT.mk (pure x)

/-- The callbacks of one bundle, without the commit. -/
def bundleSession (r : Runner μ ι ο ρ σ) (elements : List (Element ι)) :
    Session μ (Staging ι ο) := do
  let s ← r.context.callback .startBundle r.operator.function.startBundle .empty
  let s ← elements.foldlM r.processOne s
  r.context.callback .finishBundle r.operator.function.finishBundle s

/-- Sets the function up if need be and runs one bundle. -/
def executeBundle (r : Runner μ ι ο ρ σ) (elements : List (Element ι)) :
    Except ExecutionError (Staging ι ο) × Runner μ ι ο ρ σ :=
  match r.setup with
  | (.error e, r) => (.error e, r)
  | (.ok (), r) => r.inSession (r.bundleSession elements)

/-- Hands staged writes to the store in the order of their addresses; no writes, no batch. -/
def applyWrites (store : Option σ) (writes : Std.ExtTreeMap Address (Option Bytes)) :
    Except StateError Unit × Option σ :=
  match store with
  | none => (.ok (), none)
  | some store =>
    if writes.isEmpty then (.ok (), some store)
    else
      let (result, store) := StateStore.apply store writes.toList
      (result, some store)

/-- Makes the staged timers and writes take effect, the writes last. -/
def commit (r : Runner μ ι ο ρ σ) (s : Staging ι ο) :
    Except ExecutionError Unit × Runner μ ι ο ρ σ :=
  match r.schedule.applyOps s.timerOps with
  | .error e => (.error (.unsupported e), r)
  | .ok schedule =>
    match applyWrites r.store s.writes with
    | (.error e, store) => (.error (.state e), { r with store })
    | (.ok (), store) => (.ok (), { r with store, schedule })

/-- Runs a bundle and commits it; what it staged is returned. -/
def commitBundle (r : Runner μ ι ο ρ σ) (elements : List (Element ι)) :
    Except ExecutionError (Staging ι ο) × Runner μ ι ο ρ σ :=
  match r.executeBundle elements with
  | (.error e, r) => (.error e, r)
  | (.ok s, r) =>
    match r.commit s with
    | (.error e, r) => (.error e, r)
    | (.ok (), r) => (.ok s, r)

/-- Processes elements as one bundle. Windows that are not ready go to the buffer. -/
def processBundle (r : Runner μ ι ο ρ σ) (elements : List (Element ι)) :
    Except ExecutionError (CallResult ι ο) × Runner μ ι ο ρ σ :=
  match r.commitBundle elements with
  | (.error e, r) => (.error e, r)
  | (.ok s, r) =>
    let r := { r with pushback := r.pushback.extend s.pushedBack }
    (.ok {
      outputs := .ofEmissions r.outputs s.outputs
      residuals := s.residuals
      pushedBack := s.pushedBack.length
      hold := r.pushback.minTimestamp
      outputWatermark := none
      firedTimers := s.firedTimers }, r)

def processElement (r : Runner μ ι ο ρ σ) (element : Element ι) :
    Except ExecutionError (CallResult ι ο) × Runner μ ι ο ρ σ :=
  r.processBundle [element]

end StreamOperator.Runner
