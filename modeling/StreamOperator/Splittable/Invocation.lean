import StreamOperator.Config.Budget
import StreamOperator.Function.Context
import StreamOperator.Splittable.Tracker

/-! One bounded invocation of a splittable function. The function works in steps; within a step it
claims positions, which are granted while budget remains, and emits. After a step it goes on,
stops, or asks to be resumed later; what it has not claimed is the residual.

The clock of an invocation is a sequence of readings, one for each time it is looked at; time that
the function spends waiting is added to it. -/

namespace StreamOperator

inductive StepRequest (τ P ο : Type)
  | claim (position : P)
  | tracker
  | claimed
  | elapsed
  | isExhausted
  | emit (value : ο)
  | pause (time : Duration)

abbrev StepRequest.Reply {τ P ο : Type} : StepRequest τ P ο → Type
  | claim _ => Bool
  | tracker => τ
  | claimed => UInt64
  | elapsed => Duration
  | isExhausted => Bool
  | emit _ => Unit
  | pause _ => Unit

/-- A step as a tree of requests. -/
inductive StepProgram (τ P ο α : Type)
  | done (result : α)
  | ask (request : StepRequest τ P ο) (next : request.Reply → StepProgram τ P ο α)

namespace StepProgram

variable {τ P ο α β : Type}

def bind (x : StepProgram τ P ο α) (f : α → StepProgram τ P ο β) : StepProgram τ P ο β :=
  match x with
  | done a => f a
  | ask q next => ask q fun reply => (next reply).bind f

instance : Monad (StepProgram τ P ο) where
  pure := done
  bind := bind

def perform (q : StepRequest τ P ο) : StepProgram τ P ο q.Reply := ask q done

end StepProgram

inductive StepOutcome
  | again
  | stop
  | resume (delay : Duration)

structure SplittableFunction (μ ε ο τ R P : Type) where
  newTracker : μ → R → τ
  step : ε → μ → StepProgram τ P ο (Except String StepOutcome × μ)

/-- The tracker of a restriction, as the function's memory has it. -/
def SplittableFunction.trackerOf {μ ε ο τ R P : Type} (f : SplittableFunction μ ε ο τ R P)
    (restriction : R) : Session μ τ :=
  ExceptT.mk fun memory => (.ok (f.newTracker memory restriction), memory)

/-- An invocation under way. -/
structure Invocation (τ ο : Type) where
  tracker : τ
  claimed : UInt64
  readings : Nat
  waited : Duration
  /-- The latest output first. -/
  emitted : List ο

namespace Invocation

variable {τ R P ο α : Type} [RestrictionTracker τ R P]

def start (tracker : τ) : Invocation τ ο := ⟨tracker, 0, 0, .zero, []⟩

def outputs (i : Invocation τ ο) : List ο := i.emitted.reverse

def read (clock : Nat → Duration) (i : Invocation τ ο) : Duration × Invocation τ ο :=
  (clock i.readings + i.waited, { i with readings := i.readings + 1 })

def exhausted (clock : Nat → Duration) (budget : Budget) (i : Invocation τ ο) :
    Bool × Invocation τ ο :=
  let (elapsed, i) := i.read clock
  (budget.isExhausted i.claimed elapsed, i)

/-- Claims a position while budget remains. -/
def claim (clock : Nat → Duration) (budget : Budget) (i : Invocation τ ο) (position : P) :
    Bool × Invocation τ ο :=
  match i.exhausted clock budget with
  | (true, i) => (false, i)
  | (false, i) =>
    match RestrictionTracker.tryClaim i.tracker position with
    | (true, tracker) => (true, { i with tracker, claimed := i.claimed + 1 })
    | (false, tracker) => (false, { i with tracker })

def answer (clock : Nat → Duration) (budget : Budget) (i : Invocation τ ο) :
    (q : StepRequest τ P ο) → q.Reply × Invocation τ ο
  | .claim position => i.claim clock budget position
  | .tracker => (i.tracker, i)
  | .claimed => (i.claimed, i)
  | .elapsed => i.read clock
  | .isExhausted => i.exhausted clock budget
  | .emit value => ((), { i with emitted := value :: i.emitted })
  | .pause time => ((), { i with waited := i.waited + time })

def run (clock : Nat → Duration) (budget : Budget) (i : Invocation τ ο) :
    StepProgram τ P ο α → α × Invocation τ ο
  | .done a => (a, i)
  | .ask q next =>
    let (reply, i) := i.answer clock budget q
    i.run clock budget (next reply)

end Invocation

structure InvocationResult (R ο : Type) where
  outputs : List ο
  residual : Option R
  delay : Option Duration
  claimed : UInt64
  steps : Nat

/-- The budget of invocations, and how many steps one may take beyond the first. -/
structure SplittableProcessor where
  budget : Budget := .standard
  stepLimit : Nat := 4294967296

namespace SplittableProcessor

variable {μ ε ο τ R P : Type} [RestrictionTracker τ R P]

/-- One step, on the memory of the function. -/
def oneStep (p : SplittableProcessor) (clock : Nat → Duration)
    (step : μ → StepProgram τ P ο (Except String StepOutcome × μ)) (i : Invocation τ ο) :
    Session μ (StepOutcome × Invocation τ ο) :=
  ExceptT.mk fun memory =>
    let ((outcome, memory), i) := i.run clock p.budget (step memory)
    match outcome with
    | .error cause => (.error (.user .processRestriction cause), memory)
    | .ok outcome => (.ok (outcome, i), memory)

/-- Steps until the function stops, the budget is spent or nothing is left to claim, at most `fuel`
of them after this one. Gives the delay asked for and the number of steps. -/
def steps (p : SplittableProcessor) (clock : Nat → Duration)
    (step : μ → StepProgram τ P ο (Except String StepOutcome × μ)) :
    (fuel taken : Nat) → Invocation τ ο → Session μ (Option Duration × Nat × Invocation τ ο)
  | fuel, taken, i => do
    let (outcome, i) ← p.oneStep clock step i
    match outcome with
    | .stop => return (none, taken + 1, i)
    | .resume delay => return (some delay, taken + 1, i)
    | .again =>
      let (exhausted, i) := i.exhausted clock p.budget
      if exhausted || RestrictionTracker.isDone i.tracker then return (none, taken + 1, i)
      else
        match fuel with
        | 0 => throw (.unsettled (p.stepLimit + 1))
        | fuel + 1 => p.steps clock step fuel (taken + 1) i

/-- Runs the function on a restriction within the budget and cuts off what is left. -/
def invoke (p : SplittableProcessor) (f : SplittableFunction μ ε ο τ R P)
    (clock : Nat → Duration) (element : ε) (restriction : R) :
    Session μ (InvocationResult R ο) := do
  let tracker ← f.trackerOf restriction
  let (delay, steps, i) ← p.steps clock (f.step element) p.stepLimit 0 (.start tracker)
  return {
    outputs := i.outputs
    residual := (RestrictionTracker.checkpoint i.tracker).1
    delay
    claimed := i.claimed
    steps }

end SplittableProcessor

end StreamOperator
