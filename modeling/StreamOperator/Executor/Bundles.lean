import StreamOperator.Executor.Basic

/-! Many bundles at once, each a task of its own. A task queues for the lock of its key, gets it,
gets a permit, runs, and gives both back; the steps of different tasks may come in any order. A
task that panics fails alone. -/

namespace StreamOperator

/-- What the work of a bundle comes to. -/
inductive Work (α : Type)
  | returns (result : Except ExecutionError α)
  | panics (detail : String)

namespace Work

def result {α : Type} : Work α → Except ExecutionError α
  | returns r => r
  | panics detail => .error (.internal (.taskFailed detail))

end Work

inductive Phase (α : Type)
  | created
  | waiting (ticket : Nat)
  | locked (ticket : Nat)
  | running (ticket : Nat)
  | ended (ticket : Nat) (result : Except ExecutionError α)
  | finished (result : Except ExecutionError α)

structure Task (α : Type) where
  key : EncodedKey
  work : Work α
  phase : Phase α

namespace Task

variable {α : Type}

def start (bundle : EncodedKey × Work α) : Task α := ⟨bundle.1, bundle.2, .created⟩

/-- The next step of a task, none if it has to wait or is finished. -/
def step? (t : Task α) (e : Executor) : Option (Task α × Executor) :=
  match t.phase with
  | .created =>
    let (ticket, locks) := e.locks.enter t.key
    some ({ t with phase := .waiting ticket }, { e with locks })
  | .waiting ticket =>
    match e.locks.acquire ticket with
    | (true, locks) => some ({ t with phase := .locked ticket }, { e with locks })
    | (false, _) => none
  | .locked ticket =>
    if e.hasPermit then
      some ({ t with phase := .running ticket }, { e with running := e.running + 1 })
    else none
  | .running ticket => some ({ t with phase := .ended ticket t.work.result }, e)
  | .ended ticket result =>
    some ({ t with phase := .finished result },
      { e with locks := e.locks.leave ticket, running := e.running - 1 })
  | .finished _ => none

def result? (t : Task α) : Option (Except ExecutionError α) :=
  match t.phase with
  | .finished r => some r
  | _ => none

end Task

structure Pool (α : Type) where
  tasks : List (Task α)
  executor : Executor

namespace Pool

variable {α : Type}

def start (e : Executor) (bundles : List (EncodedKey × Work α)) : Pool α :=
  ⟨bundles.map Task.start, e⟩

def step? (p : Pool α) (index : Nat) : Option (Pool α) := do
  let task ← p.tasks[index]?
  let (task, executor) ← task.step? p.executor
  return ⟨p.tasks.set index task, executor⟩

/-- One pool from another by a step of some task. -/
def Steps (p q : Pool α) : Prop := ∃ index, p.step? index = some q

/-- A step of the first task that can take one. -/
def advance? (p : Pool α) : Option (Pool α) :=
  (List.range p.tasks.length).findSome? p.step?

/-- Steps until no task can take one, at most `fuel` of them. -/
def drain : Nat → Pool α → Pool α
  | 0, p => p
  | fuel + 1, p =>
    match p.advance? with
    | some q => drain fuel q
    | none => p

def isFinished (p : Pool α) : Bool := p.tasks.all (·.result?.isSome)

def results (p : Pool α) : List (Except ExecutionError α) := p.tasks.filterMap Task.result?

end Pool

/-- Runs bundles to the end. A task takes five steps. -/
def Executor.runBundles {α : Type} (e : Executor) (bundles : List (EncodedKey × Work α)) :
    List (Except ExecutionError α) × Executor :=
  let p := Pool.drain (5 * bundles.length) (.start e bundles)
  (p.results, p.executor)

end StreamOperator
