import StreamOperator.Function.Interaction
import StreamOperator.Json.Fields

/-! Callbacks written as programs. A program asks requests in turn, may use the function's memory,
and stops at the first failure unless it is caught: a refused request, or a failure of the
function's own. Values of state cells are decoded and encoded on the way. -/

namespace StreamOperator

inductive Failure
  | refused (error : ExecutionError)
  | own (message : String)
deriving DecidableEq

def Failure.message : Failure → String
  | refused error => error.message
  | own message => message

abbrev Program (μ ι ο α : Type) := ExceptT Failure (StateT μ (Interaction ι ο)) α

namespace Program

variable {μ ι ο α : Type}

def request (q : Request ι ο) : Program μ ι ο q.Reply :=
  ExceptT.lift (StateT.lift (Interaction.perform q))

/-- Goes on from a granted request and stops at a refused one. -/
def granted : Granted α → Program μ ι ο α
  | .ok a => return a
  | .error e => throw (.refused e)

def fail (message : String) : Program μ ι ο α := throw (.own message)

def output (value : ο) : Program μ ι ο Unit := do
  granted (← request (.output value))

def outputAt (value : ο) (time : Instant) : Program μ ι ο Unit := do
  granted (← request (.outputAt value time))

def outputTo (tag : String) (value : ο) : Program μ ι ο Unit := do
  granted (← request (.outputTo tag value))

def sideValues (index : Nat) : Program μ ι ο (List SideValue) := do
  granted (← request (.sideValues index))

def setTimer (timer : Timer) : Program μ ι ο Unit := do
  granted (← request (.setTimer timer))

def deleteTimer (slot : TimerSlot) : Program μ ι ο Unit := do
  granted (← request (.deleteTimer slot))

def timerState (slot : TimerSlot) : Program μ ι ο TimerState := do
  granted (← request (.timerState slot))

/-- Reads a cell with a decoder; content that it does not decode is refused. -/
def readState (decode? : Bytes → Option α) (space : Namespace) (tag : String) :
    Program μ ι ο (Option α) := do
  let content ← granted (← request (.readState space tag fun b => (decode? b).isSome))
  return content.bind decode?

def writeState [Json.Encode α] (space : Namespace) (tag : String) (value : α) :
    Program μ ι ο Unit := do
  granted (← request (.writeState space tag (some (Json.encodeBytes value))))

def clearState (space : Namespace) (tag : String) : Program μ ι ο Unit := do
  granted (← request (.clearState space tag))

def resumeLater (rest : ι) (delay : Option Duration) : Program μ ι ο Unit := do
  granted (← request (.resumeLater rest delay))

def toCallback (p : Program μ ι ο Unit) : Callback μ ι ο := fun memory =>
  (p.run.run memory).bind fun (result, memory) =>
    .done ⟨result.mapError Failure.message, memory⟩

end Program

end StreamOperator
