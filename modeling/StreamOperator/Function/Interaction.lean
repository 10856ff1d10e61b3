import StreamOperator.Bundle.Staging
import StreamOperator.Config.Budget
import StreamOperator.SideInput

/-! What a user function may ask for while it runs, as a tree: a callback ends with a result or
asks one request and goes on from the reply. A function sees every refusal and may go on after it;
the bundle fails all the same. -/

namespace StreamOperator

inductive Request (ι ο : Type)
  | output (value : ο)
  | outputAt (value : ο) (time : Instant)
  | outputWhole (element : Element ο)
  | outputTo (tag : String) (value : ο)
  | timestamp
  | window
  | sideValues (index : Nat)
  | currentKey
  | inputWatermark
  | budget
  | processingTime
  | setTimer (timer : Timer)
  | deleteTimer (slot : TimerSlot)
  | timerState (slot : TimerSlot)
  /-- Content that is not accepted is refused as unreadable. -/
  | readState (space : Namespace) (tag : String) (accepts : Bytes → Bool)
  /-- A value without an encoding is refused. -/
  | writeState (space : Namespace) (tag : String) (content : Option Bytes)
  | clearState (space : Namespace) (tag : String)
  | resumeLater (rest : ι) (delay : Option Duration)
  /-- Ends the call with an error of its own, which is reported as it is. -/
  | abort (error : ExecutionError)

abbrev Granted (α : Type) := Except ExecutionError α

abbrev Request.Reply {ι ο : Type} : Request ι ο → Type
  | output _ => Granted Unit
  | outputAt .. => Granted Unit
  | outputWhole _ => Unit
  | outputTo .. => Granted Unit
  | timestamp => Option Instant
  | window => Option Window
  | sideValues _ => Granted (List SideValue)
  | currentKey => Option EncodedKey
  | inputWatermark => Instant
  | budget => Budget
  | processingTime => Granted Instant
  | setTimer _ => Granted Unit
  | deleteTimer _ => Granted Unit
  | timerState _ => Granted TimerState
  | readState .. => Granted (Option Bytes)
  | writeState .. => Granted Unit
  | clearState .. => Granted Unit
  | resumeLater .. => Granted Unit
  | abort _ => Unit

inductive Interaction (ι ο α : Type)
  | done (result : α)
  | ask (request : Request ι ο) (next : request.Reply → Interaction ι ο α)

namespace Interaction

variable {ι ο α β : Type}

/-- Goes on with another interaction where this one ends. -/
def bind (x : Interaction ι ο α) (f : α → Interaction ι ο β) : Interaction ι ο β :=
  match x with
  | done a => f a
  | ask q next => ask q fun reply => (next reply).bind f

instance : Monad (Interaction ι ο) where
  pure := done
  bind := bind

def perform (q : Request ι ο) : Interaction ι ο q.Reply := ask q done

end Interaction

/-- How a callback ended, and the memory it leaves to the next one. -/
structure Outcome (μ : Type) where
  result : Except String Unit
  memory : μ

def Outcome.success {μ : Type} (memory : μ) : Outcome μ := ⟨.ok (), memory⟩

abbrev Callback (μ ι ο : Type) := μ → Interaction ι ο (Outcome μ)

/-- A user function over a memory of its own, which also a failed bundle changes. -/
structure UserFunction (μ ι ο : Type) where
  setup : μ → Outcome μ := .success
  startBundle : Callback μ ι ο := fun m => .done (.success m)
  processElement : Element ι → Callback μ ι ο
  onTimer : Timer → Callback μ ι ο := fun _ m => .done (.success m)
  finishBundle : Callback μ ι ο := fun m => .done (.success m)
  teardown : μ → Outcome μ := .success

end StreamOperator
