import StreamOperator.Function.Interaction
import StreamOperator.Function.Session

/-! How requests are answered. Answers come from what surrounds the call and from what the bundle
has staged; effects go to the staging alone. A refused request marks the staging as failed. -/

namespace StreamOperator

/-- The timestamp, windows and pane that emissions take over. -/
abbrev Frame := Element Unit

def Element.frame {α : Type} (e : Element α) : Frame := e.withValue ()

/-- Emissions of a timer stand at its target, in the window of its namespace. -/
def Timer.frame (t : Timer) : Frame :=
  ⟨(), t.target, [t.space.window?.getD .global], .noFiring⟩

/-- What surrounds one call. -/
structure Context (ρ σ : Type) where
  outputs : OutputTable
  views : List View
  reader : ρ
  schedule : Schedule
  store : Option σ
  operator : String
  inputWatermark : Instant
  budget : Budget
  key : Option EncodedKey
  current : Option Frame

namespace Context

variable {ρ σ ι ο α μ : Type} [SideInputReader ρ] [StateStore σ]

/-- The window of the current element, if it is in exactly one. -/
def window? (c : Context ρ σ) : Option Window :=
  match c.current with
  | some ⟨_, _, [w], _⟩ => some w
  | _ => none

abbrev Answer (ι ο α : Type) := Granted α × Staging ι ο

def refuse (s : Staging ι ο) (e : ExecutionError) : Answer ι ο α := (.error e, s.fail e)

def withFrame (c : Context ρ σ) (op : ContextOperation) (s : Staging ι ο)
    (f : Frame → Answer ι ο α) : Answer ι ο α :=
  match c.current with
  | some frame => f frame
  | none => refuse s (.internal (.noCurrentElement op))

def withKey (c : Context ρ σ) (op : ContextOperation) (s : Staging ι ο)
    (f : EncodedKey → Answer ι ο α) : Answer ι ο α :=
  match c.key with
  | some key => f key
  | none => refuse s (.internal (.noCurrentKey op))

/-- A cell of the current key needs the key first and then a store. -/
def withCell (c : Context ρ σ) (op : ContextOperation) (space : Namespace) (tag : String)
    (s : Staging ι ο) (f : σ → Address → Answer ι ο α) : Answer ι ο α :=
  c.withKey op s fun key =>
    match c.store with
    | some store => f store ⟨c.operator, key.bytes, space, tag⟩
    | none => refuse s (.state (.storage "no state store configured"))

/-- The content of a cell: what the bundle wrote last, else what the store holds. -/
def cellContent (store : σ) (a : Address) (s : Staging ι ο) : Except StateError (Option Bytes) :=
  match s.writes[a]? with
  | some staged => .ok staged
  | none => StateStore.get store a

def readCell (store : σ) (a : Address) (accepts : Bytes → Bool) (s : Staging ι ο) :
    Answer ι ο (Option Bytes) :=
  match cellContent store a s with
  | .error e => refuse s (.state e)
  | .ok none => (.ok none, s)
  | .ok (some content) =>
    if accepts content then (.ok (some content), s) else refuse s (.state .serialization)

def answer (c : Context ρ σ) (s : Staging ι ο) : (q : Request ι ο) → q.Reply × Staging ι ο
  | .output value =>
    c.withFrame .output s fun frame => (.ok (), s.emit .main (frame.withValue value))
  | .outputAt value time =>
    c.withFrame .outputAt s fun frame =>
      (.ok (), s.emit .main { frame.withValue value with timestamp := time })
  | .outputWhole e => ((), s.emit .main e)
  | .outputTo tag value =>
    match c.outputs.channel? tag with
    | some channel =>
      c.withFrame .outputTo s fun frame => (.ok (), s.emit channel (frame.withValue value))
    | none => refuse s (.internal (.unboundOutputTag tag))
  | .timestamp => (c.current.map Element.timestamp, s)
  | .window => (c.window?, s)
  | .sideValues index =>
    match c.views[index]? with
    | some view => (.ok (SideInputReader.values c.reader view (c.window?.getD .global)), s)
    | none => refuse s (.internal (.unknownSideInput index c.views.length))
  | .currentKey => (c.key, s)
  | .inputWatermark => (c.inputWatermark, s)
  | .budget => (c.budget, s)
  | .processingTime => refuse s (.unsupported (.clock .processing))
  | .setTimer timer =>
    if timer.domain ≠ .event then refuse s (.unsupported (.timerDomain timer.domain))
    else c.withKey .setTimer s fun key => (.ok (), s.addTimerOp (.set key timer))
  | .deleteTimer slot =>
    c.withKey .deleteTimer s fun key => (.ok (), s.addTimerOp (.delete key slot))
  | .timerState slot =>
    c.withKey .timerState s fun key =>
      (.ok ((s.timerState? key slot).getD (c.schedule.state key slot)), s)
  | .readState space tag accepts =>
    c.withCell .readState space tag s fun store a => readCell store a accepts s
  | .writeState space tag content =>
    c.withCell .writeState space tag s fun _ a =>
      match content with
      | some bytes => (.ok (), s.write a (some bytes))
      | none => refuse s (.state .serialization)
  | .clearState space tag =>
    c.withCell .clearState space tag s fun _ a => (.ok (), s.write a none)
  | .resumeLater rest delay =>
    c.withFrame .resumeLater s fun frame =>
      (.ok (), s.addResidual ⟨frame.withValue rest, delay⟩)
  | .abort e => ((), s.fail e)

/-- Runs an interaction to its end. -/
def run (c : Context ρ σ) (s : Staging ι ο) : Interaction ι ο α → α × Staging ι ο
  | .done a => (a, s)
  | .ask q next =>
    let (reply, s) := c.answer s q
    c.run s (next reply)

/-- A refused request outweighs what the callback returned. -/
def settle (stage : Stage) (result : Except String Unit) (s : Staging ι ο) :
    Except ExecutionError (Staging ι ο) :=
  match s.failure with
  | some e => .error e
  | none =>
    match result with
    | .ok () => .ok s
    | .error cause => .error (.user stage cause)

def callback (c : Context ρ σ) (stage : Stage) (body : Callback μ ι ο) (s : Staging ι ο) :
    Session μ (Staging ι ο) :=
  ExceptT.mk fun memory =>
    let (outcome, s) := c.run s (body memory)
    (settle stage outcome.result s, outcome.memory)

theorem run_callback (c : Context ρ σ) (stage : Stage) (body : Callback μ ι ο)
    (s : Staging ι ο) (memory : μ) :
    (c.callback stage body s).run memory =
      (settle stage (c.run s (body memory)).1.result (c.run s (body memory)).2,
        (c.run s (body memory)).1.memory) := rfl

end Context

end StreamOperator
