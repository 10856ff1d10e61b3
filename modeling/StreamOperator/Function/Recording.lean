import StreamOperator.Function.Context

/-! The record of a user function: what it is called for, every request with its reply, and how
the call ends. A recorded function does what the function does, and keeps the record beside its
memory, the earliest event first. -/

namespace StreamOperator

inductive Occasion (ι : Type)
  | setup
  | startBundle
  | element (piece : Element ι)
  | timer (timer : Timer)
  | finishBundle
  | teardown

inductive Event (ι ο : Type)
  | called (occasion : Occasion ι) (key : Option EncodedKey)
  | asked (request : Request ι ο) (reply : request.Reply)
  | ended (result : Except String Unit)

def Request.refusal? {ι ο : Type} : (q : Request ι ο) → q.Reply → Option ExecutionError
  | .output _, reply => error? reply
  | .outputAt .., reply => error? reply
  | .outputWhole _, _ => none
  | .outputTo .., reply => error? reply
  | .timestamp, _ => none
  | .window, _ => none
  | .sideValues _, reply => error? reply
  | .currentKey, _ => none
  | .inputWatermark, _ => none
  | .budget, _ => none
  | .processingTime, reply => error? reply
  | .setTimer _, reply => error? reply
  | .deleteTimer _, reply => error? reply
  | .timerState _, reply => error? reply
  | .readState .., reply => error? reply
  | .writeState .., reply => error? reply
  | .clearState .., reply => error? reply
  | .resumeLater .., reply => error? reply
  | .abort e, _ => some e
where
  error? {α : Type} : Granted α → Option ExecutionError
    | .ok _ => none
    | .error e => some e

def Event.refusal? {ι ο : Type} : Event ι ο → Option ExecutionError
  | .asked q reply => q.refusal? reply
  | _ => none

/-- An interaction that ends with its record, which goes on from a given one. -/
def Interaction.recorded {ι ο α : Type} (log : List (Event ι ο)) :
    Interaction ι ο α → Interaction ι ο (α × List (Event ι ο))
  | done a => done (a, log)
  | ask q next => ask q fun reply => (next reply).recorded (log ++ [.asked q reply])

/-- A callback that keeps its record. It asks for the current key first. -/
def Callback.recorded {μ ι ο : Type} (occasion : Occasion ι) (body : Callback μ ι ο) :
    Callback (μ × List (Event ι ο)) ι ο
  | (memory, log) =>
    .ask .currentKey fun key =>
      ((body memory).recorded (log ++ [.called occasion key])).bind fun (outcome, log) =>
        .done ⟨outcome.result, (outcome.memory, log ++ [.ended outcome.result])⟩

def Outcome.recorded {μ ι ο : Type} (occasion : Occasion ι) (body : μ → Outcome μ) :
    μ × List (Event ι ο) → Outcome (μ × List (Event ι ο))
  | (memory, log) =>
    let outcome := body memory
    ⟨outcome.result, (outcome.memory, log ++ [.called occasion none, .ended outcome.result])⟩

def UserFunction.recorded {μ ι ο : Type} (f : UserFunction μ ι ο) :
    UserFunction (μ × List (Event ι ο)) ι ο where
  setup := Outcome.recorded .setup f.setup
  startBundle := Callback.recorded .startBundle f.startBundle
  processElement e := Callback.recorded (.element e) (f.processElement e)
  onTimer t := Callback.recorded (.timer t) (f.onTimer t)
  finishBundle := Callback.recorded .finishBundle f.finishBundle
  teardown := Outcome.recorded .teardown f.teardown

namespace Context

variable {ρ σ ι ο α μ : Type} [SideInputReader ρ] [StateStore σ]

def events (c : Context ρ σ) (s : Staging ι ο) : Interaction ι ο α → List (Event ι ο)
  | .done _ => []
  | .ask q next =>
    let (reply, s) := c.answer s q
    .asked q reply :: c.events s (next reply)

theorem run_bind {β : Type} (c : Context ρ σ) (s : Staging ι ο) (x : Interaction ι ο α)
    (f : α → Interaction ι ο β) :
    c.run s (x.bind f) = c.run (c.run s x).2 (f (c.run s x).1) := by
  induction x generalizing s with
  | done a => rfl
  | ask q next ih => exact ih _ _

theorem run_recorded (c : Context ρ σ) (s : Staging ι ο) (x : Interaction ι ο α)
    (log : List (Event ι ο)) :
    c.run s (x.recorded log) = (((c.run s x).1, log ++ c.events s x), (c.run s x).2) := by
  induction x generalizing s log with
  | done a => simp only [Interaction.recorded, run, events, List.append_nil]
  | ask q next ih =>
    simp only [Interaction.recorded, run, events, ih, List.append_assoc, List.singleton_append]

def callbackEvents (c : Context ρ σ) (occasion : Occasion ι) (body : Callback μ ι ο)
    (s : Staging ι ο) (memory : μ) : List (Event ι ο) :=
  .called occasion c.key :: c.events s (body memory) ++
    [.ended (c.run s (body memory)).1.result]

theorem run_callback_recorded (c : Context ρ σ) (stage : Stage) (occasion : Occasion ι)
    (body : Callback μ ι ο) (s : Staging ι ο) (memory : μ) (log : List (Event ι ο)) :
    (c.callback stage (body.recorded occasion) s).run (memory, log) =
      (((c.callback stage body s).run memory).1, ((c.callback stage body s).run memory).2,
        log ++ c.callbackEvents occasion body s memory) := by
  have h : c.run s (body.recorded occasion (memory, log)) =
      (⟨(c.run s (body memory)).1.result, ((c.run s (body memory)).1.memory,
        log ++ c.callbackEvents occasion body s memory)⟩, (c.run s (body memory)).2) := by
    simp only [Callback.recorded, run, answer, run_bind, run_recorded, callbackEvents,
      List.append_assoc, List.cons_append, List.nil_append]
  simp only [run_callback, h]

theorem records_callback (c : Context ρ σ) (stage : Stage) (occasion : Occasion ι)
    (body : Callback μ ι ο) (s : Staging ι ο) :
    Session.Records (c.callback stage (body.recorded occasion) s) (c.callback stage body s) :=
  fun memory => ⟨_, fun log => c.run_callback_recorded stage occasion body s memory log⟩

theorem failure_answer (c : Context ρ σ) (s : Staging ι ο) (q : Request ι ο) :
    (c.answer s q).2.failure = s.failure.or (q.refusal? (c.answer s q).1) := by
  cases q <;>
    simp only [answer, withFrame, withKey, withCell, readCell, cellContent, refuse,
      Request.refusal?, Staging.fail, Staging.emit, Staging.addTimerOp, Staging.write,
      Staging.addResidual] <;>
    (repeat' split) <;> simp_all [Request.refusal?.error?]

end Context

end StreamOperator
