import StreamOperator.Splittable.Invocation

/-! The positions that the steps of an invocation are granted, in order. A recorded splittable
function does what the function does, and keeps them beside its memory. -/

namespace StreamOperator

def StepRequest.grant? {τ P ο : Type} : (q : StepRequest τ P ο) → q.Reply → Option P
  | .claim position, true => some position
  | _, _ => none

/-- A step that ends with what it was granted, behind what was granted before. -/
def StepProgram.recorded {τ P ο α : Type} (granted : List P) :
    StepProgram τ P ο α → StepProgram τ P ο (α × List P)
  | done a => done (a, granted)
  | ask q next => ask q fun reply => (next reply).recorded (granted ++ (q.grant? reply).toList)

/-- A step that keeps what it is granted beside the memory. -/
def SplittableFunction.recordedStep {μ τ P ο : Type}
    (step : μ → StepProgram τ P ο (Except String StepOutcome × μ)) :
    μ × List P → StepProgram τ P ο (Except String StepOutcome × μ × List P)
  | (memory, granted) =>
    ((step memory).recorded granted).bind fun ((outcome, memory), granted) =>
      .done (outcome, memory, granted)

def SplittableFunction.recorded {μ ε ο τ R P : Type} (f : SplittableFunction μ ε ο τ R P) :
    SplittableFunction (μ × List P) ε ο τ R P where
  newTracker memory := f.newTracker memory.1
  step element := recordedStep (f.step element)

namespace Invocation

variable {τ R P ο α β : Type} [RestrictionTracker τ R P]

def grants (clock : Nat → Duration) (budget : Budget) (i : Invocation τ ο) :
    StepProgram τ P ο α → List P
  | .done _ => []
  | .ask q next =>
    let (reply, i) := i.answer clock budget q
    (q.grant? reply).toList ++ i.grants clock budget (next reply)

theorem run_bind (clock : Nat → Duration) (budget : Budget) (i : Invocation τ ο)
    (x : StepProgram τ P ο α) (f : α → StepProgram τ P ο β) :
    i.run clock budget (x.bind f) =
      (i.run clock budget x).2.run clock budget (f (i.run clock budget x).1) := by
  induction x generalizing i with
  | done a => rfl
  | ask q next ih => exact ih _ _

theorem run_recorded (clock : Nat → Duration) (budget : Budget) (i : Invocation τ ο)
    (x : StepProgram τ P ο α) (granted : List P) :
    i.run clock budget (x.recorded granted) =
      (((i.run clock budget x).1, granted ++ i.grants clock budget x),
        (i.run clock budget x).2) := by
  induction x generalizing i granted with
  | done a => simp only [StepProgram.recorded, run, grants, List.append_nil]
  | ask q next ih => simp only [StepProgram.recorded, run, grants, ih, List.append_assoc]

end Invocation

namespace SplittableProcessor

variable {μ ε ο τ R P : Type} [RestrictionTracker τ R P]

theorem records_oneStep (p : SplittableProcessor) (clock : Nat → Duration)
    (step : μ → StepProgram τ P ο (Except String StepOutcome × μ)) (i : Invocation τ ο) :
    Session.Records (p.oneStep clock (SplittableFunction.recordedStep step) i)
      (p.oneStep clock step i) := by
  intro memory
  refine ⟨i.grants clock p.budget (step memory), fun granted => ?_⟩
  show (_, _) = _
  simp only [oneStep, ExceptT.run, ExceptT.mk, SplittableFunction.recordedStep,
    Invocation.run_bind, Invocation.run_recorded, Invocation.run]
  rcases i.run clock p.budget (step memory) with ⟨⟨_ | _, _⟩, _⟩ <;> rfl

theorem records_steps (p : SplittableProcessor) (clock : Nat → Duration)
    (step : μ → StepProgram τ P ο (Except String StepOutcome × μ)) (fuel taken : Nat)
    (i : Invocation τ ο) :
    Session.Records (p.steps clock (SplittableFunction.recordedStep step) fuel taken i)
      (p.steps clock step fuel taken i) := by
  induction fuel generalizing taken i with
  | zero =>
    unfold steps
    refine .bind (p.records_oneStep clock step i) fun (outcome, i) => ?_
    cases outcome with
    | stop => exact .of_pure _
    | resume delay => exact .of_pure _
    | again =>
      dsimp only
      split
      · exact .of_pure _
      · exact .of_throw _
  | succ fuel ih =>
    unfold steps
    refine .bind (p.records_oneStep clock step i) fun (outcome, i) => ?_
    cases outcome with
    | stop => exact .of_pure _
    | resume delay => exact .of_pure _
    | again =>
      dsimp only
      split
      · exact .of_pure _
      · exact ih _ _

theorem records_invoke (p : SplittableProcessor) (f : SplittableFunction μ ε ο τ R P)
    (clock : Nat → Duration) (element : ε) (restriction : R) :
    Session.Records (p.invoke f.recorded clock element restriction)
      (p.invoke f clock element restriction) :=
  .bind (fun memory => ⟨[], fun log => by simp only [List.append_nil]; rfl⟩) fun _ =>
    .bind (p.records_steps clock _ _ _ _) fun _ => .of_pure _

def grants (p : SplittableProcessor) (f : SplittableFunction μ ε ο τ R P)
    (clock : Nat → Duration) (element : ε) (restriction : R) (memory : μ) : List P :=
  ((p.invoke f.recorded clock element restriction).run (memory, [])).2.2

theorem run_invoke_recorded (p : SplittableProcessor) (f : SplittableFunction μ ε ο τ R P)
    (clock : Nat → Duration) (element : ε) (restriction : R) (memory : μ) (log : List P) :
    (p.invoke f.recorded clock element restriction).run (memory, log) =
      (((p.invoke f clock element restriction).run memory).1,
        ((p.invoke f clock element restriction).run memory).2,
        log ++ p.grants f clock element restriction memory) := by
  obtain ⟨granted, h⟩ := p.records_invoke f clock element restriction memory
  simp only [grants, h, List.nil_append]

end SplittableProcessor

end StreamOperator
