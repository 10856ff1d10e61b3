import StreamOperator.Splittable.Invocation

/-! A splittable function as a user function. Its elements carry the restriction still to process;
each is one invocation, whose outputs take over the timestamp, windows and pane of the element,
and whose residual is handed back with the rest of the restriction. -/

namespace StreamOperator

open Json

structure ElementAndRestriction (ε R : Type) where
  element : ε
  restriction : R
deriving DecidableEq

namespace ElementAndRestriction

variable {ε R : Type}

def toDocument [Encode ε] [Encode R] (e : ElementAndRestriction ε R) : Document :=
  .record [("element", encode e.element), ("restriction", encode e.restriction)]

def ofDocument? [Decode ε] [Decode R] (d : Document) : Option (ElementAndRestriction ε R) := do
  match ← d.fields? ["element", "restriction"] with
  | [some element, some restriction] => some ⟨← decode? element, ← decode? restriction⟩
  | _ => none

end ElementAndRestriction

instance {ε R : Type} [Encode ε] [Encode R] : Encode (ElementAndRestriction ε R) :=
  ⟨ElementAndRestriction.toDocument⟩

instance {ε R : Type} [Decode ε] [Decode R] : Decode (ElementAndRestriction ε R) :=
  ⟨ElementAndRestriction.ofDocument?⟩

namespace SplittableFunction

variable {μ ε ο τ R P : Type} [RestrictionTracker τ R P]

/-- Emits values in turn; the first refusal stops. -/
def emitAll {ι : Type} : List ο → Interaction ι ο (Except ExecutionError Unit)
  | [] => .done (.ok ())
  | value :: values => .ask (.output value) fun
    | .ok () => emitAll values
    | .error e => .done (.error e)

/-- Emits the outputs of an invocation and hands its residual back. -/
def deliver (element : ε) (result : InvocationResult R ο) (memory : μ) :
    Interaction (ElementAndRestriction ε R) ο (Outcome μ) := do
  match ← emitAll result.outputs with
  | .error e => return ⟨.error e.message, memory⟩
  | .ok () =>
    match result.residual with
    | none => return .success memory
    | some rest =>
      match ← Interaction.perform (.resumeLater ⟨element, rest⟩ result.delay) with
      | .error e => return ⟨.error e.message, memory⟩
      | .ok () => return .success memory

/-- One invocation for each element. Without a budget of its own the function runs under that of
the operator. The clock of an invocation may depend on the function's memory. -/
def processElement (f : SplittableFunction μ ε ο τ R P) (budget : Option Budget)
    (stepLimit : Nat) (clock : μ → Nat → Duration)
    (e : Element (ElementAndRestriction ε R)) :
    Callback μ (ElementAndRestriction ε R) ο := fun memory => do
  let operatorBudget ← Interaction.perform .budget
  let processor : SplittableProcessor := ⟨budget.getD operatorBudget, stepLimit⟩
  let work := processor.invoke f (clock memory) e.value.element e.value.restriction
  match work.run memory with
  | (.error cause, memory) =>
    Interaction.perform (.abort cause)
    return ⟨.error cause.message, memory⟩
  | (.ok result, memory) => deliver e.value.element result memory

def toUserFunction (f : SplittableFunction μ ε ο τ R P) (budget : Option Budget := none)
    (stepLimit : Nat := 4294967296) (clock : μ → Nat → Duration := fun _ _ => .zero) :
    UserFunction μ (ElementAndRestriction ε R) ο where
  processElement := f.processElement budget stepLimit clock

end SplittableFunction

end StreamOperator
