import StreamOperator.Splittable.Invocation

/-! Steps that go through an offset range in order. -/

namespace StreamOperator.StepProgram

/-- Claims the next offset and emits it, up to `n` times; stops when nothing is left or a claim is
refused. -/
def claimNext {ο : Type} (value : UInt64 → ο) : Nat → StepProgram OffsetTracker UInt64 ο Unit
  | 0 => .done ()
  | n + 1 => .ask .tracker fun t =>
    match t.nextPosition? with
    | none => .done ()
    | some p => .ask (.claim p) fun
      | true => .ask (.emit (value p)) fun _ => claimNext value n
      | false => .done ()

end StreamOperator.StepProgram
