import StreamOperator.Runner.Calls

/-! Messages on the input channels of a runner. -/

namespace StreamOperator

inductive InputMessage (ι : Type)
  | main (message : StreamMessage ι)
  | side (index : Nat) (message : StreamMessage SideValue)

/-- The call that takes a message. An element is a bundle of its own. -/
def InputMessage.call {ι : Type} : InputMessage ι → Call ι
  | .main (.data element) => .bundle [element]
  | .main (.watermark time) => .watermark time
  | .side index message => .sideInput index message

def Runner.process {μ ι ο ρ σ : Type} [SideInputReader ρ] [StateStore σ]
    (r : Runner μ ι ο ρ σ) (message : InputMessage ι) :
    Except ExecutionError (CallResult ι ο) × Runner μ ι ο ρ σ :=
  r.call message.call

end StreamOperator
