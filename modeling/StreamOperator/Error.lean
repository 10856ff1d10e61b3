import StreamOperator.Time.Domain
import StreamOperator.Time.Instant

/-! Everything that can fail, by cause, with the wording of each message. A failure is either the
user function's own, a violated rule of the operator, or a request that the operator does not
serve. -/

namespace StreamOperator

/-- Why a value has no JSON text. -/
inductive JsonError
  | nameNotText
deriving DecidableEq

def JsonError.message : JsonError → String
  | nameNotText => "key must be a string"

/-- Why a key has no encoding. -/
inductive CodecError
  | json (cause : JsonError)
  | custom (detail : String)
deriving DecidableEq

def CodecError.message : CodecError → String
  | json cause => "json encoding failed: " ++ cause.message
  | custom detail => detail

inductive StateError
  | serialization
  | storage (detail : String)
deriving DecidableEq

def StateError.message : StateError → String
  | serialization => "serialization error"
  | storage detail => "storage error: " ++ detail

inductive BudgetLimit
  | records
  | duration
deriving DecidableEq

def BudgetLimit.name : BudgetLimit → String
  | records => "max_records"
  | duration => "max_duration"

inductive ConfigError
  | tooManySideOutputs (declared capacity : Nat)
  | duplicateOutputTag (tag : String)
  | invalidBudget (zero : BudgetLimit)
  | parse
deriving DecidableEq

def ConfigError.message : ConfigError → String
  | tooManySideOutputs declared capacity =>
    s!"too many side outputs: {declared} declared, capacity is {capacity}"
  | duplicateOutputTag tag => s!"output tag {tag} declared more than once"
  | invalidBudget zero => "invalid splittable budget: " ++ zero.name ++ " must be greater than zero"
  | parse => "invalid configuration"

inductive UnsupportedOperation
  | timerDomain (domain : TimeDomain)
  | clock (domain : TimeDomain)
deriving DecidableEq

def UnsupportedOperation.message : UnsupportedOperation → String
  | timerDomain domain => "timers in the " ++ domain.text ++ " domain are not supported"
  | clock domain => "reading the current " ++ domain.text ++ " is not supported"

/-- The operations of a callback that need a current key or a current element. -/
inductive ContextOperation
  | output
  | outputAt
  | outputTo
  | resumeLater
  | setTimer
  | deleteTimer
  | timerState
  | readState
  | writeState
  | clearState
deriving DecidableEq

def ContextOperation.name : ContextOperation → String
  | output => "output"
  | outputAt => "output_with_timestamp"
  | outputTo => "output_to"
  | resumeLater => "resume_later"
  | setTimer => "set_timer"
  | deleteTimer => "delete_timer"
  | timerState => "timer_state"
  | readState => "read_state"
  | writeState => "write_state"
  | clearState => "clear_state"

inductive InternalError
  | keyEncoding (key codec : String) (cause : CodecError)
  | watermarkRegression (current attempted : Instant)
  | watermarkInverted (source : UInt32) (low high : Instant)
  | synchronizedTimeStalled (source : UInt32) (current attempted : Instant)
  | unknownSideInput (index declared : Nat)
  | unboundOutputTag (tag : String)
  | noCurrentKey (operation : ContextOperation)
  | noCurrentElement (operation : ContextOperation)
  | taskFailed (detail : String)
  | state (cause : StateError)
deriving DecidableEq

def InternalError.message : InternalError → String
  | keyEncoding key codec cause =>
    "unable to encode key " ++ key ++ " using " ++ codec ++ ": " ++ cause.message
  | watermarkRegression current attempted =>
    "input watermark regression from " ++ current.text ++ " to " ++ attempted.text
  | watermarkInverted source low high =>
    "low watermark " ++ low.text ++ " cannot be later than high watermark " ++ high.text
      ++ " (source " ++ toString source ++ ")"
  | synchronizedTimeStalled source current attempted =>
    "synchronized processing time must advance (source " ++ toString source ++ ": "
      ++ current.text ++ " -> " ++ attempted.text ++ ")"
  | unknownSideInput index declared =>
    s!"side input ordinal {index} out of range ({declared} declared)"
  | unboundOutputTag tag => s!"output tag {tag} is not bound to a channel"
  | noCurrentKey operation =>
    operation.name ++ " requires a current key, but the invocation is not keyed"
  | noCurrentElement operation => operation.name ++ " requires a current element or timer"
  | taskFailed detail => "bundle task failed: " ++ detail
  | state cause => cause.message

/-- The callbacks of a user function, as named in its failures. -/
inductive Stage
  | setup
  | startBundle
  | processElement
  | onTimer
  | finishBundle
  | teardown
  | processRestriction
deriving DecidableEq

def Stage.text : Stage → String
  | setup => "setup"
  | startBundle => "start_bundle"
  | processElement => "process_element"
  | onTimer => "on_timer"
  | finishBundle => "finish_bundle"
  | teardown => "teardown"
  | processRestriction => "process_restriction"

/-- A failed call. A call that would repeat rounds of work without end stops at its round limit
and is `unsettled`. -/
inductive ExecutionError
  | user (stage : Stage) (cause : String)
  | internal (cause : InternalError)
  | unsupported (cause : UnsupportedOperation)
  | unsettled (rounds : Nat)
deriving DecidableEq

namespace ExecutionError

def message : ExecutionError → String
  | user stage cause => "user function failed in " ++ stage.text ++ ": " ++ cause
  | internal cause => "internal error: " ++ cause.message
  | unsupported cause => "unsupported operation: " ++ cause.message
  | unsettled rounds => s!"not settled after {rounds} rounds"

def state (cause : StateError) : ExecutionError := .internal (.state cause)

def isUser : ExecutionError → Bool
  | user .. => true
  | _ => false

def isInternal : ExecutionError → Bool
  | internal _ => true
  | _ => false

end ExecutionError

end StreamOperator
