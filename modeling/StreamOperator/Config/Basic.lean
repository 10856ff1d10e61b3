import StreamOperator.Config.Budget

/-! Configuration of one operator: its name, under which its state is kept, how many side outputs
it may declare, the budget of its splittable work, and whether elements are traced. -/

namespace StreamOperator

open Json

structure Config where
  operatorId : String
  maxSideOutputs : UInt64
  splittable : Budget
  traceElements : Bool
deriving DecidableEq

namespace Config

def standard : Config := ⟨"operator", 5, .standard, false⟩

instance : Inhabited Config := ⟨standard⟩

def named (operatorId : String) : Config := { standard with operatorId }

def validate (c : Config) : Except ConfigError Unit := c.splittable.validate

def toDocument (c : Config) : Document :=
  .record [("operator_id", encode c.operatorId), ("max_side_outputs", encode c.maxSideOutputs),
    ("splittable", encode c.splittable), ("trace_elements", encode c.traceElements)]

/-- A field that is not given takes its standard value. -/
def ofDocument? (d : Document) : Option Config := do
  match ← d.fields? ["operator_id", "max_side_outputs", "splittable", "trace_elements"] with
  | [id, outputs, budget, trace] =>
    let operatorId ← id.elim (some standard.operatorId) decode?
    let maxSideOutputs ← outputs.elim (some standard.maxSideOutputs) decode?
    let splittable ← budget.elim (some standard.splittable) decode?
    let traceElements ← trace.elim (some standard.traceElements) decode?
    some { operatorId, maxSideOutputs, splittable, traceElements }
  | _ => none

end Config

instance : Encode Config := ⟨Config.toDocument⟩

instance : Decode Config := ⟨Config.ofDocument?⟩

namespace Config

def toText (c : Config) : String := encodeText c

/-- Reads a configuration and checks it. -/
def ofText (s : String) : Except ConfigError Config :=
  match decodeText? s with
  | some (c : Config) => c.validate.map fun _ => c
  | none => .error .parse

end Config

end StreamOperator
