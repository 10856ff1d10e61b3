import StreamOperator.Element
import StreamOperator.Error

/-! Output channels: a main one and side ones, each bound to its tag, and what a call emits on
them. Watermarks travel on the main channel, among its data. -/

namespace StreamOperator

inductive Channel
  | main
  | side (index : Nat)
deriving DecidableEq

structure OutputTable where
  main : String
  side : List String
deriving DecidableEq

namespace OutputTable

/-- The first tag that occurs among those before it, `seen` first. -/
def firstRepeated? (seen : List String) : List String → Option String
  | [] => none
  | tag :: tags => if tag ∈ seen then some tag else firstRepeated? (tag :: seen) tags

/-- Too many side tags are refused before a repeated one. -/
def create (main : String) (side : List String) (capacity : Nat) :
    Except ConfigError OutputTable :=
  if side.length > capacity then .error (.tooManySideOutputs side.length capacity)
  else
    match firstRepeated? [main] side with
    | some tag => .error (.duplicateOutputTag tag)
    | none => .ok ⟨main, side⟩

def channel? (t : OutputTable) (tag : String) : Option Channel :=
  if tag = t.main then some .main else (t.side.idxOf? tag).map .side

end OutputTable

/-- What one call emitted, each channel in the order of emission. -/
structure Outputs (β : Type) where
  main : List (StreamMessage β)
  side : List (String × List (Element β))

namespace Outputs

variable {β : Type}

def empty (t : OutputTable) : Outputs β := ⟨[], t.side.map (·, [])⟩

def pushWatermark (o : Outputs β) (t : Instant) : Outputs β :=
  { o with main := o.main ++ [.watermark t] }

def onChannel (channel : Channel) (emitted : List (Channel × Element β)) : List (Element β) :=
  emitted.filterMap fun (c, e) => if c = channel then some e else none

def ofEmissions (t : OutputTable) (emitted : List (Channel × Element β)) : Outputs β where
  main := (onChannel .main emitted).map .data
  side := t.side.mapIdx fun index tag => (tag, onChannel (.side index) emitted)

def mainData (o : Outputs β) : List (Element β) := o.main.filterMap StreamMessage.data?

def watermarks (o : Outputs β) : List Instant := o.main.filterMap StreamMessage.watermark?

def side? (o : Outputs β) (tag : String) : Option (List (Element β)) := o.side.lookup tag

def isEmpty (o : Outputs β) : Bool := o.main.isEmpty && o.side.all (·.2.isEmpty)

@[simp] theorem onChannel_append (channel : Channel) (xs ys : List (Channel × Element β)) :
    onChannel channel (xs ++ ys) = onChannel channel xs ++ onChannel channel ys := by
  simp [onChannel]

theorem mainData_ofEmissions (t : OutputTable) (emitted : List (Channel × Element β)) :
    (ofEmissions t emitted).mainData = onChannel .main emitted := by
  simp [ofEmissions, mainData, List.filterMap_map, Function.comp_def, StreamMessage.data?]

@[simp] theorem mainData_pushWatermark (o : Outputs β) (t : Instant) :
    (o.pushWatermark t).mainData = o.mainData := by
  simp [mainData, pushWatermark, StreamMessage.data?]

end Outputs

end StreamOperator
