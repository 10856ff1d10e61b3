import StreamOperator.Window

/-! Elements of a stream: a value with its timestamp, its windows and the pane of the firing
that produced it, and the messages that carry elements and watermarks on one channel. -/

namespace StreamOperator

inductive Timing
  | early
  | onTime
  | late
  | unknown
deriving DecidableEq

structure Pane where
  index : UInt64
  isFirst : Bool
  isLast : Bool
  timing : Timing
deriving DecidableEq

namespace Pane

/-- The pane of an element that no trigger fired. -/
def noFiring : Pane := ⟨0, true, true, .unknown⟩

def onTimeAndOnly : Pane := ⟨0, true, true, .onTime⟩

instance : Inhabited Pane := ⟨noFiring⟩

end Pane

structure Element (α : Type) where
  value : α
  timestamp : Instant
  windows : List Window
  pane : Pane
deriving DecidableEq

namespace Element

variable {α β : Type}

def inGlobalWindow (value : α) (timestamp : Instant) : Element α :=
  ⟨value, timestamp, [.global], .noFiring⟩

/-- An element of the global window before all event time. -/
def timeless (value : α) : Element α := inGlobalWindow value .negInf

def withValue (e : Element α) (value : β) : Element β :=
  { e with value }

def map (f : α → β) (e : Element α) : Element β := e.withValue (f e.value)

/-- One copy for each window, in the order of the windows. -/
def explode (e : Element α) : List (Element α) :=
  e.windows.map fun w => { e with windows := [w] }

@[simp] theorem value_withValue (e : Element α) (b : β) : (e.withValue b).value = b := rfl

@[simp] theorem timestamp_withValue (e : Element α) (b : β) :
    (e.withValue b).timestamp = e.timestamp := rfl

@[simp] theorem windows_withValue (e : Element α) (b : β) :
    (e.withValue b).windows = e.windows := rfl

@[simp] theorem pane_withValue (e : Element α) (b : β) : (e.withValue b).pane = e.pane := rfl

theorem mem_explode {e p : Element α} :
    p ∈ e.explode ↔ ∃ w ∈ e.windows, p = { e with windows := [w] } := by
  simp [explode, eq_comm]

end Element

inductive StreamMessage (α : Type)
  | data (element : Element α)
  | watermark (time : Instant)
deriving DecidableEq

namespace StreamMessage

variable {α : Type}

def data? : StreamMessage α → Option (Element α)
  | data e => some e
  | watermark _ => none

def watermark? : StreamMessage α → Option Instant
  | data _ => none
  | watermark t => some t

def isData (m : StreamMessage α) : Bool := m.data?.isSome

def isWatermark (m : StreamMessage α) : Bool := m.watermark?.isSome

end StreamMessage

end StreamOperator
