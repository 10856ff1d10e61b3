import StreamOperator.Element
import StreamOperator.Json.Fields

/-! Panes are written with all their fields, timings by name. -/

namespace StreamOperator

open Json

namespace Timing

def name : Timing → String
  | early => "Early"
  | onTime => "OnTime"
  | late => "Late"
  | unknown => "Unknown"

def names : List (String × Timing) :=
  [early, onTime, late, unknown].map fun t => (t.name, t)

end Timing

instance : Encode Timing := ⟨fun t => encode t.name⟩

instance : Decode Timing := ⟨Document.bareCase? Timing.names⟩

namespace Pane

def toDocument (p : Pane) : Document :=
  .record [("index", encode p.index), ("is_first", encode p.isFirst),
    ("is_last", encode p.isLast), ("timing", encode p.timing)]

def ofDocument? (d : Document) : Option Pane := do
  match ← d.fields? ["index", "is_first", "is_last", "timing"] with
  | [some index, some isFirst, some isLast, some timing] =>
    some ⟨← decode? index, ← decode? isFirst, ← decode? isLast, ← decode? timing⟩
  | _ => none

end Pane

instance : Encode Pane := ⟨Pane.toDocument⟩

instance : Decode Pane := ⟨Pane.ofDocument?⟩

end StreamOperator
