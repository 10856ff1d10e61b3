import StreamOperator.Time.Format
import StreamOperator.Window

/-! The global window is written by name, an interval with its two ends. -/

namespace StreamOperator

open Json

namespace Window

def toDocument : Window → Document
  | global => .ofString "Global"
  | interval start stop =>
    .record [("Interval", .record [("start", encode start), ("end", encode stop)])]

def ofDocument? (d : Document) : Option Window := do
  match ← d.case? with
  | ("Global", data) => if Document.isBare data then some global else none
  | ("Interval", some data) =>
    match ← data.fields? ["start", "end"] with
    | [some start, some stop] => some (interval (← decode? start) (← decode? stop))
    | _ => none
  | _ => none

end Window

instance : Encode Window := ⟨Window.toDocument⟩

instance : Decode Window := ⟨Window.ofDocument?⟩

end StreamOperator
