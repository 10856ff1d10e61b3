import Std.Data.ExtTreeMap
import StreamOperator.Error

/-! Watermarks of several sources. Each source queues its reports; a pass takes the oldest report
of every source that has one and merges it with what is known of that source. The aggregate then
holds just the sources of that pass. A pass in which a source breaks a rule changes nothing. -/

namespace StreamOperator

structure SourceWatermarks where
  low : Instant
  high : Instant
  synchronizedTime : Instant
deriving DecidableEq

namespace SourceWatermarks

/-- What a source stands at after a report: both watermarks only rise, the low one never passes
the high one, and the synchronized time must go on. -/
def merge (source : UInt32) (known : Option SourceWatermarks) (report : SourceWatermarks) :
    Except InternalError SourceWatermarks :=
  match known with
  | none =>
    if report.high < report.low then .error (.watermarkInverted source report.low report.high)
    else .ok report
  | some known =>
    let low := max known.low report.low
    let high := max known.high report.high
    if high < low then .error (.watermarkInverted source low high)
    else if report.synchronizedTime ≤ known.synchronizedTime then
      .error (.synchronizedTimeStalled source known.synchronizedTime report.synchronizedTime)
    else .ok ⟨low, high, report.synchronizedTime⟩

end SourceWatermarks

abbrev WatermarkSnapshot := Std.ExtTreeMap UInt32 SourceWatermarks

structure SourceAggregator where
  pending : Std.ExtTreeMap UInt32 (List SourceWatermarks)
  current : WatermarkSnapshot
  lastBatch : Instant

namespace SourceAggregator

def empty : SourceAggregator := ⟨∅, ∅, .negInf⟩

instance : Inhabited SourceAggregator := ⟨empty⟩

def report (a : SourceAggregator) (source : UInt32) (w : SourceWatermarks) : SourceAggregator :=
  { a with pending := a.pending.insert source (a.pending.getD source [] ++ [w]) }

def pendingReports (a : SourceAggregator) : Nat :=
  a.pending.values.foldl (fun n queue => n + queue.length) 0

def oldest (a : SourceAggregator) : List (UInt32 × SourceWatermarks) :=
  a.pending.toList.filterMap fun (source, queue) => queue.head?.map (source, ·)

/-- The queues without their oldest reports, those that are left empty dropped. -/
def dropOldest (pending : Std.ExtTreeMap UInt32 (List SourceWatermarks)) :
    Std.ExtTreeMap UInt32 (List SourceWatermarks) :=
  pending.filterMap fun _ queue => if queue.tail.isEmpty then none else some queue.tail

def mergeAll (known : WatermarkSnapshot) (reports : List (UInt32 × SourceWatermarks)) :
    Except InternalError WatermarkSnapshot := do
  let merged ← reports.mapM fun (source, report) => do
    let w ← SourceWatermarks.merge source known[source]? report
    return (source, w)
  return .ofList merged

/-- One pass: the new aggregate, or none when nothing was queued. -/
def advance (a : SourceAggregator) :
    Except InternalError (Option WatermarkSnapshot × SourceAggregator) :=
  match a.oldest with
  | [] => .ok (none, a)
  | reports =>
    match mergeAll a.current reports with
    | .ok merged => .ok (some merged, { a with pending := dropOldest a.pending, current := merged })
    | .error e => .error e

/-- A pass at the end of a batch. The batch's time is kept if the aggregate advanced. -/
def completeBatch (a : SourceAggregator) (time : Instant) :
    Except InternalError (Option WatermarkSnapshot × SourceAggregator) :=
  match a.advance with
  | .ok (some merged, a) => .ok (some merged, { a with lastBatch := time })
  | other => other

end SourceAggregator

end StreamOperator
