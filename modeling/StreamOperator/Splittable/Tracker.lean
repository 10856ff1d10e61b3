import StreamOperator.Json.Fields

/-! Restrictions, the parts of an element's work, and trackers of what has been claimed of one. An
offset range holds its start and not its stop; its tracker grants strictly increasing offsets. A
checkpoint cuts the range behind the last one granted and gives the rest away. -/

namespace StreamOperator

open Json

/-- Tracks claims of positions `P` against a restriction `R`. -/
class RestrictionTracker (τ : Type) (R P : outParam Type) where
  current : τ → R
  tryClaim : τ → P → Bool × τ
  checkpoint : τ → Option R × τ
  isDone : τ → Bool

structure OffsetRange where
  start : UInt64
  stop : UInt64
deriving DecidableEq

namespace OffsetRange

/-- Number of offsets; a range that stops before its start has none. -/
def size (r : OffsetRange) : UInt64 := if r.start ≤ r.stop then r.stop - r.start else 0

def isEmpty (r : OffsetRange) : Bool := r.size == 0

def text (r : OffsetRange) : String := s!"[{r.start}, {r.stop})"

def toDocument (r : OffsetRange) : Document :=
  .record [("from", encode r.start), ("to", encode r.stop)]

def ofDocument? (d : Document) : Option OffsetRange := do
  match ← d.fields? ["from", "to"] with
  | [some start, some stop] => some ⟨← decode? start, ← decode? stop⟩
  | _ => none

end OffsetRange

instance : Encode OffsetRange := ⟨OffsetRange.toDocument⟩

instance : Decode OffsetRange := ⟨OffsetRange.ofDocument?⟩

structure OffsetTracker where
  range : OffsetRange
  lastClaimed : Option UInt64
deriving DecidableEq

namespace OffsetTracker

def start (range : OffsetRange) : OffsetTracker := ⟨range, none⟩

/-- One past the last offset claimed, or the start of the range. -/
def frontier (t : OffsetTracker) : UInt64 :=
  match t.lastClaimed with
  | some last => last + 1
  | none => t.range.start

def nextPosition? (t : OffsetTracker) : Option UInt64 :=
  if t.frontier < t.range.stop then some t.frontier else none

/-- Grants an offset inside the range and after the last one granted. -/
def tryClaim (t : OffsetTracker) (position : UInt64) : Bool × OffsetTracker :=
  if position < t.range.start ∨ t.range.stop ≤ position then (false, t)
  else if t.lastClaimed.any (position ≤ ·) then (false, t)
  else (true, { t with lastClaimed := some position })

def checkpoint (t : OffsetTracker) : Option OffsetRange × OffsetTracker :=
  if t.range.stop ≤ t.frontier then (none, t)
  else (some ⟨t.frontier, t.range.stop⟩, { t with range := ⟨t.range.start, t.frontier⟩ })

def isDone (t : OffsetTracker) : Bool := t.nextPosition?.isNone

instance : RestrictionTracker OffsetTracker OffsetRange UInt64 where
  current := range
  tryClaim := tryClaim
  checkpoint := checkpoint
  isDone := isDone

end OffsetTracker

end StreamOperator
