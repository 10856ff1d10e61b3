import StreamOperator.Time.Instant

/-! Windows of event time: the global one, and intervals that hold their start and not their
end. The global window comes first in the order, intervals by start and then end. -/

namespace StreamOperator

inductive Window
  | global
  | interval (start stop : Instant)
deriving DecidableEq

namespace Window

def bounds : Window → List Instant
  | global => []
  | interval start stop => [start, stop]

theorem bounds_injective {v w : Window} (h : v.bounds = w.bounds) : v = w := by
  cases v <;> cases w <;> simp_all [bounds]

instance : Ord Window := ⟨compareOn bounds⟩

instance : Std.TransOrd Window := inferInstanceAs (Std.TransCmp (compareOn bounds))

instance : Std.LawfulEqOrd Window where
  eq_of_compare h := bounds_injective (Std.LawfulEqOrd.eq_of_compare (α := List Instant) h)

def isGlobal : Window → Bool
  | global => true
  | interval .. => false

/-- Last instant of a window. The global window ends one millisecond before the infinite
future, so a watermark can pass it before the input finishes. -/
def maxTimestamp : Window → Instant
  | global => Instant.posInf.retreat 1
  | interval _ stop => stop.retreat 1

def contains (t : Instant) : Window → Bool
  | global => true
  | interval start stop => start ≤ t && t < stop

def text : Window → String
  | global => "GlobalWindow"
  | interval start stop => "[" ++ start.text ++ ", " ++ stop.text ++ ")"

end Window

end StreamOperator
