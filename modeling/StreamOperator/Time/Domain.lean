/-! The clocks that a timer may be set on. Only event time is driven by watermarks. -/

namespace StreamOperator

inductive TimeDomain
  | event
  | processing
  | synchronizedProcessing
deriving DecidableEq

namespace TimeDomain

def text : TimeDomain → String
  | event => "event-time"
  | processing => "processing-time"
  | synchronizedProcessing => "synchronized-processing-time"

end TimeDomain

end StreamOperator
