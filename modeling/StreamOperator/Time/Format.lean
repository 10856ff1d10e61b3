import StreamOperator.Json.Fields
import StreamOperator.Time.Domain
import StreamOperator.Time.Instant

/-! Instants are written as their milliseconds, time domains by name. -/

namespace StreamOperator

open Json

instance : Encode Instant := ⟨fun t => encode t.millis⟩

instance : Decode Instant := ⟨fun d => (decode? d).map Instant.mk⟩

namespace TimeDomain

def name : TimeDomain → String
  | event => "EventTime"
  | processing => "ProcessingTime"
  | synchronizedProcessing => "SynchronizedProcessingTime"

def names : List (String × TimeDomain) :=
  [event, processing, synchronizedProcessing].map fun d => (d.name, d)

end TimeDomain

instance : Encode TimeDomain := ⟨fun d => encode d.name⟩

instance : Decode TimeDomain := ⟨Document.bareCase? TimeDomain.names⟩

end StreamOperator
