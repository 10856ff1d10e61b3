import StreamOperator.Error
import StreamOperator.Json.Fields

/-! The budget of one bounded invocation: how many records it may claim and how long it may take.
Whichever limit is reached first ends the invocation. A usable budget has neither limit at zero. -/

namespace StreamOperator

open Json

structure Budget where
  maxRecords : UInt64
  maxDuration : Duration
deriving DecidableEq

namespace Budget

/-- Ten thousand records and ten seconds. -/
def standard : Budget := ⟨10000, .ofMillis 10000⟩

instance : Inhabited Budget := ⟨standard⟩

def validate (b : Budget) : Except ConfigError Unit :=
  if b.maxRecords = 0 then .error (.invalidBudget .records)
  else if b.maxDuration.isZero then .error (.invalidBudget .duration)
  else .ok ()

def create (maxRecords : UInt64) (maxDuration : Duration) : Except ConfigError Budget :=
  let b : Budget := ⟨maxRecords, maxDuration⟩
  b.validate.map fun _ => b

def isExhausted (b : Budget) (records : UInt64) (elapsed : Duration) : Bool :=
  b.maxRecords ≤ records || b.maxDuration ≤ elapsed

def toDocument (b : Budget) : Document :=
  .record [("max_records", encode b.maxRecords),
    ("max_duration_ms", encode b.maxDuration.millisWord)]

/-- A limit that is not given takes its standard value. -/
def ofDocument? (d : Document) : Option Budget := do
  match ← d.fields? ["max_records", "max_duration_ms"] with
  | [records, millis] =>
    let maxRecords ← records.elim (some standard.maxRecords) decode?
    let maxDuration ← millis.elim (some standard.maxDuration) fun d =>
      (decode? d).map Duration.ofMillis
    some { maxRecords, maxDuration }
  | _ => none

theorem validate_eq_ok_iff {b : Budget} :
    b.validate = .ok () ↔ b.maxRecords ≠ 0 ∧ b.maxDuration.nanos ≠ 0 := by
  unfold validate Duration.isZero
  split <;> simp_all

end Budget

instance : Encode Budget := ⟨Budget.toDocument⟩

instance : Decode Budget := ⟨Budget.ofDocument?⟩

end StreamOperator
