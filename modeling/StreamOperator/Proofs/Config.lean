import StreamOperator.Config.Basic
import StreamOperator.Proofs.Json.Faithful

/-! Configurations written and read back. The text of a configuration gives the longest duration of
its budget in whole milliseconds, as many as a word holds. All else is read back as it was, and what
is read is checked again. -/

namespace StreamOperator

open Json

def Duration.wholeMillis (d : Duration) : Duration := ofMillis d.millisWord

namespace Duration

theorem wholeMillis_ofMillis (n : UInt64) : (ofMillis n).wholeMillis = ofMillis n := by
  have hn := n.toNat_lt
  simp [wholeMillis, millisWord, Nat.min_eq_left (show n.toNat ≤ 18446744073709551615 by omega)]

theorem wholeMillis_eq_self_iff {d : Duration} : d.wholeMillis = d ↔ ∃ n, d = ofMillis n := by
  constructor
  · intro h
    exact ⟨d.millisWord, h.symm⟩
  · rintro ⟨n, rfl⟩
    exact wholeMillis_ofMillis n

theorem nanos_wholeMillis (d : Duration) :
    d.wholeMillis.nanos = min (d.nanos / 1000000) 18446744073709551615 * 1000000 := by
  have hword : (UInt64.ofNat (min d.millis 18446744073709551615)).toNat =
      min d.millis 18446744073709551615 := by
    rw [UInt64.toNat_ofNat']
    omega
  rw [wholeMillis, nanos_ofMillis, millisWord, hword, millis]

end Duration

def Budget.written (b : Budget) : Budget := { b with maxDuration := b.maxDuration.wholeMillis }

namespace Budget

theorem written_encode (b : Budget) : (encode b).Written :=
  .object (by simp [Faithful.written])

theorem decode?_encode (b : Budget) : decode? (encode b) = some b.written := by
  have hfields : (encode b).fields? ["max_records", "max_duration_ms"] =
      some [some (encode b.maxRecords), some (encode b.maxDuration.millisWord)] :=
    Document.fields?_record (show ["max_records", "max_duration_ms"].Nodup by decide)
  change ofDocument? (encode b) = _
  rw [ofDocument?, hfields]
  simp [Faithful.decode?_encode, written, Duration.wholeMillis]

end Budget

namespace Config

/-- What a text keeps of a configuration. -/
def written (c : Config) : Config := { c with splittable := c.splittable.written }

theorem written_encode (c : Config) : (encode c).Written :=
  .object (by simp [Faithful.written, Budget.written_encode])

theorem decode?_encode (c : Config) : decode? (encode c) = some c.written := by
  have hfields : (encode c).fields?
      ["operator_id", "max_side_outputs", "splittable", "trace_elements"] =
      some [some (encode c.operatorId), some (encode c.maxSideOutputs),
        some (encode c.splittable), some (encode c.traceElements)] :=
    Document.fields?_record
      (show ["operator_id", "max_side_outputs", "splittable", "trace_elements"].Nodup by decide)
  change ofDocument? (encode c) = _
  rw [ofDocument?, hfields]
  simp [Faithful.decode?_encode, Budget.decode?_encode, written]

theorem ofText_toText (c : Config) :
    ofText c.toText = c.written.validate.map fun _ => c.written := by
  have hread : (decodeText? c.toText : Option Config) = some c.written := by
    rw [decodeText?, toText, encodeText, Document.ofText?_toText c.written_encode,
      Option.bind_some, decode?_encode]
  rw [ofText, hread]

theorem written_eq_self_iff {c : Config} :
    c.written = c ↔ ∃ n, c.splittable.maxDuration = .ofMillis n := by
  rw [← Duration.wholeMillis_eq_self_iff]
  constructor
  · intro h
    exact congrArg (fun c => c.splittable.maxDuration) h
  · intro h
    rw [written, Budget.written, h]

theorem validate_written {c : Config} (h : c.validate = .ok ())
    (hmilli : .ofMillis 1 ≤ c.splittable.maxDuration) : c.written.validate = .ok () := by
  have hrecords := (Budget.validate_eq_ok_iff.1 h).1
  have hnanos : 1000000 ≤ c.splittable.maxDuration.nanos := by
    simpa [Duration.le_def] using hmilli
  apply Budget.validate_eq_ok_iff.2
  refine ⟨hrecords, ?_⟩
  rw [written, Budget.written, Duration.nanos_wholeMillis]
  omega

/-- The text of a valid configuration whose budget lasts a millisecond or more is read back, with the
duration in whole milliseconds up to the greatest word of them. So what is read is the configuration
itself just where the duration is such a number of milliseconds. -/
theorem ofText_toText_of_valid {c : Config} (h : c.validate = .ok ())
    (hmilli : .ofMillis 1 ≤ c.splittable.maxDuration) :
    ∃ read, ofText c.toText = .ok read ∧
      read.operatorId = c.operatorId ∧ read.maxSideOutputs = c.maxSideOutputs ∧
      read.splittable.maxRecords = c.splittable.maxRecords ∧
      read.traceElements = c.traceElements ∧
      read.splittable.maxDuration.nanos =
        min (c.splittable.maxDuration.nanos / 1000000) 18446744073709551615 * 1000000 ∧
      (read = c ↔ ∃ n, c.splittable.maxDuration = .ofMillis n) := by
  refine ⟨c.written, ?_, rfl, rfl, rfl, rfl, Duration.nanos_wholeMillis _, written_eq_self_iff⟩
  rw [ofText_toText, validate_written h hmilli]
  rfl

def withMicros (micros : Nat) : Config :=
  { named "op" with splittable := ⟨5, .ofNanos (micros * 1000)⟩ }

theorem withMicros_1500_read :
    (withMicros 1500).validate = .ok () ∧
      .ofMillis 1 ≤ (withMicros 1500).splittable.maxDuration ∧
      ∃ read, ofText (withMicros 1500).toText = .ok read ∧ read.operatorId = "op" ∧
        read.splittable.maxDuration = .ofMillis 1 ∧ read ≠ withMicros 1500 := by
  have hvalid : (withMicros 1500).validate = .ok () := by decide
  have hmilli : .ofMillis 1 ≤ (withMicros 1500).splittable.maxDuration := by decide
  obtain ⟨read, hread, hid, -, -, -, hnanos, -⟩ := ofText_toText_of_valid hvalid hmilli
  have hone : read.splittable.maxDuration = .ofMillis 1 := Duration.ext (hnanos.trans (by decide))
  refine ⟨hvalid, hmilli, read, hread, hid, hone, ?_⟩
  rintro rfl
  revert hone
  decide

/-- Not every valid configuration is read back as it was. A duration is cut to whole milliseconds,
and to the greatest word of them; where nothing is left of it, the budget is refused. -/
theorem valid_not_read_back :
    ((withMicros 1500).validate = .ok () ∧
      ofText (withMicros 1500).toText = .ok (withMicros 1000)) ∧
    ((withMicros 18446744073709551616000).validate = .ok () ∧
      ofText (withMicros 18446744073709551616000).toText =
        .ok (withMicros 18446744073709551615000)) ∧
    ((withMicros 500).validate = .ok () ∧
      (withMicros 500).toText = "\x7b\"operator_id\":\"op\",\"max_side_outputs\":5," ++
        "\"splittable\":\x7b\"max_records\":5,\"max_duration_ms\":0\x7d," ++
        "\"trace_elements\":false\x7d" ∧
      ofText (withMicros 500).toText = .error (.invalidBudget .duration)) ∧
    ¬ ∀ c : Config, c.validate = .ok () → ofText c.toText = .ok c := by
  have hcut : ofText (withMicros 1500).toText = .ok (withMicros 1000) := by
    rw [ofText_toText]
    decide
  refine ⟨⟨by decide, hcut⟩, ⟨by decide, ?_⟩, ⟨by decide, by cbv, ?_⟩, fun h => ?_⟩
  · rw [ofText_toText]
    decide
  · rw [ofText_toText]
    decide
  · have hsame := h (withMicros 1500) (by decide)
    rw [hcut] at hsame
    revert hsame
    decide

end Config

end StreamOperator
