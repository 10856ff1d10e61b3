import StreamOperator.Proofs.Time.Instant
import StreamOperator.Watermark.Tracker

/-! The output watermark under its two moves. It goes up to the candidate or stays, so it stays at
or below the input watermark, and what is reported is a rise. -/

namespace StreamOperator.WatermarkTracker

variable {w : WatermarkTracker} {hold t : Instant}

theorem candidate_le_input (w : WatermarkTracker) (hold : Instant) : w.candidate hold ≤ w.input := by
  unfold candidate
  split
  · exact min_le_right _ _
  · exact le_refl _

theorem candidate_le_hold (h : w.hasSideInputs = true) : w.candidate hold ≤ hold := by
  rw [candidate, if_pos h]
  exact min_le_left _ _

theorem candidate_of_no_side_inputs (h : w.hasSideInputs = false) : w.candidate hold = w.input := by
  rw [candidate, h]
  rfl

theorem output_of_raise_some (h : (w.raise hold).1 = some t) : (w.raise hold).2.output = t := by
  unfold raise at h ⊢
  dsimp only at h ⊢
  split at h
  next hlt =>
    rw [if_pos hlt]
    exact Option.some.inj h
  · cases h

theorem output_of_raise_none (h : (w.raise hold).1 = none) :
    (w.raise hold).2.output = w.output ∧ w.candidate hold ≤ w.output := by
  unfold raise at h ⊢
  dsimp only at h ⊢
  split at h
  · cases h
  next hlt =>
    rw [if_neg hlt]
    exact ⟨rfl, not_lt.1 hlt⟩

theorem output_raise_le (h : w.output ≤ w.input) : (w.raise hold).2.output ≤ w.input := by
  cases hr : (w.raise hold).1 with
  | none =>
    rw [(output_of_raise_none hr).1]
    exact h
  | some t =>
    rw [output_of_raise_some hr, (raise_eq_some_iff.1 hr).2]
    exact w.candidate_le_input hold

theorem output_raise_of_no_side_inputs (hside : w.hasSideInputs = false) (h : w.output ≤ w.input) :
    (w.raise hold).2.output = w.input := by
  have hcandidate : w.candidate hold = w.input := candidate_of_no_side_inputs hside
  cases hr : (w.raise hold).1 with
  | none =>
    obtain ⟨hout, hle⟩ := output_of_raise_none hr
    rw [hout]
    exact le_antisymm h (hcandidate ▸ hle)
  | some t =>
    rw [output_of_raise_some hr, (raise_eq_some_iff.1 hr).2]
    exact hcandidate

theorem advance_eq_ok {input : Instant} {x : Option Instant × WatermarkTracker}
    (h : w.advance input hold = .ok x) : w.input ≤ input ∧ x = { w with input }.raise hold := by
  unfold advance at h
  split at h
  · cases h
  next hlt =>
    cases h
    exact ⟨not_lt.1 hlt, rfl⟩

theorem candidate_mono (w : WatermarkTracker) (hold : Instant) {i j : Instant} (h : i ≤ j) :
    { w with input := i }.candidate hold ≤ { w with input := j }.candidate hold := by
  unfold candidate
  dsimp only
  split
  · exact le_min (min_le_left _ _) (le_trans (min_le_right _ _) h)
  · exact h

theorem raise_snd (w : WatermarkTracker) (hold : Instant) :
    (w.raise hold).2 = { w with output := max w.output (w.candidate hold) } := by
  unfold raise
  dsimp only
  split
  next hlt => rw [max_eq_right (le_of_lt hlt)]
  next hlt => rw [max_eq_left (not_lt.1 hlt)]

theorem raise_raise_of_le (w : WatermarkTracker) (hold : Instant) {i j : Instant} (h : i ≤ j) :
    ({ ({ w with input := i }.raise hold).2 with input := j }.raise hold).2 =
      ({ w with input := j }.raise hold).2 := by
  have houtput : max (max w.output ({ w with input := i }.candidate hold))
        ({ w with input := j }.candidate hold) =
      max w.output ({ w with input := j }.candidate hold) := by
    rw [max_assoc, max_eq_right (w.candidate_mono hold h)]
  rw [raise_snd, raise_snd, raise_snd]
  exact congrArg (fun output => (⟨j, output, w.hasSideInputs⟩ : WatermarkTracker)) houtput

end StreamOperator.WatermarkTracker
