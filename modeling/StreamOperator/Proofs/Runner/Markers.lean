import StreamOperator.Proofs.Runner.Sound

/-! The watermarks that calls emit. A call emits at most one, after its data; it lies above all
those before it and at or below everything that still waits, and the output watermark is always
the last one. -/

namespace StreamOperator.Runner

open PushbackBuffer

variable {μ ι ο ρ σ : Type} {o : Operator μ ι ο} {r r' : Runner μ ι ο ρ σ}

def markers (answers : List (Except ExecutionError (CallResult ι ο))) : List Instant :=
  answers.flatMap fun
    | .ok result => result.outputs.watermarks
    | .error _ => []

/-- What the result of a call says of the watermarks before it and after it. -/
structure Told (r : Runner μ ι ο ρ σ) (result : CallResult ι ο) (r' : Runner μ ι ο ρ σ) :
    Prop where
  main : ∃ data : List (Element ο),
    result.outputs.main = data.map .data ++ result.outputWatermark.toList.map .watermark
  hold : IsHold r'.pushback.elements result.hold
  rises : ∀ t, result.outputWatermark = some t → r.watermark.output < t ∧
    r'.watermark.output = t ∧ ∀ e ∈ r'.pushback.elements, t ≤ e.timestamp
  stays : result.outputWatermark = none → r'.watermark.output = r.watermark.output

theorem Sound.isHold (hr : Sound o r) : IsHold r.pushback.elements r.pushback.minTimestamp := by
  rw [hr.buffered]
  exact isHold_leastTimestamp _

theorem Sound.raised (hr : Sound o r) {input t : Instant}
    (h : ({ r.watermark with input }.raise r.pushback.minTimestamp).1 = some t) :
    r.watermark.output < t ∧
      ({ r.watermark with input }.raise r.pushback.minTimestamp).2.output = t ∧
      ∀ e ∈ r.pushback.elements, t ≤ e.timestamp := by
  obtain ⟨hlt, ht⟩ := WatermarkTracker.raise_eq_some_iff.1 h
  refine ⟨ht ▸ hlt, WatermarkTracker.output_of_raise_some h, ?_⟩
  intro e he
  rw [ht]
  -- Without views nothing waits; with them the candidate is at or below the least timestamp.
  by_cases hviews : o.views = []
  · rw [(hr.unheld hviews).1] at he
    cases he
  · refine le_trans (WatermarkTracker.candidate_le_hold ?_) (hr.isHold.le e he)
    show r.watermark.hasSideInputs = true
    rw [hr.sides, List.isEmpty_eq_false_iff.2 hviews]
    rfl

theorem told_of_no_marker {result : CallResult ι ο} (hr' : Sound o r')
    (hwatermark : r'.watermark = r.watermark) (hnone : result.outputWatermark = none)
    (hmain : ∃ data : List (Element ο), result.outputs.main = data.map .data)
    (hhold : result.hold = r'.pushback.minTimestamp) : Told r result r' where
  main := by
    obtain ⟨data, hdata⟩ := hmain
    exact ⟨data, by rw [hnone, hdata]; simp⟩
  hold := by
    rw [hhold]
    exact hr'.isHold
  rises t ht := by
    rw [hnone] at ht
    cases ht
  stays _ := by rw [hwatermark]

theorem told_releaseWatermark {result : CallResult ι ο} (hr' : Sound o r')
    (hwatermark : r'.watermark = r.watermark)
    (hmain : ∃ data : List (Element ο), result.outputs.main = data.map .data) :
    Told r (r'.releaseWatermark result).1 (r'.releaseWatermark result).2 where
  main := by
    obtain ⟨data, hdata⟩ := hmain
    refine ⟨data, ?_⟩
    simp only [releaseWatermark, ← hdata]
    exact Outputs.main_pushWatermark? result.outputs _
  hold := hr'.isHold
  rises t ht := by
    rw [← hwatermark]
    exact hr'.raised ht
  stays ht := by
    rw [← hwatermark]
    exact (WatermarkTracker.output_of_raise_none ht).1

theorem Told.watermarks {result : CallResult ι ο} (h : Told r result r') :
    result.outputs.watermarks = result.outputWatermark.toList := by
  obtain ⟨data, hdata⟩ := h.main
  cases hm : result.outputWatermark <;>
    simp [Outputs.watermarks, hdata, hm, StreamMessage.watermark?, List.filterMap_map,
      Function.comp_def]

variable [SideInputReader ρ] [StateStore σ]

theorem told_of_succeeded {c : Call ι} {result : CallResult ι ο} {events : List (Event ι ο)}
    (hr : Sound o r) (h : Succeeded r c result events r') : Told r result r' := by
  have hr' := hr.succeeded h
  cases h with
  | bracket => exact told_of_no_marker hr' rfl rfl ⟨[], rfl⟩ rfl
  | @bundle elements s events result r' committed eq =>
    have hwatermark : r'.watermark = r.watermark := by rw [committed.frame]
    subst eq
    exact told_of_no_marker hr' hwatermark rfl ⟨_, rfl⟩ rfl
  | ignored => exact told_of_no_marker hr' rfl rfl ⟨[], rfl⟩ rfl
  | arrived => exact told_releaseWatermark (hr.materialize _ _) rfl ⟨[], rfl⟩
  | @replayed index view value s events r' result declared committed outputs =>
    have hsound := (hr.materialize view value).committed committed [] (by simp)
    have hwatermark : r'.watermark = r.watermark := by
      rw [committed.frame]
      rfl
    exact told_releaseWatermark hsound hwatermark ⟨_, by rw [outputs]; rfl⟩
  | @passed time s events result r' passed =>
    obtain ⟨hle, hw⟩ := WatermarkTracker.advance_eq_ok passed.advance
    have hmarker := congrArg Prod.fst hw
    have hwatermark := congrArg Prod.snd hw
    have hpushback : r'.pushback = r.pushback := by rw [passed.frame]
    dsimp only at hmarker hwatermark
    refine ⟨⟨Outputs.onChannel .main s.outputs, ?_⟩, ?_, ?_, ?_⟩
    · rw [passed.result]
      exact Outputs.main_pushWatermark? _ _
    · rw [passed.result, hpushback]
      exact hr.isHold
    · intro t ht
      rw [hmarker] at ht
      rw [hwatermark, hpushback]
      exact hr.raised ht
    · intro ht
      rw [hmarker] at ht
      rw [hwatermark]
      exact (WatermarkTracker.output_of_raise_none ht).1

theorem Sound.told {c : Call ι} {result : CallResult ι ο} (hr : Sound o r)
    (h : r.call c = (.ok result, r')) : Told r result r' :=
  told_of_succeeded hr (call_ok hr.scheduled h)

theorem markers_concat (answers : List (Except ExecutionError (CallResult ι ο)))
    (answer : Except ExecutionError (CallResult ι ο)) :
    markers (answers ++ [answer]) = markers answers ++ markers [answer] :=
  List.flatMap_append

structure Rising (emitted : List Instant) (output : Instant) : Prop where
  pairwise : emitted.Pairwise (· < ·)
  le : ∀ t ∈ emitted, t ≤ output
  last : output = emitted.getLastD .negInf

theorem Rising.concat {emitted : List Instant} {output t : Instant} (h : Rising emitted output)
    (ht : output < t) : Rising (emitted ++ [t]) t where
  pairwise := by
    rw [List.pairwise_append]
    refine ⟨h.pairwise, List.pairwise_singleton _ _, ?_⟩
    intro u hu v hv
    rw [List.mem_singleton.1 hv]
    exact lt_of_le_of_lt (h.le u hu) ht
  le u hu := by
    rcases List.mem_append.1 hu with hu | hu
    · exact le_of_lt (lt_of_le_of_lt (h.le u hu) ht)
    · exact le_of_eq (List.mem_singleton.1 hu)
  last := by simp

theorem rising_calls (hr : Sound o r) (hout : r.watermark.output = .negInf) (cs : List (Call ι)) :
    Rising (markers (r.calls cs).1) (r.calls cs).2.watermark.output := by
  induction cs using List.reverseRecOn with
  | nil =>
    refine ⟨List.Pairwise.nil, ?_, hout⟩
    intro t ht
    cases ht
  | append_singleton cs c ih =>
    have hr' := hr.calls cs
    rw [calls_concat, markers_concat]
    rcases hc : (r.calls cs).2.call c with ⟨e | result, r'⟩
    · rw [(hr'.kept_of_call_error hc).2.2.1]
      simpa [markers] using ih
    · have htold := hr'.told hc
      have hmarkers : markers [(.ok result : Except ExecutionError (CallResult ι ο))] =
          result.outputWatermark.toList := by simp [markers, htold.watermarks]
      rw [hmarkers]
      cases hm : result.outputWatermark with
      | none =>
        rw [htold.stays hm]
        simpa using ih
      | some t =>
        obtain ⟨hlt, hout', -⟩ := htold.rises t hm
        rw [hout']
        exact ih.concat hlt

/-- Whatever calls are made, and however they end: the emitted watermarks rise strictly, the output
watermark is the last of them and not beyond the input watermark, and without views the two agree.
The main channel of a result is data with at most one watermark after it, the hold of a result is
the least timestamp that waits, and no watermark passes what waits. -/
theorem watermarks_of_calls {reader : ρ} {store : Option σ} {memory : μ}
    (h : o.runner reader store memory = .ok r) (cs : List (Call ι)) :
    (markers (r.calls cs).1).Pairwise (· < ·) ∧
      (r.calls cs).2.outputWatermark = (markers (r.calls cs).1).getLastD .negInf ∧
      (r.calls cs).2.outputWatermark ≤ (r.calls cs).2.inputWatermark ∧
      (o.views = [] → (r.calls cs).2.outputWatermark = (r.calls cs).2.inputWatermark) ∧
      ∀ c result r', (r.calls cs).2.call c = (.ok result, r') →
        (∃ (data : List (Element ο)) (t? : Option Instant),
          result.outputs.main = data.map .data ++ t?.toList.map .watermark) ∧
        IsHold r'.pushback.elements result.hold ∧
        ∀ t ∈ result.outputs.watermarks, ∀ e ∈ r'.pushback.elements, t ≤ e.timestamp := by
  have hstart : r.watermark.output = .negInf := by
    rw [(fresh_eq h).2.2.1]
    rfl
  have hr := (sound_fresh h).calls cs
  have hrising := rising_calls (sound_fresh h) hstart cs
  refine ⟨hrising.pairwise, hrising.last, hr.output_le, fun hviews => (hr.unheld hviews).2, ?_⟩
  intro c result r' hc
  have htold := hr.told hc
  obtain ⟨data, hdata⟩ := htold.main
  refine ⟨⟨data, result.outputWatermark, hdata⟩, htold.hold, ?_⟩
  intro t ht
  rw [htold.watermarks, Option.mem_toList] at ht
  exact (htold.rises t ht).2.2

def echoCalls : List (Call Nat) :=
  [.bundle [.inGlobalWindow 1 ⟨10⟩], .watermark ⟨100⟩, .watermark ⟨50⟩,
    .sideInput 0 (.data (.inGlobalWindow (.integer 7) ⟨0⟩))]

theorem watermarks_of_echo :
    markers (echoStart.calls echoCalls).1 = [⟨10⟩, ⟨100⟩] ∧
      (markers (echoStart.calls echoCalls).1).Pairwise (· < ·) ∧
      (echoStart.calls echoCalls).2.outputWatermark = ⟨100⟩ := by
  have hmarkers : markers (echoStart.calls echoCalls).1 = [⟨10⟩, ⟨100⟩] := by decide +kernel
  have hfresh : echo.runner SideInputs.empty none () = .ok echoStart := by rfl
  obtain ⟨hrise, hlast, -⟩ := watermarks_of_calls hfresh echoCalls
  refine ⟨hmarkers, hrise, ?_⟩
  rw [hlast, hmarkers]
  rfl

end StreamOperator.Runner
