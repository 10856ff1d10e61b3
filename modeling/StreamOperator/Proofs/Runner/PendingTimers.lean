import StreamOperator.Proofs.Runner.Markers

/-! Timers that a watermark leaves behind. A pass fires every timer up to the watermark it passes
on, so what is left to fire behind an emitted watermark was set after the last pass. A pass never
emits such a watermark itself; the arrival of a side-input value does, when it releases the output
watermark past a timer that was set behind the input watermark meanwhile. -/

namespace StreamOperator.Runner

variable {μ ι ο ρ σ : Type} {o : Operator μ ι ο} {r r' : Runner μ ι ο ρ σ}

/-- The schedule follows by some operations from one that held nothing up to the input
watermark. -/
def Since (r : Runner μ ι ο ρ σ) (ops : List TimerOp) : Prop :=
  ∃ base : Schedule, base.Later r.inputWatermark ∧
    ∀ key slot, r.schedule.timer? key slot =
      ops.foldl (fun t op => op.leave key slot t) (base.timer? key slot)

theorem Since.applyOps {ops : List TimerOp} (h : Since r ops) (staged : List TimerOp)
    (hschedule : r.schedule.applyOps staged = .ok r'.schedule)
    (hinput : r'.inputWatermark = r.inputWatermark) : Since r' (ops ++ staged) := by
  obtain ⟨base, hlater, htimer⟩ := h
  refine ⟨base, hinput ▸ hlater, ?_⟩
  intro key slot
  rw [Schedule.timer?_applyOps hschedule, htimer, List.foldl_append]

theorem Since.timer?_eq_some_iff {ops : List TimerOp} (h : Since r ops) {key : EncodedKey}
    {slot : TimerSlot} {t : Timer} (ht : t.target ≤ r.inputWatermark) :
    r.schedule.timer? key slot = some t ↔
      TimerOp.lastOn? ops key slot = some (.set key t) ∧ t.slot = slot := by
  obtain ⟨base, hlater, htimer⟩ := h
  rw [htimer, TimerOp.foldl_leave_eq_some_iff]
  refine or_iff_right ?_
  rintro ⟨-, hbase⟩
  exact absurd (hlater key slot t hbase) (not_lt.2 ht)

variable [SideInputReader ρ] [StateStore σ]

def nextTimerOps (r : Runner μ ι ο ρ σ) (ops : List TimerOp) (c : Call ι) : List TimerOp :=
  match c, (r.call c).1 with
  | .watermark _, .ok _ => []
  | _, .ok _ => ops ++ Event.timerOps (r.events c)
  | _, .error _ => ops

/-- The timer operations that took effect since the last pass of a run, those of `ops` first if
there was none. -/
def timerOpsSincePass (r : Runner μ ι ο ρ σ) (ops : List TimerOp) : List (Call ι) → List TimerOp
  | [] => ops
  | c :: cs => (r.call c).2.timerOpsSincePass (r.nextTimerOps ops c) cs

theorem Since.of_error {ops : List TimerOp} {c : Call ι} {e : ExecutionError} (hr : Sound o r)
    (h : Since r ops) (hc : r.call c = (.error e, r')) : Since r' (r.nextTimerOps ops c) := by
  have hops : r.nextTimerOps ops c = ops := by
    unfold nextTimerOps
    rw [hc]
    cases c <;> rfl
  obtain ⟨-, -, hwatermark, hschedule⟩ := hr.kept_of_call_error hc
  rw [hops, Since, hschedule, inputWatermark, hwatermark]
  exact h

theorem Since.of_ok {ops : List TimerOp} {c : Call ι} {result : CallResult ι ο} (hr : Sound o r)
    (h : Since r ops) (hc : r.call c = (.ok result, r')) : Since r' (r.nextTimerOps ops c) := by
  have hevents := call_ok hr.scheduled hc
  unfold nextTimerOps
  rw [hc]
  generalize r.events c = events at hevents ⊢
  cases hevents with
  | bracket kind _ timerOps =>
    rw [timerOps]
    rcases kind with rfl | rfl <;> exact h.applyOps [] rfl rfl
  | bundle committed =>
    rw [committed.timerOps]
    refine h.applyOps _ committed.schedule ?_
    rw [committed.frame]
    rfl
  | ignored => exact h.applyOps [] rfl rfl
  | arrived => exact h.applyOps [] rfl (WatermarkTracker.input_raise _ _)
  | replayed declared committed =>
    rw [committed.timerOps]
    refine h.applyOps _ committed.schedule ((WatermarkTracker.input_raise _ _).trans ?_)
    rw [committed.frame]
    rfl
  | passed passed =>
    obtain ⟨-, hw⟩ := WatermarkTracker.advance_eq_ok passed.advance
    have hwatermark := congrArg Prod.snd hw
    refine ⟨r'.schedule, ?_, fun key slot => rfl⟩
    have hinput : r'.inputWatermark = _ := congrArg WatermarkTracker.input hwatermark
    rw [hinput, WatermarkTracker.input_raise]
    exact passed.later

theorem Since.call {ops : List TimerOp} (hr : Sound o r) (h : Since r ops) (c : Call ι) :
    Since (r.call c).2 (r.nextTimerOps ops c) := by
  rcases hc : r.call c with ⟨e | result, r'⟩
  · exact h.of_error hr hc
  · exact h.of_ok hr hc

theorem Since.calls {ops : List TimerOp} (hr : Sound o r) (h : Since r ops) (cs : List (Call ι)) :
    Since (r.calls cs).2 (r.timerOpsSincePass ops cs) := by
  induction cs generalizing r ops with
  | nil => exact h
  | cons c cs ih => exact ih (hr.call c) (h.call hr c)

theorem timerOpsSincePass_concat (r : Runner μ ι ο ρ σ) (ops : List TimerOp) (cs : List (Call ι))
    (c : Call ι) :
    r.timerOpsSincePass ops (cs ++ [c]) =
      (r.calls cs).2.nextTimerOps (r.timerOpsSincePass ops cs) c := by
  induction cs generalizing r ops with
  | nil => rfl
  | cons d cs ih => exact ih (r.call d).2 (r.nextTimerOps ops d)

theorem emits_of_call_ok {c : Call ι} {result : CallResult ι ο} (hr : Sound o r)
    (h : r.call c = (.ok result, r')) {w : Instant} (hw : w ∈ result.outputs.watermarks) :
    (∃ time, c = .watermark time) ∨ ∃ index value, c = .sideInput index (.data value) := by
  have hevents := call_ok hr.scheduled h
  rw [(hr.told h).watermarks, Option.mem_toList] at hw
  generalize r.events c = events at hevents
  cases hevents with
  | bracket => cases hw
  | bundle _ eq =>
    rw [eq] at hw
    cases hw
  | ignored => cases hw
  | arrived => exact Or.inr ⟨_, _, rfl⟩
  | replayed => exact Or.inr ⟨_, _, rfl⟩
  | passed => exact Or.inl ⟨_, rfl⟩

/-- A call that emits a watermark leaves a timer behind it exactly when the call is the arrival of a
side-input value, and since the last pass the last thing done to the slot of the timer was to set
it below the watermark. -/
theorem outrun_timer_iff {reader : ρ} {store : Option σ} {memory : μ}
    (h : o.runner reader store memory = .ok r) (cs : List (Call ι)) {c : Call ι}
    {result : CallResult ι ο} (hc : (r.calls cs).2.call c = (.ok result, r')) {w : Instant}
    (hw : w ∈ result.outputs.watermarks) :
    (∃ key slot t, r'.schedule.timer? key slot = some t ∧ t.target < w) ↔
      (∃ index value, c = .sideInput index (.data value)) ∧
        ∃ key t, TimerOp.lastOn? (r.timerOpsSincePass [] (cs ++ [c])) key t.slot =
          some (.set key t) ∧ t.target < w := by
  have hr := (sound_fresh h).calls cs
  have hr' := hr.succeeded (call_ok hr.scheduled hc)
  have hstart : Since r [] := by
    refine ⟨.empty, ?_, ?_⟩
    · intro key slot t ht
      simp at ht
    · intro key slot
      rw [(fresh_eq h).2.2.2]
      rfl
  have hsince : Since r' (r.timerOpsSincePass [] (cs ++ [c])) := by
    rw [timerOpsSincePass_concat]
    exact (hstart.calls (sound_fresh h) cs).of_ok hr hc
  -- The watermark is not beyond the input one, below which the schedule is known.
  have hle : w ≤ r'.inputWatermark := by
    rw [(hr.told hc).watermarks, Option.mem_toList] at hw
    rw [← ((hr.told hc).rises w hw).2.1]
    exact hr'.output_le
  have hlast : (∃ key slot t, r'.schedule.timer? key slot = some t ∧ t.target < w) ↔
      ∃ key t, TimerOp.lastOn? (r.timerOpsSincePass [] (cs ++ [c])) key t.slot =
        some (.set key t) ∧ t.target < w := by
    constructor
    · rintro ⟨key, slot, t, ht, hlt⟩
      obtain ⟨hset, rfl⟩ := (hsince.timer?_eq_some_iff (le_of_lt (lt_of_lt_of_le hlt hle))).1 ht
      exact ⟨key, t, hset, hlt⟩
    · rintro ⟨key, t, hset, hlt⟩
      refine ⟨key, t.slot, t, ?_, hlt⟩
      exact (hsince.timer?_eq_some_iff (le_of_lt (lt_of_lt_of_le hlt hle))).2 ⟨hset, rfl⟩
  rw [hlast]
  refine ⟨fun hset => ⟨?_, hset⟩, fun hset => hset.2⟩
  rcases emits_of_call_ok hr hc hw with ⟨time, rfl⟩ | hside
  · obtain ⟨key, t, hset, -⟩ := hset
    rw [timerOpsSincePass_concat] at hset
    unfold nextTimerOps at hset
    rw [hc] at hset
    cases hset
  · exact hside

def alarm : Operator Unit Nat Nat where
  function := {
    processElement := fun _ m =>
      .ask (.setTimer (.eventTime .global "alarm" ⟨50⟩)) fun _ => .done (.success m) }
  views := [⟨"side", .sameWindow⟩]
  encodeKey := some fun _ => .ok ⟨[7]⟩

def alarmStart : Runner Unit Nat Nat SideInputs Cells where
  operator := alarm
  outputs := ⟨"main", []⟩
  reader := .empty
  pushback := .empty
  watermark := .start true
  schedule := .empty
  store := none
  lifecycle := .created
  memory := ()

def alarmCalls : List (Call Nat) := [.bundle [.inGlobalWindow 1 ⟨10⟩], .watermark ⟨100⟩]

def alarmValue : Call Nat := .sideInput 0 (.data (.inGlobalWindow (.integer 7) ⟨0⟩))

/-- Each timer of the run is set at or above the output watermark of the time. -/
def setsAhead (r : Runner μ ι ο ρ σ) : List (Call ι) → Bool
  | [] => true
  | c :: cs => (Event.timerOps (r.events c)).all (fun
      | .set _ t => r.outputWatermark ≤ t.target
      | .delete _ _ => true) && (r.call c).2.setsAhead cs

theorem alarm_call : ∃ result, (alarmStart.calls alarmCalls).2.call alarmValue =
      (.ok result, (alarmStart.calls (alarmCalls ++ [alarmValue])).2) ∧
    ⟨100⟩ ∈ result.outputs.watermarks := by
  have hmarker : ((alarmStart.calls alarmCalls).2.call alarmValue).1.toOption.map
      (·.outputs.watermarks) = some [⟨100⟩] := by decide +kernel
  rw [calls_concat]
  rcases hc : (alarmStart.calls alarmCalls).2.call alarmValue with ⟨e | result, r'⟩ <;>
    rw [hc] at hmarker
  · cases hmarker
  · refine ⟨result, rfl, ?_⟩
    have hlist : result.outputs.watermarks = [⟨100⟩] := Option.some.inj hmarker
    rw [hlist]
    exact List.mem_singleton_self _

/-- The element sets a timer between the output and the input watermark, and the call that lets it
do so then emits the input watermark over it. -/
theorem alarm_outrun :
    alarmStart.setsAhead (alarmCalls ++ [alarmValue]) = true ∧
      ∃ result r', (alarmStart.calls alarmCalls).2.call alarmValue = (.ok result, r') ∧
        ⟨100⟩ ∈ result.outputs.watermarks ∧
        r'.schedule.timer? ⟨[7]⟩ ⟨.global, "alarm"⟩ = some (.eventTime .global "alarm" ⟨50⟩) := by
  obtain ⟨result, hc, hmarker⟩ := alarm_call
  refine ⟨by decide +kernel, result, _, hc, hmarker, by decide +kernel⟩

theorem alarm_set_since_pass :
    TimerOp.lastOn? (alarmStart.timerOpsSincePass [] (alarmCalls ++ [alarmValue])) ⟨[7]⟩
        ⟨.global, "alarm"⟩ = some (.set ⟨[7]⟩ (.eventTime .global "alarm" ⟨50⟩)) ∧
      ∃ key slot t, (alarmStart.calls (alarmCalls ++ [alarmValue])).2.schedule.timer? key slot =
        some t ∧ t.target < ⟨100⟩ := by
  have hfresh : alarm.runner SideInputs.empty none () = .ok alarmStart := by rfl
  have hset : TimerOp.lastOn? (alarmStart.timerOpsSincePass [] (alarmCalls ++ [alarmValue])) ⟨[7]⟩
      ⟨.global, "alarm"⟩ = some (.set ⟨[7]⟩ (.eventTime .global "alarm" ⟨50⟩)) := by
    decide +kernel
  obtain ⟨result, hc, hmarker⟩ := alarm_call
  refine ⟨hset, (outrun_timer_iff hfresh alarmCalls hc hmarker).2 ⟨⟨0, _, rfl⟩, ?_⟩⟩
  exact ⟨⟨[7]⟩, .eventTime .global "alarm" ⟨50⟩, hset, by decide⟩

end StreamOperator.Runner
