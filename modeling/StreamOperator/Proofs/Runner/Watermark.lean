import StreamOperator.Proofs.Runner.Bundle

/-! What the passage of a watermark does to a runner. A pass that fails leaves the runner unmoved.
One that succeeds is told by `Passed`; it leaves no timer up to the watermark. -/

namespace StreamOperator

def Outputs.pushWatermark? {β : Type} (o : Outputs β) : Option Instant → Outputs β
  | some t => o.pushWatermark t
  | none => o

theorem Outputs.main_pushWatermark? {β : Type} (o : Outputs β) (t? : Option Instant) :
    (o.pushWatermark? t?).main = o.main ++ t?.toList.map .watermark := by
  cases t? <;> simp [pushWatermark?, pushWatermark]

namespace Runner

variable {μ ι ο ρ σ : Type}

theorem ends_applyStaged (schedule : Schedule) (s : Staging ι ο) (memory : μ) :
    (applyStaged schedule s).Ends memory
      (fun x memory' => memory' = memory ∧ schedule.applyOps s.timerOps = .ok x.1 ∧
        x.2 = { s with timerOps := [] })
      fun memory' => memory' = memory := by
  unfold applyStaged
  cases h : schedule.applyOps s.timerOps with
  | error e => exact .throw rfl
  | ok schedule' => exact .pure ⟨rfl, rfl, rfl⟩

variable [SideInputReader ρ] [StateStore σ]

theorem endsWith_fireRounds (r : Runner μ ι ο ρ σ) (input : Instant)
    {inv : Staging ι ο → μ → Prop} {failed : ExecutionError → μ → Prop}
    (hfire : ∀ schedule fired s memory, inv s memory →
      (r.fireTimer input schedule s fired).EndsWith memory inv failed)
    (htimers : ∀ s ops count memory, inv s memory →
      inv { s with timerOps := ops, firedTimers := count } memory)
    (hfailed : ∀ s memory e, inv s memory → failed e memory) (fuel : Nat)
    (due : List FiredTimer) (schedule : Schedule) {s : Staging ι ο} {memory : μ} (h : inv s memory) :
    (r.fireRounds input fuel due schedule s).EndsWith memory (fun x => inv x.2) failed := by
  have hstaged (schedule : Schedule) (s : Staging ι ο) (memory : μ) (h : inv s memory) :
      (applyStaged schedule s).EndsWith memory (fun x => inv x.2) failed := by
    unfold applyStaged
    cases schedule.applyOps s.timerOps with
    | error e => exact .throw (hfailed s memory _ h)
    | ok schedule' => exact .pure (htimers s [] s.firedTimers memory h)
  have hround (due : List FiredTimer) (schedule : Schedule) (s : Staging ι ο) (memory : μ)
      (h : inv s memory) :
      (r.fireRound input due schedule s).EndsWith memory (fun x => inv x.2) failed := by
    refine .bind (.foldlM (fun _ => inv) ?_ h) fun s memory h => ?_
    · intro _ fired _ s memory _ h
      exact hfire schedule fired s memory h
    · exact hstaged schedule _ memory (htimers s s.timerOps _ memory h)
  induction fuel, due, schedule, s using fireRounds.induct generalizing memory with
  | case1 fuel due schedule s ih =>
    rw [fireRounds]
    refine .bind (hround due schedule s memory h) ?_
    rintro ⟨m, s'⟩ memory h
    dsimp only at h ⊢
    rcases m.popDue input with ⟨_ | ⟨fired, due⟩, rest⟩ <;> dsimp only
    · exact .pure h
    · cases fuel with
      | zero => exact .throw (hfailed s' memory _ h)
      | succ fuel => exact ih s' (fired :: due) rest h

theorem ends_fireRound (r : Runner μ ι ο ρ σ) (log₀ : List (Event ι ο)) (input : Instant)
    (due : List FiredTimer) (schedule : Schedule) {s : Staging ι ο} (hs : s.timerOps = [])
    (memory : μ) (log : List (Event ι ο)) :
    ((r.recorded log₀).fireRound input due schedule s).Ends (memory, log)
      (fun x memory' => ∃ round, round.map Firing.fired = due ∧
        schedule.applyOps (round.flatMap Firing.ops) = .ok x.1 ∧
        Event.OnlyFires log round memory'.2 ∧
        x.2.timerOps = [] ∧ x.2.firedTimers = s.firedTimers + round.length)
      fun memory' => ∃ round, round.map Firing.fired <+: due ∧
        Event.OnlyFires log round memory'.2 := by
  refine .bind (.foldlM (fun done s' memory' => ∃ round, round.map Firing.fired = done ∧
    s'.timerOps = round.flatMap Firing.ops ∧ s'.firedTimers = s.firedTimers ∧
    Event.OnlyFires log round memory'.2) ?_ ⟨[], rfl, hs, rfl, .refl log⟩) ?_
  · rintro done fired rest s' ⟨memory, log'⟩ hdue ⟨round, rfl, hops, hcount, hlog⟩
    refine (Context.ends_callback_timer rfl fired.timer _ _ s' memory log').mono ?_ ?_
    · rintro s'' memory' ⟨ops, hops', hcount', hfires⟩
      refine ⟨round ++ [⟨fired, ops⟩], by simp, ?_, hcount'.trans hcount, hlog.trans hfires⟩
      rw [hops', hops, List.flatMap_append, List.flatMap_singleton]
    · rintro memory' ⟨ops, hfires⟩
      exact ⟨round ++ [⟨fired, ops⟩], ⟨rest, by simp [hdue]⟩, hlog.trans hfires⟩
  · rintro s' ⟨memory, log'⟩ ⟨round, hdue, hops, hcount, hlog⟩
    refine (ends_applyStaged _ _ _).mono ?_ ?_
    · rintro ⟨schedule', s''⟩ _ ⟨rfl, happlied, rfl⟩
      refine ⟨round, hdue, hops ▸ happlied, hlog, rfl, ?_⟩
      rw [← hdue, List.length_map, hcount]
    · rintro _ rfl
      exact ⟨round, hdue ▸ List.prefix_refl _, hlog⟩

theorem ends_fireRounds (r : Runner μ ι ο ρ σ) (log₀ : List (Event ι ο)) (input : Instant)
    (fuel : Nat) {s₀ schedule : Schedule} {due : List FiredTimer}
    (hdue : s₀.popDue input = (due, schedule)) {s : Staging ι ο} (hs : s.timerOps = []) (memory : μ)
    (log : List (Event ι ο)) :
    ((r.recorded log₀).fireRounds input fuel due schedule s).Ends (memory, log)
      (fun x memory' => ∃ rounds, Settles input s₀ rounds x.1 ∧
        Event.OnlyFires log rounds.flatten memory'.2 ∧
        x.2.timerOps = [] ∧ x.2.firedTimers = s.firedTimers + rounds.flatten.length ∧
        rounds.length ≤ fuel + 1)
      fun memory' => ∃ rounds, Fires input s₀ rounds ∧
        Event.OnlyFires log rounds.flatten memory'.2 ∧ rounds.length ≤ fuel + 1 := by
  induction fuel, due, schedule, s using fireRounds.induct generalizing s₀ memory log with
  | case1 fuel due schedule s ih =>
    rw [fireRounds]
    have hdue₁ : due = (s₀.popDue input).1 := by rw [hdue]
    have hschedule : schedule = (s₀.popDue input).2 := by rw [hdue]
    subst hdue₁ hschedule
    refine .bind ((r.ends_fireRound log₀ input _ _ hs memory log).failing ?_) ?_
    · rintro memory' ⟨round, hround, hlog⟩
      exact ⟨[round], .cut hround, by simpa using hlog, Nat.le_add_left _ _⟩
    · rintro ⟨m, s'⟩ ⟨memory, log'⟩ ⟨round, hround, hstaged, hlog, hops, hcount⟩
      dsimp only at hstaged hlog hops hcount ⊢
      -- After the round nothing is due, or there is no round left, or the next one follows.
      rcases hnext : m.popDue input with ⟨_ | ⟨fired, due⟩, rest⟩ <;> dsimp only
      · have hsettles : Settles input s₀ [round] rest :=
          .cons hround hstaged ⟨m, .nil m, hnext⟩
        exact .pure ⟨[round], hsettles, by simpa using hlog, hops, by simpa using hcount,
          Nat.le_add_left _ _⟩
      · cases fuel with
        | zero =>
          exact .throw ⟨[round], .cons hround hstaged (.stop m), by simpa using hlog,
            Nat.le_refl _⟩
        | succ fuel =>
          refine (ih s' (fired :: due) rest hnext hops memory log').mono ?_ ?_
          · rintro x memory' ⟨rounds, hsettles, hlog', hops', hcount', hlength⟩
            refine ⟨round :: rounds, .cons hround hstaged hsettles, hlog.trans hlog', hops', ?_,
              Nat.succ_le_succ hlength⟩
            rw [hcount', hcount, List.flatten_cons, List.length_append, Nat.add_assoc]
          · rintro memory' ⟨rounds, hfires, hlog', hlength⟩
            exact ⟨round :: rounds, .cons hround hstaged hfires, hlog.trans hlog',
              Nat.succ_le_succ hlength⟩

theorem ends_passSession (r : Runner μ ι ο ρ σ) (log₀ : List (Event ι ο)) (input : Instant)
    {s₀ schedule : Schedule} {due : List FiredTimer} (hdue : s₀.popDue input = (due, schedule))
    (memory : μ) (log : List (Event ι ο)) :
    ((r.recorded log₀).passSession input due schedule).Ends (memory, log)
      (fun x memory' => ∃ rounds, Settles input s₀ rounds x.1 ∧
        Event.OnlyFires log rounds.flatten memory'.2 ∧
        x.2.timerOps = [] ∧ x.2.firedTimers = rounds.flatten.length ∧
        rounds.length ≤ r.operator.refireLimit + 1)
      fun memory' => ∃ rounds, Fires input s₀ rounds ∧
        Event.OnlyFires log rounds.flatten memory'.2 ∧
        rounds.length ≤ r.operator.refireLimit + 1 := by
  refine .bind ((Context.ends_callback_bracket rfl (Or.inl rfl) _ _ .empty memory log).failing
    fun _ hlog => ⟨[], .stop s₀, hlog, Nat.zero_le _⟩) ?_
  rintro s ⟨memory, log₁⟩ ⟨hops, hcount, hlog⟩
  refine .bind ((r.ends_fireRounds log₀ input _ hdue hops memory log₁).failing ?_) ?_
  · rintro memory' ⟨rounds, hfires, hlog', hlength⟩
    exact ⟨rounds, hfires, hlog.trans hlog', hlength⟩
  rintro ⟨schedule', s'⟩ ⟨memory, log₂⟩ ⟨rounds, hsettles, hlog', hops', hcount', hlength⟩
  dsimp only at hsettles hlog' hops' hcount' ⊢
  have hrounds (log₃ : List (Event ι ο)) (h : Event.OnlyFires log₂ [] log₃) :
      Event.OnlyFires log rounds.flatten log₃ := by
    have hall := hlog.trans (hlog'.trans h)
    rw [List.nil_append, List.append_nil] at hall
    exact hall
  refine .bind ((Context.ends_callback_bracket rfl (Or.inr rfl) _ _ s' memory log₂).failing
    fun _ hlog'' => ⟨rounds, hsettles.fires, hrounds _ hlog'', hlength⟩) ?_
  rintro s'' ⟨memory, log₃⟩ ⟨hops'', hcount'', hlog''⟩
  refine (ends_applyStaged _ _ _).mono ?_ ?_
  · rintro ⟨schedule'', s₃⟩ _ ⟨rfl, happlied, rfl⟩
    rw [hops'', hops', Schedule.applyOps_nil] at happlied
    cases happlied
    refine ⟨rounds, hsettles, hrounds _ hlog'', rfl, ?_, hlength⟩
    rw [hcount'', hcount', hcount]
    exact Nat.zero_add _
  · rintro _ rfl
    exact ⟨rounds, hsettles.fires, hrounds _ hlog'', hlength⟩

theorem firePass_frame (r : Runner μ ι ο ρ σ) (input : Instant) :
    (r.firePass input).2 = { r with memory := (r.firePass input).2.memory } := by
  unfold firePass
  split <;> rfl

theorem firePass_recorded (r : Runner μ ι ο ρ σ) (log : List (Event ι ο)) (input : Instant) :
    ∃ rounds, Fires input r.schedule rounds ∧
      Event.OnlyFires log rounds.flatten ((r.recorded log).firePass input).2.memory.2 ∧
      rounds.length ≤ r.operator.refireLimit + 1 := by
  have hschedule : (r.recorded log).schedule = r.schedule := rfl
  unfold firePass
  rw [hschedule]
  rcases hdue : r.schedule.popDue input with ⟨_ | ⟨fired, due⟩, rest⟩
  · exact ⟨[], .stop _, .refl log, Nat.zero_le _⟩
  · refine ((r.ends_passSession log input hdue r.memory log).mono ?_ fun _ h => h).always
    rintro x memory ⟨rounds, hsettles, hlog, -, -, hlength⟩
    exact ⟨rounds, hsettles.fires, hlog, hlength⟩

theorem firePass_recorded_ok {r : Runner μ ι ο ρ σ} {r' : Runner (μ × List (Event ι ο)) ι ο ρ σ}
    {log : List (Event ι ο)} {input : Instant} {schedule : Schedule} {s : Staging ι ο}
    (h : (r.recorded log).firePass input = (.ok (schedule, s), r')) :
    ∃ rounds, Settles input r.schedule rounds schedule ∧
      Event.OnlyFires log rounds.flatten r'.memory.2 ∧
      s.timerOps = [] ∧ s.firedTimers = rounds.flatten.length := by
  have hschedule : (r.recorded log).schedule = r.schedule := rfl
  unfold firePass at h
  rw [hschedule] at h
  rcases hdue : r.schedule.popDue input with ⟨_ | ⟨fired, due⟩, rest⟩ <;> rw [hdue] at h
  · cases h
    exact ⟨[], ⟨_, .nil _, hdue⟩, .refl log, rfl, rfl⟩
  · have hresult := congrArg Prod.fst h
    have hmemory := congrArg (fun x => x.2.memory) h
    obtain ⟨rounds, hsettles, hlog, hops, hcount, -⟩ :=
      (r.ends_passSession log input hdue r.memory log).gives _ _ (Prod.ext hresult hmemory)
    exact ⟨rounds, hsettles, hlog, hops, hcount⟩

theorem steps_of_processWatermark_ok {r r' : Runner μ ι ο ρ σ} {time : Instant}
    {result : CallResult ι ο} (h : r.processWatermark time = (.ok result, r')) :
    ∃ schedule s r₁ r₂, r.setup.2.firePass time = (.ok (schedule, s), r₁) ∧
      r₁.commit s = (.ok (), r₂) ∧
      r.watermark.advance time r.pushback.minTimestamp =
        .ok (result.outputWatermark, r'.watermark) ∧
      r' = { r₂ with watermark := r'.watermark, schedule } ∧
      result = {
        outputs := (Outputs.ofEmissions r.outputs s.outputs).pushWatermark? result.outputWatermark
        residuals := s.residuals
        pushedBack := 0
        hold := r.pushback.minTimestamp
        outputWatermark := result.outputWatermark
        firedTimers := s.firedTimers } := by
  have hsetup := r.setup_frame
  unfold processWatermark at h
  rcases hs : r.setup with ⟨_ | _, r₀⟩ <;> rw [hs] at h hsetup <;> dsimp only at h hsetup
  · cases h
  have hadvance : r₀.watermark.advance time r₀.pushback.minTimestamp =
      r.watermark.advance time r.pushback.minTimestamp := by rw [hsetup]
  rcases ha : r.watermark.advance time r.pushback.minTimestamp with e | ⟨outputWatermark, watermark⟩ <;>
    simp only [hadvance, ha] at h
  · cases h
  have hframe := r₀.firePass_frame time
  rcases hf : r₀.firePass time with ⟨e | ⟨schedule, s⟩, r₁⟩ <;> rw [hf] at h hframe <;>
    dsimp only at h hframe
  · cases h
  rcases hc : r₁.commit s with ⟨e | _, r₂⟩ <;> rw [hc] at h <;> cases h
  obtain ⟨-, -, hcommit⟩ := commit_ok hc
  have hp : r₂.pushback = r.pushback := by rw [hcommit, hframe, hsetup]
  have ho : r₂.outputs = r.outputs := by rw [hcommit, hframe, hsetup]
  refine ⟨schedule, s, r₁, r₂, rfl, hc, rfl, rfl, ?_⟩
  simp only [hp, ho]
  cases outputWatermark <;> rfl

theorem frame_of_processWatermark_ok {r r' : Runner μ ι ο ρ σ} {time : Instant}
    {result : CallResult ι ο} (h : r.processWatermark time = (.ok result, r')) :
    r' = { r with
      memory := r'.memory, lifecycle := r'.lifecycle, store := r'.store, schedule := r'.schedule,
      watermark := r'.watermark } := by
  obtain ⟨schedule, s, r₁, r₂, hfire, hcommit, -, hr', -⟩ := steps_of_processWatermark_ok h
  have hframe := r.setup.2.firePass_frame time
  rw [hfire] at hframe
  dsimp only at hframe
  obtain ⟨-, -, hcommit⟩ := commit_ok hcommit
  rw [hr', hcommit, hframe, setup_frame]

structure Passed (r : Runner μ ι ο ρ σ) (time : Instant) (s : Staging ι ο)
    (events : List (Event ι ο)) (result : CallResult ι ο) (r' : Runner μ ι ο ρ σ) : Prop where
  frame : r' = { r with
    memory := r'.memory, lifecycle := r'.lifecycle, store := r'.store, schedule := r'.schedule,
    watermark := r'.watermark }
  advance : r.watermark.advance time r.pushback.minTimestamp =
    .ok (result.outputWatermark, r'.watermark)
  store : applyWrites r.store s.writes = (.ok (), r'.store)
  consistent : r'.schedule.Consistent
  later : r'.schedule.Later time
  handed : Event.handed events = []
  result : result = {
    outputs := (Outputs.ofEmissions r.outputs s.outputs).pushWatermark? result.outputWatermark
    residuals := s.residuals
    pushedBack := 0
    hold := r.pushback.minTimestamp
    outputWatermark := result.outputWatermark
    firedTimers := s.firedTimers }

theorem lifecycle_processWatermark (r : Runner μ ι ο ρ σ) (time : Instant) :
    (r.processWatermark time).2.lifecycle = r.setup.2.lifecycle := by
  unfold processWatermark
  rcases r.setup with ⟨_ | _, r₀⟩ <;> dsimp only
  rcases r₀.watermark.advance time r₀.pushback.minTimestamp with e | ⟨raised, watermark⟩ <;>
    dsimp only
  have hframe := r₀.firePass_frame time
  rcases hf : r₀.firePass time with ⟨e | ⟨schedule, s⟩, r₁⟩ <;> rw [hf] at hframe <;>
    dsimp only at hframe ⊢
  · rw [hframe]
  rcases hc : r₁.commit s with ⟨e | _, r₂⟩ <;> dsimp only
  · rw [(commit_error hc).1, hframe]
  · rw [(commit_ok hc).2.2, hframe]

theorem memory_processWatermark (r : Runner μ ι ο ρ σ) (time : Instant) :
    (r.processWatermark time).2.memory =
      match r.setup.1 with
      | .ok _ =>
        if time < r.watermark.input then r.setup.2.memory
        else (r.setup.2.firePass time).2.memory
      | .error _ => r.setup.2.memory := by
  have hwatermark := r.watermark_setup
  unfold processWatermark
  rcases hs : r.setup with ⟨_ | _, r₀⟩
  · rfl
  rw [hs] at hwatermark
  dsimp only at hwatermark ⊢
  rw [hwatermark, WatermarkTracker.advance]
  by_cases hbehind : time < r.watermark.input
  · rw [if_pos hbehind, if_pos hbehind]
  rw [if_neg hbehind, if_neg hbehind]
  dsimp only
  rcases r₀.firePass time with ⟨e | ⟨schedule, s⟩, r₁⟩ <;> dsimp only
  have hcommit := r₁.memory_commit s
  rcases hc : r₁.commit s with ⟨e | _, r₂⟩ <;> rw [hc] at hcommit <;> exact hcommit

theorem exists_rounds_length_le (r : Runner μ ι ο ρ σ) (time : Instant) :
    ∃ rounds, Fires time r.schedule rounds ∧
      Event.OnlyFires [] rounds.flatten (r.events (.watermark time)) ∧
      rounds.length ≤ r.operator.refireLimit + 1 := by
  obtain ⟨log, hsetup, hlog⟩ := r.setup_recorded
  obtain ⟨rounds, hfires, hrounds, hlength⟩ := r.setup.2.firePass_recorded log time
  rw [schedule_setup] at hfires
  rw [operator_setup] at hlength
  have hmemory : r.events (.watermark time) =
      ((r.recorded []).processWatermark time).2.memory.2 := rfl
  rw [hmemory, memory_processWatermark, hsetup]
  cases r.setup.1 with
  | error e => exact ⟨[], .stop _, hlog, Nat.zero_le _⟩
  | ok _ =>
    dsimp only
    split
    · exact ⟨[], .stop _, hlog, Nat.zero_le _⟩
    · exact ⟨rounds, hfires, hlog.trans hrounds, hlength⟩

theorem rounds_of_processWatermark (r : Runner μ ι ο ρ σ) (time : Instant) :
    ∃ rounds, Fires time r.schedule rounds ∧
      Event.OnlyFires [] rounds.flatten (r.events (.watermark time)) := by
  obtain ⟨rounds, hfires, hrecord, -⟩ := r.exists_rounds_length_le time
  exact ⟨rounds, hfires, hrecord⟩

theorem rounds_of_processWatermark_ok {r r' : Runner μ ι ο ρ σ} {time : Instant}
    {result : CallResult ι ο} (h : r.processWatermark time = (.ok result, r')) :
    ∃ rounds, Settles time r.schedule rounds r'.schedule ∧
      Event.OnlyFires [] rounds.flatten (r.events (.watermark time)) ∧
      result.firedTimers = rounds.flatten.length := by
  have hrecorded : (r.recorded []).processWatermark time =
      (.ok result, r'.recorded ([] ++ r.events (.watermark time))) := by
    have hcall := r.call_recorded [] (.watermark time)
    change _ = ((r.processWatermark time).1, (r.processWatermark time).2.recorded _) at hcall
    rw [h] at hcall
    exact hcall
  obtain ⟨log, hsetup, hlog⟩ := r.setup_recorded
  obtain ⟨schedule, s, r₁, r₂, hfire, hcommit, -, hr', hresult⟩ :=
    steps_of_processWatermark_ok hrecorded
  rw [hsetup] at hfire
  obtain ⟨rounds, hsettles, hrounds, -, hcount⟩ := firePass_recorded_ok hfire
  have hschedule' : r'.schedule = schedule := congrArg Runner.schedule hr'
  have hevents : r.events (.watermark time) = r₁.memory.2 := by
    have hmemory := congrArg (fun r => r.memory.2) hr'
    rw [(commit_ok hcommit).2.2] at hmemory
    exact hmemory
  refine ⟨rounds, ?_, ?_, ?_⟩
  · rw [hschedule', ← schedule_setup]
    exact hsettles
  · rw [hevents]
    exact hlog.trans hrounds
  · rw [hresult]
    exact hcount

theorem processWatermark_ok {r r' : Runner μ ι ο ρ σ} {time : Instant} {result : CallResult ι ο}
    (hs : r.schedule.Consistent) (h : r.processWatermark time = (.ok result, r')) :
    ∃ s, Passed r time s (r.events (.watermark time)) result r' := by
  obtain ⟨rounds, hsettles, hrounds, -⟩ := rounds_of_processWatermark_ok h
  obtain ⟨schedule, s, r₁, r₂, hfire, hcommit, hadvance, hr', hresult⟩ :=
    steps_of_processWatermark_ok h
  have hstore : r₁.store = r.store := by
    have hframe := r.setup.2.firePass_frame time
    rw [hfire] at hframe
    dsimp only at hframe
    rw [hframe, setup_frame]
  have hstore' : r'.store = r₂.store := by rw [hr']
  obtain ⟨-, hwrites, -⟩ := commit_ok hcommit
  rw [hstore, ← hstore'] at hwrites
  exact ⟨s, frame_of_processWatermark_ok h, hadvance, hwrites, hsettles.consistent hs,
    hsettles.later hs, hrounds.handed, hresult⟩

theorem processWatermark_error {r r' : Runner μ ι ο ρ σ} {time : Instant} {e : ExecutionError}
    (h : r.processWatermark time = (.error e, r')) : Unmoved r r' := by
  have hstore := r.store_setup
  have hmoved := r.unmoved_setup
  unfold processWatermark at h
  rcases hs : r.setup with ⟨_ | _, r₀⟩ <;> rw [hs] at h hstore <;> simp only [hs] at hmoved <;> dsimp only at h hstore
  · cases h
    exact hmoved r'.memory (Or.inl hstore)
  rcases ha : r₀.watermark.advance time r₀.pushback.minTimestamp with e' | ⟨outputWatermark, watermark⟩ <;>
    simp only [ha] at h
  · cases h
    exact hmoved r'.memory (Or.inl hstore)
  have hframe := r₀.firePass_frame time
  rcases hf : r₀.firePass time with ⟨e' | ⟨schedule, s⟩, r₁⟩ <;> rw [hf] at h hframe <;>
    dsimp only at h hframe
  · cases h
    rw [hframe]
    exact hmoved _ (Or.inl hstore)
  rcases hc : r₁.commit s with ⟨e' | _, r₂⟩ <;> rw [hc] at h <;> cases h
  obtain ⟨hcommit, hstore'⟩ := commit_error hc
  have hstore₁ : r₁.store = r.store := by rw [hframe, ← hstore]
  rw [hstore₁] at hstore'
  rw [hcommit, hframe]
  exact hmoved _ hstore'

end Runner

end StreamOperator
