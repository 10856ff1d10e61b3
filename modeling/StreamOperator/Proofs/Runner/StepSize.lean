import StreamOperator.Proofs.Runner.Boundaries
import StreamOperator.Proofs.Runner.Watermark
import StreamOperator.Proofs.Watermark.Tracker

/-! The size of the steps of a watermark, over cells in memory, for a function that does nothing at
the start and the end of a bundle and whose timers ask nothing about timers and the watermark. A
pass of such a function is one round over what is due, and what is due by a later time is what is
due by an earlier one and then what is due by the later one. -/

namespace StreamOperator

variable {μ ι ο α ρ σ : Type}

/-- Whether the reply to a request is the same whatever the time, and no timer is touched. -/
def Request.Timeless : Request ι ο → Prop
  | setTimer _ => False
  | deleteTimer _ => False
  | timerState _ => False
  | inputWatermark => False
  | _ => True

def Event.Timeless : Event ι ο → Prop
  | asked q _ => q.Timeless
  | _ => True

namespace Context

variable [SideInputReader ρ] [StateStore σ]

theorem answer_of_timeless {q : Request ι ο} (h : q.Timeless) (c : Context ρ σ) (s : Staging ι ο)
    (schedule : Schedule) (inputWatermark : Instant) :
    c.answer s q = { c with schedule, inputWatermark }.answer s q := by
  cases q <;> first | rfl | cases h

theorem timerOps_answer_of_timeless {q : Request ι ο} (h : q.Timeless) (c : Context ρ σ)
    (s : Staging ι ο) : (c.answer s q).2.timerOps = s.timerOps := by
  have hnone (reply : q.Reply) : q.timerOp? c.key reply = none := by
    cases q <;> first | rfl | cases h
  rw [timerOps_answer, hnone, Option.toList_none, List.append_nil]

theorem run_of_timeless {c : Context ρ σ} {s : Staging ι ο} {x : Interaction ι ο α}
    (h : ∀ e ∈ c.events s x, e.Timeless) (schedule : Schedule) (inputWatermark : Instant) :
    c.run s x = { c with schedule, inputWatermark }.run s x ∧
      (c.run s x).2.timerOps = s.timerOps := by
  induction x generalizing s with
  | done a => exact ⟨rfl, rfl⟩
  | ask q next ih =>
    obtain ⟨hq, hrest⟩ := List.forall_mem_cons.1 h
    obtain ⟨hrun, hops⟩ := ih _ hrest
    refine ⟨?_, hops.trans (timerOps_answer_of_timeless hq c s)⟩
    rw [run, run, ← answer_of_timeless hq c s schedule inputWatermark]
    exact hrun

theorem callback_of_timeless {c : Context ρ σ} {s : Staging ι ο} {body : Callback μ ι ο}
    (h : ∀ memory, ∀ e ∈ c.events s (body memory), e.Timeless) (stage : Stage)
    (schedule : Schedule) (inputWatermark : Instant) :
    c.callback stage body s = { c with schedule, inputWatermark }.callback stage body s := by
  funext memory
  show (settle stage (c.run s (body memory)).1.result (c.run s (body memory)).2,
    (c.run s (body memory)).1.memory) = _
  rw [(run_of_timeless (h memory) schedule inputWatermark).1]
  rfl

end Context

/-- In no surroundings do the timers of the function ask about timers or the watermark. -/
def UserFunction.TimelessTimers (ρ σ : Type) [SideInputReader ρ] [StateStore σ]
    (f : UserFunction μ ι ο) : Prop :=
  ∀ (c : Context ρ σ) (s : Staging ι ο) (t : Timer) (memory : μ),
    ∀ e ∈ c.events s (f.onTimer t memory), e.Timeless

structure Staging.Still (s : Staging ι ο) : Prop where
  failure : s.failure = none
  timerOps : s.timerOps = []
  firedTimers : s.firedTimers = 0

theorem Staging.still_empty : (empty : Staging ι ο).Still := ⟨rfl, rfl, rfl⟩

theorem Context.ends_callback_still [SideInputReader ρ] [StateStore σ] {c : Context ρ σ}
    {s : Staging ι ο} (hs : s.Still) {body : Callback μ ι ο} {memory : μ}
    (h : ∀ e ∈ c.events s (body memory), e.Timeless) (stage : Stage) :
    (c.callback stage body s).Ends memory (fun s' _ => s'.Still) fun _ => True := by
  refine (c.ends_callback stage body s memory).mono ?_ fun _ h => h
  rintro _ _ ⟨rfl, hfailure⟩
  refine ⟨hfailure, ?_, ?_⟩
  · rw [(run_of_timeless h c.schedule c.inputWatermark).2]
    exact hs.timerOps
  · rw [firedTimers_run]
    exact hs.firedTimers

structure CallResult.Joins (whole first second : CallResult ι ο) : Prop where
  mainData : whole.outputs.mainData = first.outputs.mainData ++ second.outputs.mainData
  side : whole.outputs.side =
    List.zipWith (fun x y => (x.1, x.2 ++ y.2)) first.outputs.side second.outputs.side
  tags : first.outputs.side.map Prod.fst = second.outputs.side.map Prod.fst
  residuals : whole.residuals = first.residuals ++ second.residuals
  firedTimers : whole.firedTimers = first.firedTimers + second.firedTimers

theorem Outputs.mainData_pushWatermark? {β : Type} (o : Outputs β) (t? : Option Instant) :
    (o.pushWatermark? t?).mainData = o.mainData := by
  cases t? with
  | none => rfl
  | some t => exact o.mainData_pushWatermark t

theorem Outputs.side_pushWatermark? {β : Type} (o : Outputs β) (t? : Option Instant) :
    (o.pushWatermark? t?).side = o.side := by
  cases t? <;> rfl

namespace Runner

theorem commit_of_timerOps_nil {r : Runner μ ι ο ρ Cells} {s : Staging ι ο}
    (h : s.timerOps = []) :
    r.commit s = (.ok (), { r with store := r.store.map (·.writeAll s.writes.toList) }) := by
  unfold commit
  rw [h, Schedule.applyOps_nil, applyWrites_cells]

def passResult (r : Runner μ ι ο ρ Cells) (time : Instant) (s : Staging ι ο) : CallResult ι ο :=
  let raised := ({ r.watermark with input := time }.raise r.pushback.minTimestamp).1
  { outputs := (Outputs.ofEmissions r.outputs s.outputs).pushWatermark? raised
    residuals := s.residuals
    pushedBack := 0
    hold := r.pushback.minTimestamp
    outputWatermark := raised
    firedTimers := (r.schedule.popDue time).1.length }

def afterPass (r : Runner μ ι ο ρ Cells) (time : Instant) (s : Staging ι ο) (memory : μ) :
    Runner μ ι ο ρ Cells :=
  { r with
    memory
    watermark := ({ r.watermark with input := time }.raise r.pushback.minTimestamp).2
    schedule := (r.schedule.popDue time).2
    store := r.store.map (·.writeAll s.writes.toList) }

theorem afterPass_afterPass (r : Runner μ ι ο ρ Cells) {w w' : Instant} (h : w ≤ w')
    (p s : Staging ι ο) (memory memory' : μ) :
    (r.afterPass w p memory).afterPass w' s memory' = r.afterPass w' (p ++ s) memory' := by
  have hwatermark := r.watermark.raise_raise_of_le r.pushback.minTimestamp h
  have hschedule := congrArg Prod.snd (r.schedule.popDue_of_le h)
  have hstore : (r.store.map (·.writeAll p.writes.toList)).map (·.writeAll s.writes.toList) =
      r.store.map (·.writeAll (p ++ s).writes.toList) := by
    rw [Option.map_map]
    apply Option.map_congr
    intro cells _
    exact (cells.writeAll_union p.writes s.writes).symm
  unfold afterPass
  dsimp only at hschedule ⊢
  rw [hwatermark, hschedule, hstore]

theorem input_afterPass (r : Runner μ ι ο ρ Cells) (time : Instant) (s : Staging ι ο)
    (memory : μ) : (r.afterPass time s memory).watermark.input = time :=
  WatermarkTracker.input_raise _ _

theorem passResult_joins (r : Runner μ ι ο ρ Cells) {w w' : Instant} (h : w ≤ w')
    (p s : Staging ι ο) (memory : μ) :
    (r.passResult w' (p ++ s)).Joins (r.passResult w p)
      ((r.afterPass w p memory).passResult w' s) where
  mainData := by
    unfold passResult
    dsimp only
    simp only [Outputs.mainData_pushWatermark?, Outputs.mainData_ofEmissions,
      Staging.outputs_append, Outputs.onChannel_append]
  side := by
    unfold passResult
    dsimp only
    simp only [Outputs.side_pushWatermark?, Staging.outputs_append, Outputs.ofEmissions_append]
    rfl
  tags := by
    unfold passResult
    dsimp only
    rw [Outputs.side_pushWatermark?, Outputs.side_pushWatermark?, Outputs.map_fst_side_ofEmissions,
      Outputs.map_fst_side_ofEmissions]
    rfl
  residuals := rfl
  firedTimers := by
    show (r.schedule.popDue w').1.length = _
    rw [r.schedule.popDue_of_le h]
    exact List.length_append

variable [SideInputReader ρ]

section Calls

variable [StateStore σ] {r : Runner μ ι ο ρ σ} {s : Staging ι ο}

theorem fireTimer_eq (htimeless : r.operator.function.TimelessTimers ρ σ) (input : Instant)
    (schedule : Schedule) (s : Staging ι ο) (fired : FiredTimer) :
    r.fireTimer input schedule s fired = r.fireTimer r.inputWatermark r.schedule s fired :=
  Context.callback_of_timeless (fun memory => htimeless _ s fired.timer memory) _ _ _

def fireEach (r : Runner μ ι ο ρ σ) (due : List FiredTimer) : Session μ (Staging ι ο) :=
  due.foldlM (r.fireTimer r.inputWatermark r.schedule) .empty

theorem ends_fireEach_still (htimeless : r.operator.function.TimelessTimers ρ σ)
    (due : List FiredTimer) (memory : μ) :
    (r.fireEach due).Ends memory (fun s _ => s.Still) fun _ => True := by
  unfold fireEach
  refine .foldlM (fun _ (s : Staging ι ο) _ => s.Still) ?_ Staging.still_empty
  intro _ fired _ s memory _ hs
  exact Context.ends_callback_still hs (htimeless _ _ _ _) _

theorem applyStaged_of_timerOps_nil (schedule : Schedule) (h : s.timerOps = []) :
    applyStaged (μ := μ) schedule s = pure (schedule, s) := by
  have hs : { s with timerOps := [] } = s := by rw [← h]
  unfold applyStaged
  rw [h, Schedule.applyOps_nil, hs]

theorem run_passSession (hbare : r.operator.function.Unbracketed)
    (htimeless : r.operator.function.TimelessTimers ρ σ) {input : Instant} {schedule : Schedule}
    (hschedule : schedule.popDue input = ([], schedule)) (due : List FiredTimer) (memory : μ) :
    (r.passSession input due schedule).run memory =
      (((r.fireEach due).run memory).1.map fun s =>
          (schedule, { s with firedTimers := due.length }),
        ((r.fireEach due).run memory).2) := by
  have hend := ends_fireEach_still htimeless due memory
  have hcalls : due.foldlM (r.fireTimer input schedule) .empty = r.fireEach due := by
    unfold fireEach
    rw [funext fun s => funext (fireTimer_eq htimeless input schedule s)]
  unfold passSession fireRounds fireRound
  rw [hbare.startBundle, Context.callback_success rfl, pure_bind, hcalls, hbare.finishBundle]
  simp only [bind_assoc]
  rw [Session.run_bind]
  cases hrun : (r.fireEach due).run memory with
  | mk outcome memory' =>
    rw [Session.Ends, hrun] at hend
    cases outcome with
    | error e => rfl
    | ok s =>
      dsimp only [Except.map]
      rw [hend.firedTimers, Nat.zero_add]
      have hops : { s with firedTimers := due.length }.timerOps = [] := hend.timerOps
      have hfailure : { s with firedTimers := due.length }.failure = none := hend.failure
      generalize { s with firedTimers := due.length } = counted at hops hfailure ⊢
      simp only [applyStaged_of_timerOps_nil schedule hops, hschedule, pure_bind,
        Context.callback_success hfailure]
      rfl

theorem firePass_eq (hbare : r.operator.function.Unbracketed)
    (htimeless : r.operator.function.TimelessTimers ρ σ) (time : Instant) :
    r.firePass time =
      (((r.fireEach (r.schedule.popDue time).1).run r.memory).1.map fun s =>
          ((r.schedule.popDue time).2, { s with firedTimers := (r.schedule.popDue time).1.length }),
        { r with memory := ((r.fireEach (r.schedule.popDue time).1).run r.memory).2 }) := by
  have hschedule := r.schedule.popDue_popDue time
  unfold firePass
  cases hpop : r.schedule.popDue time with
  | mk due schedule =>
    rw [hpop] at hschedule
    cases due with
    | nil => rfl
    | cons fired due =>
      dsimp only
      rw [inSession, run_passSession hbare htimeless hschedule]

end Calls

variable {r r' : Runner μ ι ο ρ Cells} {time w w' : Instant} {result : CallResult ι ο}
  {p : Staging ι ο} {memory : μ}

theorem processWatermark_eq (hbare : r.operator.function.Unbracketed)
    (htimeless : r.operator.function.TimelessTimers ρ Cells) (hready : r.lifecycle ≠ .created)
    (htime : r.watermark.input ≤ time) :
    r.processWatermark time =
      match (r.fireEach (r.schedule.popDue time).1).run r.memory with
      | (.ok s, memory) => (.ok (r.passResult time s), r.afterPass time s memory)
      | (.error e, memory) => (.error e, { r with memory }) := by
  have hadvance : r.watermark.advance time r.pushback.minTimestamp =
      .ok ({ r.watermark with input := time }.raise r.pushback.minTimestamp) :=
    if_neg (not_lt.2 htime)
  have hend := ends_fireEach_still htimeless (r.schedule.popDue time).1 r.memory
  unfold processWatermark
  rw [setup_eq_of_ne_created hready]
  dsimp only
  rw [hadvance, firePass_eq hbare htimeless]
  cases hrun : (r.fireEach (r.schedule.popDue time).1).run r.memory with
  | mk outcome memory =>
    rw [Session.Ends, hrun] at hend
    cases outcome with
    | error e => rfl
    | ok s =>
      have hops : { s with firedTimers := (r.schedule.popDue time).1.length }.timerOps = [] :=
        hend.timerOps
      dsimp only [Except.map]
      rw [commit_of_timerOps_nil hops]
      unfold passResult afterPass
      cases ({ r.watermark with input := time }.raise r.pushback.minTimestamp).1 <;> rfl

theorem processWatermark_eq_ok_iff (hbare : r.operator.function.Unbracketed)
    (htimeless : r.operator.function.TimelessTimers ρ Cells) (hready : r.lifecycle ≠ .created)
    (htime : r.watermark.input ≤ time) :
    r.processWatermark time = (.ok result, r') ↔
      ∃ s memory, (r.fireEach (r.schedule.popDue time).1).run r.memory = (.ok s, memory) ∧
        result = r.passResult time s ∧ r' = r.afterPass time s memory := by
  rw [processWatermark_eq hbare htimeless hready htime]
  cases (r.fireEach (r.schedule.popDue time).1).run r.memory with
  | mk outcome memory =>
    cases outcome with
    | error e =>
      constructor
      · intro hcall
        cases hcall
      · rintro ⟨s, memory', hrun, -⟩
        cases hrun
    | ok s =>
      constructor
      · intro hcall
        cases hcall
        exact ⟨s, memory, rfl, rfl, rfl⟩
      · rintro ⟨s', memory', hrun, rfl, rfl⟩
        cases hrun
        rfl

theorem run_fireEach_append (htimeless : r.operator.function.TimelessTimers ρ Cells)
    {due due' : List FiredTimer} (hdue : (r.fireEach due).run r.memory = (.ok p, memory))
    (time : Instant) :
    (r.fireEach (due ++ due')).run r.memory =
      ((((r.afterPass time p memory).fireEach due').run memory).1.map (p ++ ·),
        (((r.afterPass time p memory).fireEach due').run memory).2) := by
  have hstill : p.Still := (ends_fireEach_still htimeless due r.memory).gives _ _ hdue
  -- No timer operation was staged, so the schedule of before has taken up what was.
  have happlied : p.Applied r.schedule r.store r.schedule
      (r.store.map (·.writeAll p.writes.toList)) :=
    p.applied_cells (by rw [hstill.timerOps, Schedule.applyOps_nil]) r.store
  have hcall (s : Staging ι ο) (fired : FiredTimer) :
      r.fireTimer r.inputWatermark r.schedule (p ++ s) fired = (p ++ ·) <$>
        (r.afterPass time p memory).fireTimer (r.afterPass time p memory).inputWatermark
          (r.afterPass time p memory).schedule s fired := by
    rw [← fireTimer_eq (r := r.afterPass time p memory) htimeless r.inputWatermark r.schedule]
    exact Context.callback_append hstill.failure (happlied.appliedFor _) _ _ s
  unfold fireEach at hdue ⊢
  rw [List.foldlM_append, Session.run_bind, hdue]
  dsimp only
  have hmap := Session.foldlM_map hcall due' .empty
  rw [Staging.append_empty] at hmap
  rw [hmap, Session.run_map]

theorem fireEach_append_eq_ok_iff (htimeless : r.operator.function.TimelessTimers ρ Cells)
    {due due' : List FiredTimer} {t : Staging ι ο} {memory' : μ} (time : Instant) :
    (r.fireEach (due ++ due')).run r.memory = (.ok t, memory') ↔
      ∃ p memory s, (r.fireEach due).run r.memory = (.ok p, memory) ∧
        ((r.afterPass time p memory).fireEach due').run memory = (.ok s, memory') ∧ t = p ++ s := by
  cases hdue : (r.fireEach due).run r.memory with
  | mk outcome memory =>
    cases outcome with
    | error e =>
      constructor
      · intro hrun
        unfold fireEach at hdue hrun
        rw [List.foldlM_append, Session.run_bind, hdue] at hrun
        cases hrun
      · rintro ⟨p, memory', s, hp, -⟩
        cases hp
    | ok p =>
      rw [run_fireEach_append htimeless hdue time]
      constructor
      · intro hrun
        cases hrest : ((r.afterPass time p memory).fireEach due').run memory with
        | mk outcome' memory'' =>
          rw [hrest] at hrun
          cases outcome' with
          | error e => cases hrun
          | ok s =>
            cases hrun
            exact ⟨p, memory, s, rfl, hrest, rfl⟩
      · rintro ⟨p', memory'', s, hp, hrest, rfl⟩
        cases hp
        rw [hrest]
        rfl

theorem exists_steps_of_ready (hbare : r.operator.function.Unbracketed)
    (htimeless : r.operator.function.TimelessTimers ρ Cells) (hready : r.lifecycle ≠ .created)
    (hw : r.watermark.input ≤ w) (hw' : w ≤ w') (h : r.processWatermark w' = (.ok result, r')) :
    ∃ first mid second, r.processWatermark w = (.ok first, mid) ∧
      mid.processWatermark w' = (.ok second, r') ∧ result.Joins first second := by
  obtain ⟨t, memory', hrun, rfl, rfl⟩ :=
    (processWatermark_eq_ok_iff hbare htimeless hready (le_trans hw hw')).1 h
  rw [r.schedule.popDue_of_le hw'] at hrun
  obtain ⟨p, memory, s, hp, hs, rfl⟩ := (fireEach_append_eq_ok_iff htimeless w).1 hrun
  have hinput : (r.afterPass w p memory).watermark.input ≤ w' :=
    (r.input_afterPass w p memory).symm ▸ hw'
  have hfirst := (processWatermark_eq_ok_iff hbare htimeless hready hw).2 ⟨p, memory, hp, rfl, rfl⟩
  have hsecond := (processWatermark_eq_ok_iff (r := r.afterPass w p memory) hbare htimeless
    hready hinput).2 ⟨s, memory', hs, rfl, rfl⟩
  rw [r.afterPass_afterPass hw'] at hsecond
  exact ⟨_, _, _, hfirst, hsecond, r.passResult_joins hw' p s memory⟩

theorem exists_whole_of_ready (hbare : r.operator.function.Unbracketed)
    (htimeless : r.operator.function.TimelessTimers ρ Cells) (hready : r.lifecycle ≠ .created)
    (hw : r.watermark.input ≤ w) (hw' : w ≤ w') {first second : CallResult ι ο}
    {mid : Runner μ ι ο ρ Cells} (hfirst : r.processWatermark w = (.ok first, mid))
    (hsecond : mid.processWatermark w' = (.ok second, r')) :
    ∃ whole, r.processWatermark w' = (.ok whole, r') := by
  obtain ⟨p, memory, hp, -, rfl⟩ :=
    (processWatermark_eq_ok_iff hbare htimeless hready hw).1 hfirst
  have hinput : (r.afterPass w p memory).watermark.input ≤ w' :=
    (r.input_afterPass w p memory).symm ▸ hw'
  obtain ⟨s, memory', hs, -, rfl⟩ := (processWatermark_eq_ok_iff (r := r.afterPass w p memory) hbare
    htimeless hready hinput).1 hsecond
  have hrun := (fireEach_append_eq_ok_iff htimeless w).2 ⟨p, memory, s, hp, hs, rfl⟩
  have hpop := congrArg Prod.fst (r.schedule.popDue_of_le hw')
  rw [r.afterPass_afterPass hw']
  exact ⟨_, (processWatermark_eq_ok_iff hbare htimeless hready (le_trans hw hw')).2
    ⟨p ++ s, memory', hpop.symm ▸ hrun, rfl, rfl⟩⟩

theorem processWatermark_of_setup_ok {r₁ : Runner μ ι ο ρ Cells} (h : r.setup = (.ok (), r₁)) :
    r.processWatermark time = r₁.processWatermark time := by
  unfold processWatermark
  rw [h, setup_eq_of_ne_created (lifecycle_ne_created_of_setup_ok h)]

theorem exists_setup_of_processWatermark_ok (h : r.processWatermark time = (.ok result, r')) :
    ∃ r₁, r.setup = (.ok (), r₁) := by
  unfold processWatermark at h
  rcases hsetup : r.setup with ⟨e | _, r₁⟩
  · rw [hsetup] at h
    cases h
  · exact ⟨r₁, rfl⟩

theorem popDue_of_processWatermark_ok (hbare : r.operator.function.Unbracketed)
    (htimeless : r.operator.function.TimelessTimers ρ Cells)
    (h : r.processWatermark time = (.ok result, r')) :
    result.firedTimers = (r.schedule.popDue time).1.length ∧
      r'.schedule = (r.schedule.popDue time).2 := by
  obtain ⟨-, -, -, -, -, -, hadvance, -⟩ := steps_of_processWatermark_ok h
  have htime := (WatermarkTracker.advance_eq_ok hadvance).1
  obtain ⟨r₁, hsetup⟩ := exists_setup_of_processWatermark_ok h
  have hready := lifecycle_ne_created_of_setup_ok hsetup
  rw [processWatermark_of_setup_ok hsetup] at h
  rw [frame_of_setup_ok hsetup] at h hready
  obtain ⟨s, memory, -, rfl, rfl⟩ := (processWatermark_eq_ok_iff
    (r := { r with lifecycle := r₁.lifecycle, memory := r₁.memory })
    hbare htimeless hready htime).1 h
  exact ⟨rfl, rfl⟩

theorem firings_of_processWatermark_ok (hbare : r.operator.function.Unbracketed)
    (htimeless : r.operator.function.TimelessTimers ρ Cells)
    (h : r.processWatermark time = (.ok result, r')) :
    Event.firings (r.events (.watermark time)) = (r.schedule.popDue time).1 := by
  obtain ⟨rounds, ⟨m, hrounds, hend⟩, hrecord, hcount⟩ := rounds_of_processWatermark_ok h
  have hfirings : Event.firings (r.events (.watermark time)) = rounds.flatten.map Firing.fired :=
    hrecord.firings
  rw [(popDue_of_processWatermark_ok hbare htimeless h).1] at hcount
  rw [hfirings]
  cases hrounds with
  | nil =>
    rw [hend]
    rfl
  | @cons _ _ _ round rest due staged later =>
    -- The first round fires all that is due, which leaves none for the others.
    rw [← due, List.length_map, List.flatten_cons, List.length_append] at hcount
    have hrest : rest.flatten = [] := by
      apply List.eq_nil_of_length_eq_zero
      omega
    rw [List.flatten_cons, hrest, List.append_nil, due]

theorem exists_steps (hbare : r.operator.function.Unbracketed)
    (htimeless : r.operator.function.TimelessTimers ρ Cells) (hw : r.inputWatermark ≤ w)
    (hw' : w ≤ w') (h : r.processWatermark w' = (.ok result, r')) :
    ∃ first mid second, r.processWatermark w = (.ok first, mid) ∧
      mid.processWatermark w' = (.ok second, r') ∧ result.Joins first second := by
  obtain ⟨r₁, hsetup⟩ := exists_setup_of_processWatermark_ok h
  have hready := lifecycle_ne_created_of_setup_ok hsetup
  rw [processWatermark_of_setup_ok hsetup] at h ⊢
  rw [frame_of_setup_ok hsetup] at h hready ⊢
  exact exists_steps_of_ready hbare htimeless hready hw hw' h

theorem exists_whole (hbare : r.operator.function.Unbracketed)
    (htimeless : r.operator.function.TimelessTimers ρ Cells) (hw : r.inputWatermark ≤ w)
    (hw' : w ≤ w') {first second : CallResult ι ο} {mid : Runner μ ι ο ρ Cells}
    (hfirst : r.processWatermark w = (.ok first, mid))
    (hsecond : mid.processWatermark w' = (.ok second, r')) :
    ∃ whole, r.processWatermark w' = (.ok whole, r') := by
  obtain ⟨r₁, hsetup⟩ := exists_setup_of_processWatermark_ok hfirst
  have hready := lifecycle_ne_created_of_setup_ok hsetup
  rw [processWatermark_of_setup_ok hsetup] at hfirst ⊢
  rw [frame_of_setup_ok hsetup] at hfirst hready ⊢
  exact exists_whole_of_ready hbare htimeless hready hw hw' hfirst hsecond

/-- The size of the steps of a watermark cannot be told. A pass to the later time succeeds if and
only if a pass to the earlier one and then one to the later succeed; they leave the same runner,
with its cells, timers, buffer and watermarks, call for the same timers in the same order, and emit
the same data on each channel. -/
theorem processWatermark_steps (r : Runner μ ι ο ρ Cells) (hbare : r.operator.function.Unbracketed)
    (htimeless : r.operator.function.TimelessTimers ρ Cells) {w w' : Instant}
    (hw : r.inputWatermark ≤ w) (hw' : w ≤ w') :
    ((∃ whole r', r.processWatermark w' = (.ok whole, r')) ↔
      ∃ first mid second r', r.processWatermark w = (.ok first, mid) ∧
        mid.processWatermark w' = (.ok second, r')) ∧
    ∀ whole r' first mid second r'', r.processWatermark w' = (.ok whole, r') →
      r.processWatermark w = (.ok first, mid) → mid.processWatermark w' = (.ok second, r'') →
      r' = r'' ∧ whole.Joins first second ∧
        Event.firings (r.events (.watermark w')) =
          Event.firings (r.events (.watermark w)) ++
            Event.firings (mid.events (.watermark w')) := by
  refine ⟨⟨?_, ?_⟩, ?_⟩
  · rintro ⟨whole, r', hwhole⟩
    obtain ⟨first, mid, second, hfirst, hsecond, -⟩ := exists_steps hbare htimeless hw hw' hwhole
    exact ⟨first, mid, second, r', hfirst, hsecond⟩
  · rintro ⟨first, mid, second, r', hfirst, hsecond⟩
    obtain ⟨whole, hwhole⟩ := exists_whole hbare htimeless hw hw' hfirst hsecond
    exact ⟨whole, r', hwhole⟩
  · intro whole r' first mid second r'' hwhole hfirst hsecond
    obtain ⟨first', mid', second', hfirst', hsecond', hjoins⟩ :=
      exists_steps hbare htimeless hw hw' hwhole
    rw [hfirst] at hfirst'
    cases hfirst'
    rw [hsecond] at hsecond'
    cases hsecond'
    have hoperator : mid.operator = r.operator := by rw [frame_of_processWatermark_ok hfirst]
    have hschedule := (popDue_of_processWatermark_ok hbare htimeless hfirst).2
    refine ⟨rfl, hjoins, ?_⟩
    rw [firings_of_processWatermark_ok hbare htimeless hwhole,
      firings_of_processWatermark_ok hbare htimeless hfirst,
      firings_of_processWatermark_ok (hoperator ▸ hbare) (hoperator ▸ htimeless) hsecond, hschedule,
      r.schedule.popDue_of_le hw']

/-- Its timers pass on how long their cell is, and make it longer. -/
def alarms : Operator Unit Nat Nat where
  function := {
    processElement := fun _ m => .done (.success m)
    onTimer := fun _ m =>
      .ask (.readState .global "alarms" fun _ => true) fun content =>
        .ask (.writeState .global "alarms" (some (0 :: (content.toOption.bind id).getD [])))
          fun _ => .ask (.output ((content.toOption.bind id).getD []).length) fun _ =>
            .done (.success m) }
  encodeKey := some fun _ => .ok ⟨[7]⟩

def alarmsSet : Runner Unit Nat Nat NoSideInputs Cells where
  operator := alarms
  outputs := ⟨"main", []⟩
  reader := ⟨⟩
  pushback := .empty
  watermark := .start false
  schedule := ((Schedule.empty.applyOps
    [.set ⟨[7]⟩ (.eventTime .global "third" ⟨30⟩), .set ⟨[7]⟩ (.eventTime .global "first" ⟨10⟩),
      .set ⟨[7]⟩ (.eventTime .global "second" ⟨20⟩)]).toOption.getD .empty)
  store := some .empty
  lifecycle := .created
  memory := ()

theorem alarms_steps :
    ∃ whole r' first mid second,
      alarmsSet.processWatermark ⟨40⟩ = (.ok whole, r') ∧
      whole.outputs.mainData.map Element.value = [0, 1, 2] ∧
      alarmsSet.processWatermark ⟨20⟩ = (.ok first, mid) ∧
      mid.processWatermark ⟨40⟩ = (.ok second, r') ∧
      first.outputs.mainData.map Element.value = [0, 1] ∧
      second.outputs.mainData.map Element.value = [2] := by
  have hvalues : ((alarmsSet.processWatermark ⟨40⟩).1.toOption.map fun result =>
      result.outputs.mainData.map Element.value) = some [0, 1, 2] := by
    decide +kernel
  have hfirstValues : ((alarmsSet.processWatermark ⟨20⟩).1.toOption.map fun result =>
      result.outputs.mainData.map Element.value) = some [0, 1] := by
    decide +kernel
  have htimeless : alarmsSet.operator.function.TimelessTimers NoSideInputs Cells := by
    intro c s t m e he
    rcases List.mem_cons.1 he with rfl | he
    · trivial
    rcases List.mem_cons.1 he with rfl | he
    · trivial
    rcases List.mem_cons.1 he with rfl | he
    · trivial
    cases he
  obtain ⟨hsplit, hsame⟩ := alarmsSet.processWatermark_steps ⟨rfl, rfl⟩ htimeless
    (show alarmsSet.inputWatermark ≤ ⟨20⟩ by decide) (show (⟨20⟩ : Instant) ≤ ⟨40⟩ by decide)
  cases hcall : alarmsSet.processWatermark ⟨40⟩ with
  | mk outcome r' =>
    rw [hcall] at hvalues
    cases outcome with
    | error e => cases hvalues
    | ok whole =>
      obtain ⟨first, mid, second, r'', hfirst, hsecond⟩ := hsplit.1 ⟨whole, r', hcall⟩
      obtain ⟨rfl, hjoins, -⟩ := hsame whole r' first mid second r'' hcall hfirst hsecond
      rw [hfirst] at hfirstValues
      have hwholeValues : whole.outputs.mainData.map Element.value = [0, 1, 2] :=
        Option.some.inj hvalues
      have hfirstValues : first.outputs.mainData.map Element.value = [0, 1] :=
        Option.some.inj hfirstValues
      have hjoined : [0, 1] ++ second.outputs.mainData.map Element.value = [0, 1] ++ [2] := by
        rw [← hfirstValues, ← List.map_append, ← hjoins.mainData, hwholeValues, hfirstValues]
        rfl
      exact ⟨whole, r', first, mid, second, rfl, hwholeValues, hfirst, hsecond, hfirstValues,
        List.append_cancel_left hjoined⟩

end Runner

end StreamOperator
