import StreamOperator.Proofs.Runner.Sound

/-! How many rounds a pass takes. Where the timers of a function set later timers only, the earliest
target that is due rises from round to round, so there are no more rounds than instants from the
earliest target to the watermark, and a pass that may take as many is never cut off. -/

namespace StreamOperator

variable {μ ι ο α ρ σ : Type}

def TimerOp.SetsAfter (time : Instant) : TimerOp → Prop
  | .set _ t => time < t.target
  | .delete .. => True

def Event.SetsAfter (time : Instant) : Event ι ο → Prop
  | asked (.setTimer t) (.ok _) => time < t.target
  | _ => True

theorem Event.setsAfter_setTimer {time : Instant} {t : Timer} (h : time < t.target)
    (reply : (Request.setTimer t : Request ι ο).Reply) :
    (asked (.setTimer t) reply).SetsAfter time := by
  cases reply with
  | error e => trivial
  | ok _ => exact h

theorem Request.setsAfter_of_timerOp? {time : Instant} {key : Option EncodedKey} {q : Request ι ο}
    {reply : q.Reply} (h : (Event.asked q reply).SetsAfter time) {op : TimerOp}
    (hop : q.timerOp? key reply = some op) : op.SetsAfter time := by
  cases q with
  | setTimer t =>
    cases reply with
    | error e => cases hop
    | ok _ =>
      obtain ⟨k, -, rfl⟩ := Option.map_eq_some_iff.1 hop
      exact h
  | deleteTimer slot =>
    cases reply with
    | error e => cases hop
    | ok _ =>
      obtain ⟨k, -, rfl⟩ := Option.map_eq_some_iff.1 hop
      trivial
  | _ => cases hop

namespace Context

variable [SideInputReader ρ] [StateStore σ]

theorem events_recorded (c : Context ρ σ) (s : Staging ι ο) (x : Interaction ι ο α)
    (log : List (Event ι ο)) : c.events s (x.recorded log) = c.events s x := by
  induction x generalizing s log with
  | done a => rfl
  | ask q next ih => exact congrArg (_ :: ·) (ih _ _ _)

theorem setsAfter_run {c : Context ρ σ} {s : Staging ι ο} {x : Interaction ι ο α} {time : Instant}
    (h : ∀ e ∈ c.events s x, e.SetsAfter time) :
    ∀ op ∈ (c.run s x).2.timerOps, op ∈ s.timerOps ∨ op.SetsAfter time := by
  induction x generalizing s with
  | done a => exact fun op hop => Or.inl hop
  | ask q next ih =>
    obtain ⟨hq, hrest⟩ := List.forall_mem_cons.1 h
    have hanswer : ∀ op ∈ (c.answer s q).2.timerOps, op ∈ s.timerOps ∨ op.SetsAfter time := by
      rw [timerOps_answer]
      intro op hop
      cases List.mem_append.1 hop with
      | inl hop => exact Or.inl hop
      | inr hop => exact Or.inr (Request.setsAfter_of_timerOp? hq (Option.mem_toList.1 hop))
    intro op hop
    cases ih _ hrest op hop with
    | inl hop => exact hanswer op hop
    | inr hafter => exact Or.inr hafter

end Context

/-- In no surroundings do the timers of the function set a timer that is not later than they are. -/
def UserFunction.ForwardTimers (ρ σ : Type) [SideInputReader ρ] [StateStore σ]
    (f : UserFunction μ ι ο) : Prop :=
  ∀ (c : Context ρ σ) (s : Staging ι ο) (t : Timer) (memory : μ),
    ∀ e ∈ c.events s (f.onTimer t memory), e.SetsAfter t.target

theorem UserFunction.ForwardTimers.recorded [SideInputReader ρ] [StateStore σ]
    {f : UserFunction μ ι ο} (h : f.ForwardTimers ρ σ) : f.recorded.ForwardTimers ρ σ := by
  intro c s t memory e he
  have hevents : c.events s (f.recorded.onTimer t memory) =
      .asked .currentKey c.key :: (c.events s (f.onTimer t memory.1) ++ []) := by
    refine congrArg (_ :: ·) ?_
    rw [Context.events_bind, Context.events_recorded]
    rfl
  rw [hevents, List.append_nil, List.mem_cons] at he
  cases he with
  | inl he =>
    rw [he]
    trivial
  | inr he => exact h c s t memory.1 e he

namespace Schedule

variable {s m : Schedule} {w : Instant} {first : Int}

def DueFrom (w : Instant) (first : Int) (s : Schedule) : Prop :=
  ∀ key slot t, s.timer? key slot = some t → t.target ≤ w → first ≤ t.target.millis.toInt

/-- How many instants there are from the earliest target to an instant. -/
def span (s : Schedule) (w : Instant) : Nat :=
  match s.nextDue? with
  | some first => (w.millis.toInt - first.millis.toInt + 1).toNat
  | none => 0

theorem span_le (s : Schedule) (w : Instant) : s.span w ≤ 18446744073709551616 := by
  unfold span
  split
  next first _ =>
    have hlast := Int64.toInt_lt w.millis
    have hfirst := Int64.le_toInt first.millis
    omega
  next => exact Nat.zero_le _

theorem span_of_head? (first w : Instant)
    (h : s.agenda.toList.head?.map Due.target = some first) :
    s.span w = (w.millis.toInt - first.millis.toInt + 1).toNat := by
  rw [span, nextDue?, Std.ExtTreeSet.min?_eq_head?_toList, h]

theorem nextDue?_eq_some {first : Instant} (hs : s.Consistent) (h : s.nextDue? = some first) :
    ∀ key slot t, s.timer? key slot = some t → first ≤ t.target := by
  intro key slot t ht
  obtain ⟨due, hmin, rfl⟩ := Option.map_eq_some_iff.1 h
  have hmem : (⟨t.target, key, slot⟩ : Due) ∈ s.agenda := (hs.mem_agenda _).2 ⟨t, ht, rfl⟩
  have hle := (Std.ExtTreeSet.min?_eq_some_iff_mem_and_forall.1 hmin).2 _ hmem
  exact Due.target_le_of_isLE (a := due) (b := ⟨t.target, key, slot⟩) hle

theorem Consistent.dueFrom (hs : s.Consistent) {first : Instant} (h : s.nextDue? = some first)
    (w : Instant) : s.DueFrom w first.millis.toInt :=
  fun key slot t ht _ => Instant.le_iff_toInt.1 (nextDue?_eq_some hs h key slot t ht)

theorem Consistent.exists_nextDue? (hs : s.Consistent) {f : FiredTimer}
    (h : f ∈ (s.popDue w).1) : ∃ first, s.nextDue? = some first ∧ first ≤ w := by
  obtain ⟨ht, hw⟩ := (mem_popDue hs).1 h
  cases hnext : s.nextDue? with
  | none =>
    have hempty := Option.map_eq_none_iff.1 hnext
    have hmem : (⟨f.timer.target, f.key, f.timer.slot⟩ : Due) ∈ s.agenda :=
      (hs.mem_agenda _).2 ⟨f.timer, ht, rfl⟩
    rw [Std.ExtTreeSet.min?_eq_none_iff.1 hempty] at hmem
    cases Std.ExtTreeSet.not_mem_empty hmem
  | some first =>
    exact ⟨first, rfl, le_trans (nextDue?_eq_some hs hnext _ _ _ ht) hw⟩

theorem Consistent.span_pos (hs : s.Consistent) {f : FiredTimer} (h : f ∈ (s.popDue w).1) :
    0 < s.span w := by
  obtain ⟨first, hfirst, hw⟩ := hs.exists_nextDue? h
  have hle := Instant.le_iff_toInt.1 hw
  rw [span, hfirst]
  dsimp only
  omega

theorem DueFrom.le_of_mem_popDue (h : s.DueFrom w first) (hs : s.Consistent) {f : FiredTimer}
    (hf : f ∈ (s.popDue w).1) :
    first ≤ f.timer.target.millis.toInt ∧ f.timer.target.millis.toInt ≤ w.millis.toInt := by
  obtain ⟨ht, hw⟩ := (mem_popDue hs).1 hf
  exact ⟨h _ _ _ ht hw, Instant.le_iff_toInt.1 hw⟩

theorem DueFrom.applyOps (h : s.DueFrom w first) (hs : s.Consistent) {ops : List TimerOp}
    (happlied : (s.popDue w).2.applyOps ops = .ok m)
    (hops : ∀ op ∈ ops, ∃ f ∈ (s.popDue w).1, op.SetsAfter f.timer.target) :
    m.DueFrom w (first + 1) := by
  intro key slot t ht hw
  rw [timer?_applyOps happlied, timer?_popDue hs, TimerOp.foldl_leave_eq_some_iff] at ht
  cases ht with
  | inl hkept =>
    have hlater : w < t.target := by simpa using (Option.filter_eq_some_iff.1 hkept.2).2
    exact absurd hw (not_le.2 hlater)
  | inr hset =>
    have hmem : .set key t ∈ ops := (List.mem_filter.1 (List.mem_of_getLast? hset.1)).1
    obtain ⟨f, hf, hafter⟩ := hops _ hmem
    have hfirst := (h.le_of_mem_popDue hs hf).1
    have hlater : f.timer.target.millis.toInt < t.target.millis.toInt :=
      Instant.lt_iff_toInt.1 hafter
    omega

end Schedule

theorem Fires.flatten_eq_nil {w : Instant} {s : Schedule} {rounds : List (List Firing)}
    (h : Fires w s rounds) (hnone : (s.popDue w).1 = []) : rounds.flatten = [] := by
  induction h with
  | stop => rfl
  | cut due =>
    rw [hnone, List.prefix_nil, List.map_eq_nil_iff] at due
    simp [due]
  | cons due staged later ih =>
    rw [hnone, List.map_eq_nil_iff] at due
    subst due
    cases staged
    rw [List.flatten_cons, List.nil_append]
    apply ih
    rw [Schedule.popDue_popDue]

theorem Session.run_bind_congr {β : Type} {x : Session μ α} {f g : α → Session μ β} {memory : μ}
    (h : x.Gives memory fun a memory' => (f a).run memory' = (g a).run memory') :
    (x >>= f).run memory = (x >>= g).run memory := by
  rw [run_bind, run_bind]
  cases hx : x.run memory with
  | mk outcome memory' =>
    cases outcome with
    | error e => rfl
    | ok a => exact h a memory' hx

namespace Runner

/-- The runner with another number of rounds that it may take beyond the first. -/
def limited (r : Runner μ ι ο ρ σ) (limit : Nat) : Runner μ ι ο ρ σ :=
  { r with operator := { r.operator with refireLimit := limit } }

theorem setup_limited (r : Runner μ ι ο ρ σ) (limit : Nat) :
    (r.limited limit).setup = (r.setup.1, r.setup.2.limited limit) := by
  by_cases h : r.lifecycle = .created
  · rcases hs : r.operator.function.setup r.memory with ⟨_ | _, memory⟩ <;>
      simp [setup, limited, h, hs]
  · simp [setup, limited, h]

theorem inSession_limited {r : Runner μ ι ο ρ σ} {limit : Nat} {x y : Session μ α}
    (h : x.run r.memory = y.run r.memory) :
    (r.limited limit).inSession x = ((r.inSession y).1, (r.inSession y).2.limited limit) := by
  have hmemory : (r.limited limit).memory = r.memory := rfl
  unfold inSession
  rw [hmemory, h]
  rfl

variable [StateStore σ]

theorem commit_limited (r : Runner μ ι ο ρ σ) (s : Staging ι ο) (limit : Nat) :
    (r.limited limit).commit s = ((r.commit s).1, (r.commit s).2.limited limit) := by
  have hschedule : (r.limited limit).schedule = r.schedule := rfl
  have hstore : (r.limited limit).store = r.store := rfl
  simp only [commit, hschedule, hstore]
  cases r.schedule.applyOps s.timerOps with
  | error e => rfl
  | ok schedule => rcases applyWrites r.store s.writes with ⟨_ | _, store⟩ <;> rfl

variable [SideInputReader ρ] {r : Runner μ ι ο ρ σ} {input : Instant} {s : Staging ι ο}

theorem gives_fireRound (hforward : r.operator.function.ForwardTimers ρ σ) (input : Instant)
    (due : List FiredTimer) (schedule : Schedule) (hs : s.timerOps = []) (memory : μ) :
    (r.fireRound input due schedule s).Gives memory fun x _ =>
      x.2.timerOps = [] ∧ ∃ ops, schedule.applyOps ops = .ok x.1 ∧
        ∀ op ∈ ops, ∃ f ∈ due, op.SetsAfter f.timer.target := by
  refine Session.Ends.gives (F := fun _ => True) (.bind (.foldlM (fun done s' _ =>
    ∀ op ∈ s'.timerOps, ∃ f ∈ done, op.SetsAfter f.timer.target) ?_ ?_) ?_)
  · intro done fired rest s' memory _ hdone
    refine (Context.ends_callback _ _ _ s' memory).mono ?_ fun _ h => h
    rintro _ _ ⟨rfl, -⟩ op hop
    cases Context.setsAfter_run (hforward _ s' fired.timer memory) op hop with
    | inl hop =>
      obtain ⟨f, hf, hafter⟩ := hdone op hop
      exact ⟨f, List.mem_append_left _ hf, hafter⟩
    | inr hafter => exact ⟨fired, by simp, hafter⟩
  · simp [hs]
  · intro s' memory' hops
    refine (ends_applyStaged _ _ _).mono ?_ fun _ _ => trivial
    intro x _ hx
    obtain ⟨-, happlied, hx⟩ := hx
    exact ⟨by rw [hx], _, happlied, hops⟩

theorem fireRounds_limited (hforward : r.operator.function.ForwardTimers ρ σ) (limit : Nat)
    {s₀ schedule : Schedule} {due : List FiredTimer} (hdue : s₀.popDue input = (due, schedule))
    (hs₀ : s₀.Consistent) {first : Int} (hfirst : s₀.DueFrom input first) (hs : s.timerOps = [])
    (fuel fuel' : Nat) (hfuel : input.millis.toInt ≤ first + fuel)
    (hfuel' : input.millis.toInt ≤ first + fuel') (memory : μ) :
    ((r.limited limit).fireRounds input fuel due schedule s).run memory =
      (r.fireRounds input fuel' due schedule s).run memory := by
  induction fuel, due, schedule, s using fireRounds.induct generalizing fuel' s₀ first memory with
  | case1 fuel due schedule s ih =>
    have hdue₁ : due = (s₀.popDue input).1 := by rw [hdue]
    have hschedule : schedule = (s₀.popDue input).2 := by rw [hdue]
    rw [fireRounds, fireRounds]
    apply Session.run_bind_congr
    intro x memory' hround
    obtain ⟨hops, ops, happlied, hafter⟩ := gives_fireRound hforward input due schedule hs memory x
      memory' hround
    rw [hschedule] at happlied
    rw [hdue₁] at hafter
    have hm : x.1.Consistent := (hs₀.popDue input).applyOps happlied
    have hrisen : x.1.DueFrom input (first + 1) := hfirst.applyOps hs₀ happlied hafter
    dsimp only
    rcases hnext : x.1.popDue input with ⟨_ | ⟨fired, due'⟩, rest⟩ <;> dsimp only
    -- Something is due, so neither side is at its last round.
    have hfired := hrisen.le_of_mem_popDue hm (by rw [hnext]; exact List.mem_cons_self)
    cases fuel with
    | zero => omega
    | succ fuel =>
      cases fuel' with
      | zero => omega
      | succ fuel' =>
        exact ih x.2 (fired :: due') rest hnext hm hrisen hops fuel' (by omega) (by omega) memory'

theorem gives_startBundle (r : Runner μ ι ο ρ σ) (input : Instant) (schedule : Schedule)
    (memory : μ) :
    ((r.passContext input schedule).callback .startBundle r.operator.function.startBundle
      .empty).Gives memory fun s _ => s.timerOps = [] := by
  intro s memory' h
  obtain ⟨rfl, -⟩ := (Context.ends_callback _ _ _ _ memory).gives s memory' h
  exact Context.timerOps_run_of_no_key rfl _ _

theorem passSession_limited (hforward : r.operator.function.ForwardTimers ρ σ)
    (hs : r.schedule.Consistent) (hspan : r.schedule.span input ≤ r.operator.refireLimit + 1)
    {limit : Nat} (hlimit : r.schedule.span input ≤ limit + 1) {fired : FiredTimer}
    {due : List FiredTimer} {schedule : Schedule}
    (hdue : r.schedule.popDue input = (fired :: due, schedule)) (memory : μ) :
    ((r.limited limit).passSession input (fired :: due) schedule).run memory =
      (r.passSession input (fired :: due) schedule).run memory := by
  obtain ⟨first, hfirst, -⟩ := hs.exists_nextDue? (w := input) (f := fired) (by simp [hdue])
  have hcount : r.schedule.span input = (input.millis.toInt - first.millis.toInt + 1).toNat := by
    rw [Schedule.span, hfirst]
  unfold passSession
  apply Session.run_bind_congr
  intro s memory' hstart
  have hops := r.gives_startBundle input schedule memory s memory' hstart
  have hrounds := fireRounds_limited hforward limit hdue hs (hs.dueFrom hfirst input) hops limit
    r.operator.refireLimit (by omega) (by omega) memory'
  have hfuel : (r.limited limit).operator.refireLimit = limit := rfl
  rw [hfuel, Session.run_bind, Session.run_bind, hrounds]
  rfl

theorem firePass_limited (hforward : r.operator.function.ForwardTimers ρ σ)
    (hs : r.schedule.Consistent) (hspan : r.schedule.span input ≤ r.operator.refireLimit + 1)
    {limit : Nat} (hlimit : r.schedule.span input ≤ limit + 1) :
    (r.limited limit).firePass input =
      ((r.firePass input).1, (r.firePass input).2.limited limit) := by
  have hschedule : (r.limited limit).schedule = r.schedule := rfl
  unfold firePass
  rw [hschedule]
  rcases hdue : r.schedule.popDue input with ⟨_ | ⟨fired, due⟩, schedule⟩
  · rfl
  · exact inSession_limited (passSession_limited hforward hs hspan hlimit hdue r.memory)

theorem processWatermark_limited (hforward : r.operator.function.ForwardTimers ρ σ)
    (hs : r.schedule.Consistent) (hspan : r.schedule.span input ≤ r.operator.refireLimit + 1)
    {limit : Nat} (hlimit : r.schedule.span input ≤ limit + 1) :
    (r.limited limit).processWatermark input =
      ((r.processWatermark input).1, (r.processWatermark input).2.limited limit) := by
  rw [← operator_setup] at hforward hspan
  rw [← schedule_setup] at hs hspan hlimit
  have hpass := firePass_limited hforward hs hspan hlimit
  unfold processWatermark
  rw [setup_limited]
  rcases hsetup : r.setup with ⟨e | _, r₀⟩
  · rfl
  rw [hsetup] at hpass
  dsimp only at hpass ⊢
  have hwatermark : (r₀.limited limit).watermark = r₀.watermark := rfl
  have hpushback : (r₀.limited limit).pushback = r₀.pushback := rfl
  rw [hwatermark, hpushback, hpass]
  rcases r₀.watermark.advance input r₀.pushback.minTimestamp with e | ⟨raised, watermark⟩
  · rfl
  rcases r₀.firePass input with ⟨e | ⟨schedule, s⟩, r₁⟩
  · rfl
  dsimp only
  rw [commit_limited]
  rcases r₁.commit s with ⟨e | _, r₂⟩ <;> rfl

theorem events_limited (hforward : r.operator.function.ForwardTimers ρ σ)
    (hs : r.schedule.Consistent) (hspan : r.schedule.span input ≤ r.operator.refireLimit + 1)
    {limit : Nat} (hlimit : r.schedule.span input ≤ limit + 1) :
    (r.limited limit).events (.watermark input) = r.events (.watermark input) := by
  have hrecorded := processWatermark_limited (r := r.recorded []) hforward.recorded hs hspan hlimit
  exact congrArg (fun x => x.2.memory.2) hrecorded

theorem exists_rounds_length_le_span (hforward : r.operator.function.ForwardTimers ρ σ)
    (hs : r.schedule.Consistent) (w : Instant) :
    ∃ rounds, Fires w r.schedule rounds ∧
      Event.OnlyFires [] rounds.flatten (r.events (.watermark w)) ∧
      rounds.length ≤ r.schedule.span w := by
  obtain ⟨rounds, hfires, hrecord, hlength⟩ := r.exists_rounds_length_le w
  cases hspan : r.schedule.span w with
  | zero =>
    have hnone : (r.schedule.popDue w).1 = [] := by
      apply List.eq_nil_iff_forall_not_mem.2
      intro f hf
      exact absurd (hs.span_pos hf) (by omega)
    rw [hfires.flatten_eq_nil hnone] at hrecord
    exact ⟨[], .stop _, hrecord, Nat.le_refl _⟩
  | succ n =>
    by_cases hcut : n ≤ r.operator.refireLimit
    · obtain ⟨rounds, hfires, hrecord, hlength⟩ := (r.limited n).exists_rounds_length_le w
      rw [events_limited hforward hs (by omega) (by omega)] at hrecord
      exact ⟨rounds, hfires, hrecord, hlength⟩
    · exact ⟨rounds, hfires, hrecord, by omega⟩

variable {o : Operator μ ι ο}

/-- The rounds of a pass over timers that set later ones only. There are no more of them than
instants from the earliest target to the watermark, and none where that is later. A pass that may
take as many, which is what a runner may unless less is asked for, ends as one that may take any
greater number. A pass that is cut off would tell the number in its failure, so none of them is. -/
theorem rounds_le_span {reader : ρ} {store : Option σ} {memory : μ}
    (h : o.runner reader store memory = .ok r) (cs : List (Call ι))
    (hforward : o.function.ForwardTimers ρ σ) (w : Instant) :
    let before := (r.calls cs).2
    let most := before.schedule.span w
    (∃ rounds, Fires w before.schedule rounds ∧
        Event.OnlyFires [] rounds.flatten (before.events (.watermark w)) ∧
        rounds.length ≤ most) ∧
      most ≤ ({ function := o.function } : Operator μ ι ο).refireLimit + 1 ∧
      ∀ limit, most ≤ limit + 1 →
        (before.limited limit).processWatermark w =
          (((before.limited most).processWatermark w).1,
            ((before.limited most).processWatermark w).2.limited limit) := by
  intro before most
  have hbefore : Sound o before := (sound_fresh h).calls cs
  have hs : before.schedule.Consistent := hbefore.scheduled
  rw [← hbefore.operator] at hforward
  refine ⟨exists_rounds_length_le_span hforward hs w, before.schedule.span_le w, ?_⟩
  intro limit hlimit
  exact processWatermark_limited (r := before.limited most) hforward hs (Nat.le_succ _) hlimit

/-- Sets a timer for every value, and from each timer one that is ten milliseconds later, as long as
there is such an instant. -/
def ladder : Operator Unit Nat Nat where
  function := {
    processElement := fun _ m =>
      .ask (.setTimer (.eventTime .global "rung" ⟨10⟩)) fun _ => .done (.success m)
    onTimer := fun t m =>
      let next := t.target.advance (.ofMillis 10)
      if t.target < next then
        .ask (.setTimer (.eventTime .global "rung" next)) fun _ => .done (.success m)
      else .done (.success m) }
  encodeKey := some fun _ => .ok ⟨[7]⟩

def ladderStart : Runner Unit Nat Nat NoSideInputs Cells where
  operator := ladder
  outputs := ⟨"main", []⟩
  reader := ⟨⟩
  pushback := .empty
  watermark := .start false
  schedule := .empty
  store := none
  lifecycle := .created
  memory := ()

def ladderCalls : List (Call Nat) := [.bundle [.inGlobalWindow 1 ⟨5⟩]]

def ladderSet : Runner Unit Nat Nat NoSideInputs Cells := (ladderStart.calls ladderCalls).2

theorem forwardTimers_ladder : ladder.function.ForwardTimers NoSideInputs Cells := by
  intro c s t m e he
  dsimp only [ladder] at he
  split at he
  next hlater =>
    rw [List.mem_singleton.1 he]
    exact Event.setsAfter_setTimer (t := ⟨.global, "rung", _, .event⟩) hlater _
  next => cases he

theorem span_ladderSet : ladderSet.schedule.span ⟨35⟩ = 26 :=
  Schedule.span_of_head? ⟨10⟩ ⟨35⟩ (by decide +kernel)

theorem ladder_rounds :
    (∃ rounds, Fires ⟨35⟩ ladderSet.schedule rounds ∧ rounds.length ≤ 26 ∧
        rounds.flatten.map (·.fired.timer.target) = [⟨10⟩, ⟨20⟩, ⟨30⟩]) ∧
      ((ladderSet.limited 1000).processWatermark ⟨35⟩).1.toOption.map CallResult.firedTimers =
        some 3 := by
  have hfresh : ladder.runner NoSideInputs.mk none () = .ok ladderStart := by rfl
  have hfirings : (Event.firings (ladderSet.events (.watermark ⟨35⟩))).map (·.timer.target) =
      [⟨10⟩, ⟨20⟩, ⟨30⟩] := by
    decide +kernel
  have hcount : ((ladderSet.limited 26).processWatermark ⟨35⟩).1.toOption.map
      CallResult.firedTimers = some 3 := by
    decide +kernel
  obtain ⟨⟨rounds, hrounds, hrecord, hlength⟩, -, hlimited⟩ :=
    rounds_le_span hfresh ladderCalls forwardTimers_ladder ⟨35⟩
  have hspan : (ladderStart.calls ladderCalls).2.schedule.span ⟨35⟩ = 26 := span_ladderSet
  rw [hspan] at hlength hlimited
  refine ⟨⟨rounds, hrounds, hlength, ?_⟩, ?_⟩
  · have hfired : Event.firings (ladderSet.events (.watermark ⟨35⟩)) =
        rounds.flatten.map Firing.fired := hrecord.firings
    rw [hfired, List.map_map] at hfirings
    exact hfirings
  · have hsame := congrArg Prod.fst (hlimited 1000 (by decide))
    exact (congrArg (·.toOption.map CallResult.firedTimers) hsame).trans hcount

end Runner

end StreamOperator
