import StreamOperator.Proofs.Runner.Sound

/-! Passes over the timers. A pass that succeeds leaves nothing due, and fires what was due and left
alone exactly once. Within a pass a timer fires by the schedule that its round began with, so a
callback that deletes or moves a timer which waits for its turn in the same round does not keep it
from firing. -/

namespace StreamOperator.Runner

variable {μ ι ο ρ σ : Type} {o : Operator μ ι ο} {r r' : Runner μ ι ο ρ σ}
  [SideInputReader ρ] [StateStore σ]

/-- After a watermark is taken in, no timer up to it is scheduled, and the timers reported as fired
are the calls made for timers. A timer that was due and that no callback touched fired exactly once;
a slot fired no oftener than it was due at first and set to be due since; and a timer that was not
due and that no callback touched is scheduled as it was. -/
theorem settled_of_watermark {reader : ρ} {store : Option σ} {memory : μ}
    (h : o.runner reader store memory = .ok r) (cs : List (Call ι)) {w : Instant}
    {result : CallResult ι ο} (hc : (r.calls cs).2.call (.watermark w) = (.ok result, r')) :
    let before := (r.calls cs).2.schedule
    let events := (r.calls cs).2.events (.watermark w)
    r'.schedule.Later w ∧
      result.firedTimers = events.countP Event.isTimerCall ∧
      result.firedTimers = (Event.firings events).length ∧
      ∀ key slot,
        (Event.firings events).countP (FiredTimer.isAt key slot) ≤
            before.dueAt w key slot +
              (Event.timerOps events).countP (TimerOp.setsDue w key slot) ∧
          ∀ t, before.timer? key slot = some t →
            (∀ op ∈ Event.timerOps events, op.touches key slot = false) →
            (t.target ≤ w →
              (Event.firings events).filter (FiredTimer.isAt key slot) = [⟨key, t⟩]) ∧
            (w < t.target → r'.schedule.timer? key slot = some t) := by
  intro before events
  have hs : before.Consistent := ((sound_fresh h).calls cs).scheduled
  obtain ⟨rounds, hsettles, hrecord, hcount⟩ := rounds_of_processWatermark_ok hc
  have hfirings : Event.firings events = rounds.flatten.map Firing.fired := hrecord.firings
  have hops : Event.timerOps events = rounds.flatten.flatMap Firing.ops := hrecord.timerOps
  rw [hfirings, hops]
  refine ⟨hsettles.later hs, ?_, ?_, ?_⟩
  · rw [hcount, hrecord.calls]
    exact (Nat.zero_add _).symm
  · rw [hcount, List.length_map]
  · intro key slot
    refine ⟨?_, fun t ht huntouched => ⟨fun hw => ?_, fun hw => ?_⟩⟩
    · obtain ⟨m, hrounds, -⟩ := hsettles
      exact le_trans (Nat.le_add_right _ _) (hrounds.countP_fired_le hs)
    · exact hsettles.fires_once hs ht hw huntouched
    · exact hsettles.timer?_eq_some hs ht hw huntouched

/-- The timers that fire when a watermark is taken in, however that ends: in rounds, each by what
the rounds before its own made of the schedule. Where those did not touch the slot of a timer that
waited for its turn, the timer fires as the changes that the pass made up to then say, each taken
by itself, exactly if no earlier callback of its own round touched its slot, or the last to do so
set it to the same target. -/
theorem fires_as_scheduled_iff {reader : ρ} {store : Option σ} {memory : μ}
    (h : o.runner reader store memory = .ok r) (cs : List (Call ι)) (w : Instant) :
    let before := (r.calls cs).2.schedule
    ∃ rounds, Fires w before rounds ∧
      Event.moves ((r.calls cs).2.events (.watermark w)) =
        rounds.flatten.flatMap Firing.moves ∧
      ∀ done ahead f after rest, rounds = done ++ (ahead ++ f :: after) :: rest →
        let key := f.fired.key
        let timer := f.fired.timer
        (∃ m, Rounds w before done m ∧ m.timer? key timer.slot = some timer ∧ timer.target ≤ w) ∧
          ((∀ round ∈ done, Spared key timer.slot round) →
            ((∃ t, before.after ((done.flatten ++ ahead).flatMap Firing.moves) key timer.slot =
                some t ∧ t.target = timer.target) ↔
              ∀ op, TimerOp.lastOn? (ahead.flatMap Firing.ops) key timer.slot = some op →
                ∃ t, op = .set key t ∧ t.target = timer.target)) := by
  intro before
  have hs : before.Consistent := ((sound_fresh h).calls cs).scheduled
  obtain ⟨rounds, hfires, hrecord⟩ := (r.calls cs).2.rounds_of_processWatermark w
  refine ⟨rounds, hfires, hrecord.moves, ?_⟩
  rintro done ahead f after rest rfl
  obtain ⟨m, hrounds, hround⟩ := hfires.exists_rounds
  exact ⟨⟨m, hrounds, timer?_of_due (hrounds.consistent hs) hround⟩,
    hrounds.after_eq_some_iff hs hround⟩

/-- Sets three timers for every value. The first of them to fire deletes the second, and sets one
that is due at once. -/
def relay : Operator Unit Nat Nat where
  function := {
    processElement := fun _ m =>
      .ask (.setTimer (.eventTime .global "first" ⟨10⟩)) fun _ =>
        .ask (.setTimer (.eventTime .global "second" ⟨20⟩)) fun _ =>
          .ask (.setTimer (.eventTime .global "last" ⟨200⟩)) fun _ => .done (.success m)
    onTimer := fun t m =>
      if t.id = "first" then
        .ask (.deleteTimer ⟨.global, "second"⟩) fun _ =>
          .ask (.setTimer (.eventTime .global "next" ⟨50⟩)) fun _ => .done (.success m)
      else .done (.success m) }
  encodeKey := some fun _ => .ok ⟨[7]⟩

def relayStart : Runner Unit Nat Nat NoSideInputs Cells where
  operator := relay
  outputs := ⟨"main", []⟩
  reader := ⟨⟩
  pushback := .empty
  watermark := .start false
  schedule := .empty
  store := none
  lifecycle := .created
  memory := ()

def relayCalls : List (Call Nat) := [.bundle [.inGlobalWindow 1 ⟨5⟩]]

def relayEvents : List (Event Nat Nat) :=
  (relayStart.calls relayCalls).2.events (.watermark ⟨100⟩)

def relayMoves : List TimerMove :=
  [.fire ⟨⟨[7]⟩, .eventTime .global "first" ⟨10⟩⟩,
    .op (.delete ⟨[7]⟩ ⟨.global, "second"⟩),
    .op (.set ⟨[7]⟩ (.eventTime .global "next" ⟨50⟩)),
    .fire ⟨⟨[7]⟩, .eventTime .global "second" ⟨20⟩⟩,
    .fire ⟨⟨[7]⟩, .eventTime .global "next" ⟨50⟩⟩]

theorem moves_relayEvents : Event.moves relayEvents = relayMoves := by decide +kernel

/-- The second timer fires although the changes before it left its slot empty. -/
theorem relay_fires_deleted :
    ∃ earlier f later, Event.moves relayEvents = earlier ++ .fire f :: later ∧
      (relayStart.calls relayCalls).2.schedule.after earlier f.key f.timer.slot = none := by
  refine ⟨relayMoves.take 3, ⟨⟨[7]⟩, .eventTime .global "second" ⟨20⟩⟩, relayMoves.drop 4,
    moves_relayEvents, ?_⟩
  decide +kernel

theorem relay_rounds :
    ∃ rounds, Fires ⟨100⟩ (relayStart.calls relayCalls).2.schedule rounds ∧
      rounds.flatten.flatMap Firing.moves = relayMoves := by
  have hfresh : relay.runner NoSideInputs.mk none () = .ok relayStart := by rfl
  obtain ⟨rounds, hfires, hmoves, -⟩ := fires_as_scheduled_iff hfresh relayCalls ⟨100⟩
  exact ⟨rounds, hfires, hmoves.symm.trans moves_relayEvents⟩

theorem relay_settled :
    ∃ result r', (relayStart.calls relayCalls).2.call (.watermark ⟨100⟩) = (.ok result, r') ∧
      result.firedTimers = 3 ∧
      (Event.firings relayEvents).filter (FiredTimer.isAt ⟨[7]⟩ ⟨.global, "first"⟩) =
        [⟨⟨[7]⟩, .eventTime .global "first" ⟨10⟩⟩] ∧
      r'.schedule.timer? ⟨[7]⟩ ⟨.global, "last"⟩ = some (.eventTime .global "last" ⟨200⟩) := by
  have hfresh : relay.runner NoSideInputs.mk none () = .ok relayStart := by rfl
  have hok : ((relayStart.calls relayCalls).2.call (.watermark ⟨100⟩)).1.isOk = true := by
    decide +kernel
  rcases hc : (relayStart.calls relayCalls).2.call (.watermark ⟨100⟩) with ⟨e | result, r'⟩
  · rw [hc] at hok
    cases hok
  · obtain ⟨-, -, hcount, hslots⟩ := settled_of_watermark hfresh relayCalls hc
    have hthree : (Event.firings relayEvents).length = 3 := by decide +kernel
    refine ⟨result, r', rfl, hcount.trans hthree, ?_, ?_⟩
    · exact ((hslots _ _).2 _ (by decide +kernel) (by decide +kernel)).1 (by decide)
    · exact ((hslots _ _).2 _ (by decide +kernel) (by decide +kernel)).2 (by decide)

end StreamOperator.Runner
