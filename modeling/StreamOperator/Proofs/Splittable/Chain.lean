import StreamOperator.Proofs.Session
import StreamOperator.Proofs.Splittable.Tracker
import StreamOperator.Splittable.Recording

/-! Chains of invocations over an offset range, each on what the one before it left. What carries a
chain is kept by every claim: the tracker stands behind the last position granted, the positions
granted rise within the range, and the counter knows how many there are. -/

namespace StreamOperator

/-- What one invocation cut off its range, with the positions granted before it and by it: the part
behind all of them, from one past its own last position, if it has one. -/
structure OffsetRange.Cut (range : OffsetRange) (before granted : List UInt64)
    (rest : OffsetRange) : Prop where
  stop_eq : rest.stop = range.stop
  start_le : range.start ≤ rest.start
  start_lt : rest.start < rest.stop
  past : ∀ p ∈ before ++ granted, p < rest.start
  start_eq : rest.start.toNat = granted.getLast?.elim range.start.toNat (·.toNat + 1)

def OffsetRange.Finished (range : OffsetRange) (granted : List UInt64) : Prop :=
  range.isEmpty ∨ ∃ last, granted.getLast? = some last ∧ last.toNat + 1 = range.stop.toNat

theorem OffsetRange.isEmpty_iff {range : OffsetRange} :
    range.isEmpty ↔ range.stop ≤ range.start := by
  rw [isEmpty, size, beq_iff_eq]
  by_cases h : range.start ≤ range.stop
  · rw [if_pos h, ← UInt64.toNat_inj, UInt64.toNat_sub_of_le _ _ h, UInt64.toNat_zero,
      UInt64.le_iff_toNat_le]
    omega
  · rw [if_neg h]
    exact iff_of_true rfl (UInt64.le_of_lt (UInt64.not_le.1 h))

namespace OffsetTracker

variable {range rest : OffsetRange} {granted : List UInt64} {t : OffsetTracker}

namespace After

theorem finished (h : t.After range granted) (hnone : t.checkpoint.1 = none) :
    range.Finished granted := by
  have hstop := checkpoint_eq_none_iff.1 hnone
  rw [h.range_eq, UInt64.le_iff_toNat_le, h.frontier_toNat] at hstop
  cases hlast : granted.getLast? with
  | none =>
    rw [hlast] at hstop
    exact .inl (OffsetRange.isEmpty_iff.2 (UInt64.le_iff_toNat_le.2 hstop))
  | some last =>
    rw [hlast, Option.elim] at hstop
    have hlt := UInt64.lt_iff_toNat_lt.1 (h.inside last (List.mem_of_getLast? hlast)).2
    exact .inr ⟨last, hlast, by omega⟩

theorem cut (h : t.After range granted) (before : List UInt64)
    (hbefore : ∀ p ∈ before, p < range.start) (hrest : t.checkpoint.1 = some rest) :
    range.Cut before granted rest := by
  obtain ⟨hlt, rfl⟩ := checkpoint_eq_some_iff.1 hrest
  rw [h.range_eq] at hlt ⊢
  refine ⟨rfl, h.start_le_frontier, hlt, ?_, h.frontier_toNat⟩
  intro p hp
  rcases List.mem_append.1 hp with hp | hp
  · exact UInt64.lt_of_lt_of_le (hbefore p hp) h.start_le_frontier
  · exact h.lt_frontier hp

end After

end OffsetTracker

namespace Invocation

variable {ο α : Type} {budget : Budget} {range : OffsetRange}
  {granted : List UInt64} {i : Invocation OffsetTracker ο}

theorem claim_cases (clock : Nat → Duration) (budget : Budget) (i : Invocation OffsetTracker ο)
    (p : UInt64) :
    (∃ t, i.tracker.tryClaim p = (true, t) ∧ i.claimed < budget.maxRecords ∧
      i.claim clock budget p =
        (true, { i with tracker := t, claimed := i.claimed + 1, readings := i.readings + 1 })) ∨
    i.claim clock budget p = (false, { i with readings := i.readings + 1 }) := by
  cases hexhausted : budget.isExhausted i.claimed (clock i.readings + i.waited) with
  | true => exact .inr (by simp [claim, exhausted, read, hexhausted])
  | false =>
    have hbudget : i.claimed < budget.maxRecords := by
      simp only [Budget.isExhausted, Bool.or_eq_false_iff, decide_eq_false_iff_not] at hexhausted
      exact UInt64.not_le.1 hexhausted.1
    rcases i.tracker.tryClaim_cases p with ⟨hgranted, -⟩ | ⟨hrefused, -⟩
    · exact .inl ⟨_, hgranted, hbudget,
        by simp [claim, exhausted, read, hexhausted, RestrictionTracker.tryClaim, hgranted]⟩
    · exact .inr
        (by simp [claim, exhausted, read, hexhausted, RestrictionTracker.tryClaim, hrefused])

structure After (budget : Budget) (range : OffsetRange) (granted : List UInt64)
    (i : Invocation OffsetTracker ο) : Prop where
  tracker : i.tracker.After range granted
  claimed_eq : i.claimed.toNat = granted.length
  claimed_le : i.claimed ≤ budget.maxRecords

theorem after_start (budget : Budget) (range : OffsetRange) :
    (start (.start range) : Invocation OffsetTracker ο).After budget range [] :=
  ⟨OffsetTracker.after_start range, rfl, by simp [start, UInt64.le_iff_toNat_le]⟩

namespace After

theorem answer (h : i.After budget range granted) (clock : Nat → Duration)
    (q : StepRequest OffsetTracker UInt64 ο) :
    (i.answer clock budget q).2.After budget range
      (granted ++ (q.grant? (i.answer clock budget q).1).toList) := by
  cases q with
  | claim p =>
    dsimp only [Invocation.answer]
    rcases i.claim_cases clock budget p with ⟨t, hclaim, hlt, heq⟩ | heq
    · rw [heq]
      have hlt' := UInt64.lt_iff_toNat_lt.1 hlt
      have hbound := budget.maxRecords.toNat_lt
      have hsucc : (i.claimed + 1).toNat = i.claimed.toNat + 1 := by
        simp only [UInt64.toNat_add, UInt64.toNat_one]
        omega
      refine ⟨h.tracker.claim hclaim, ?_, ?_⟩
      · simp [hsucc, h.claimed_eq, StepRequest.grant?]
      · rw [UInt64.le_iff_toNat_le, hsucc]
        exact hlt'
    · rw [heq]
      simpa [StepRequest.grant?] using ⟨h.tracker, h.claimed_eq, h.claimed_le⟩
  | tracker | claimed | elapsed | isExhausted | emit _ | pause _ =>
    simpa [StepRequest.grant?, Invocation.answer] using ⟨h.tracker, h.claimed_eq, h.claimed_le⟩

theorem exhausted (h : i.After budget range granted) (clock : Nat → Duration) :
    (i.exhausted clock budget).2.After budget range granted :=
  ⟨h.tracker, h.claimed_eq, h.claimed_le⟩

theorem run (h : i.After budget range granted) (clock : Nat → Duration)
    (x : StepProgram OffsetTracker UInt64 ο α) :
    (i.run clock budget x).2.After budget range (granted ++ i.grants clock budget x) := by
  induction x generalizing i granted with
  | done a => simpa [Invocation.run, grants] using h
  | ask q next ih =>
    rw [grants, ← List.append_assoc]
    exact ih _ (h.answer clock q)

end After

end Invocation

namespace SplittableProcessor

open Session (Ends)

variable {μ ε ο : Type} {p : SplittableProcessor} {clock : Nat → Duration} {range : OffsetRange}

theorem oneStep_after
    (step : μ → StepProgram OffsetTracker UInt64 ο (Except String StepOutcome × μ))
    {i : Invocation OffsetTracker ο} {memory : μ × List UInt64}
    (h : i.After p.budget range memory.2) :
    Ends (p.oneStep clock (SplittableFunction.recordedStep step) i) memory
      (fun result memory => result.2.After p.budget range memory.2) fun _ => True := by
  have hrun := h.run clock (step memory.1)
  unfold Ends
  simp only [oneStep, ExceptT.run, ExceptT.mk, SplittableFunction.recordedStep,
    Invocation.run_bind, Invocation.run_recorded, Invocation.run]
  rcases hx : i.run clock p.budget (step memory.1) with ⟨⟨_ | outcome, memory'⟩, i'⟩
  · trivial
  · rw [hx] at hrun
    exact hrun

theorem steps_after (step : μ → StepProgram OffsetTracker UInt64 ο (Except String StepOutcome × μ))
    (fuel taken : Nat) {i : Invocation OffsetTracker ο} {memory : μ × List UInt64}
    (h : i.After p.budget range memory.2) :
    Ends (p.steps clock (SplittableFunction.recordedStep step) fuel taken i) memory
      (fun result memory => result.2.2.After p.budget range memory.2) fun _ => True := by
  unfold steps
  refine .bind (oneStep_after step h) ?_
  intro result memory h
  cases result with
  | mk outcome i =>
    cases outcome with
    | stop | resume delay => exact .pure h
    | again =>
      dsimp only
      split
      · exact .pure (h.exhausted clock)
      · cases fuel with
        | zero => exact .throw trivial
        | succ fuel => exact steps_after step fuel (taken + 1) (h.exhausted clock)

theorem exists_after_of_invoke {f : SplittableFunction μ ε ο OffsetTracker OffsetRange UInt64}
    (hf : ∀ memory range, f.newTracker memory range = .start range) {element : ε}
    {memory memory' : μ} {result : InvocationResult OffsetRange ο}
    (h : (p.invoke f clock element range).run memory = (.ok result, memory')) :
    ∃ i : Invocation OffsetTracker ο,
      i.After p.budget range (p.grants f clock element range memory) ∧
        result.claimed = i.claimed ∧ result.residual = i.tracker.checkpoint.1 := by
  have hends : Ends (p.invoke f.recorded clock element range) (memory, [])
      (fun result memory => ∃ i : Invocation OffsetTracker ο, i.After p.budget range memory.2 ∧
        result.claimed = i.claimed ∧ result.residual = i.tracker.checkpoint.1)
      fun _ => True := by
    have htracker : Ends (f.recorded.trackerOf range) (memory, [])
        (fun tracker memory => (Invocation.start tracker : Invocation OffsetTracker ο).After
          p.budget range memory.2) fun _ => True :=
      show (Invocation.start (f.newTracker memory range) : Invocation _ ο).After _ _ [] from
        hf memory range ▸ Invocation.after_start p.budget range
    exact .bind htracker fun tracker memory h => .bind (steps_after (f.step element) _ _ h)
      fun (delay, steps, i) memory h => .pure ⟨i, h, rfl, rfl⟩
  refine hends.gives result (memory', _) ?_
  rw [p.run_invoke_recorded, h]

end SplittableProcessor

namespace SplittableFunction

variable {μ ε ο τ R P : Type} [RestrictionTracker τ R P]

structure Call (ε : Type) where
  processor : SplittableProcessor
  clock : Nat → Duration
  element : ε

/-- An invocation of a chain that succeeded. -/
structure Link (ε ο R P : Type) extends Call ε where
  restriction : R
  granted : List P
  result : InvocationResult R ο

/-- Invokes the function on a restriction, then on the residual of that invocation, and so on for
as long as there are calls, the invocations succeed and something is left. -/
def chain (f : SplittableFunction μ ε ο τ R P) : List (Call ε) → R → μ → List (Link ε ο R P)
  | [], _, _ => []
  | call :: calls, restriction, memory =>
    match (call.processor.invoke f call.clock call.element restriction).run memory with
    | (.error _, _) => []
    | (.ok result, memory') =>
      let granted := call.processor.grants f call.clock call.element restriction memory
      { call with restriction, granted, result } ::
        match result.residual with
        | none => []
        | some rest => f.chain calls rest memory'

/-- An invocation kept to its budget and cut off its range what it was not granted, where these
positions were granted before. -/
structure Link.Accounted (before : List UInt64) (link : Link ε ο OffsetRange UInt64) : Prop where
  claimed_eq : link.result.claimed.toNat = link.granted.length
  claimed_le : link.result.claimed ≤ link.processor.budget.maxRecords
  cut : ∀ rest, link.result.residual = some rest → link.restriction.Cut before link.granted rest
  finished : link.result.residual = none → link.restriction.Finished link.granted

section Chain

variable {f : SplittableFunction μ ε ο OffsetTracker OffsetRange UInt64} {range : OffsetRange}
  {before : List UInt64}

theorem accounted_of_after {link : Link ε ο OffsetRange UInt64} {i : Invocation OffsetTracker ο}
    (h : i.After link.processor.budget link.restriction link.granted)
    (hclaimed : link.result.claimed = i.claimed)
    (hresidual : link.result.residual = i.tracker.checkpoint.1)
    (hbefore : ∀ p ∈ before, p < link.restriction.start) : link.Accounted before where
  claimed_eq := hclaimed ▸ h.claimed_eq
  claimed_le := hclaimed ▸ h.claimed_le
  cut _ hrest := h.tracker.cut before hbefore (hresidual ▸ hrest)
  finished hnone := h.tracker.finished (hresidual ▸ hnone)

theorem chain_granted (hf : ∀ memory range, f.newTracker memory range = .start range)
    (calls : List (Call ε)) (range : OffsetRange) (memory : μ) :
    ((f.chain calls range memory).flatMap Link.granted).Pairwise (· < ·) ∧
      ∀ p ∈ (f.chain calls range memory).flatMap Link.granted,
        range.start ≤ p ∧ p < range.stop := by
  induction calls generalizing range memory with
  | nil => exact ⟨.nil, nofun⟩
  | cons call calls ih =>
    unfold chain
    split
    next => exact ⟨.nil, nofun⟩
    next result memory' hinvoke =>
      obtain ⟨i, hi, -, hresidual⟩ := SplittableProcessor.exists_after_of_invoke hf hinvoke
      rw [List.flatMap_cons]
      cases hrest : result.residual with
      | none => simpa using ⟨hi.tracker.increasing, hi.tracker.inside⟩
      | some rest =>
        have hcut := hi.tracker.cut [] nofun (hresidual ▸ hrest)
        have hlater := ih rest memory'
        refine ⟨List.pairwise_append.2 ⟨hi.tracker.increasing, hlater.1, ?_⟩, ?_⟩
        · intro p hp q hq
          exact UInt64.lt_of_lt_of_le (hcut.past p hp) (hlater.2 q hq).1
        · intro p hp
          rcases List.mem_append.1 hp with hp | hp
          · exact hi.tracker.inside p hp
          · have hinside := hlater.2 p hp
            exact ⟨UInt64.le_trans hcut.start_le hinside.1, hcut.stop_eq ▸ hinside.2⟩

theorem chain_accounted (hf : ∀ memory range, f.newTracker memory range = .start range)
    (calls : List (Call ε)) (range : OffsetRange) (memory : μ) (before : List UInt64)
    (hbefore : ∀ p ∈ before, p < range.start) {done later : List (Link ε ο OffsetRange UInt64)}
    {link : Link ε ο OffsetRange UInt64}
    (h : f.chain calls range memory = done ++ link :: later) :
    link.Accounted (before ++ done.flatMap Link.granted) := by
  induction calls generalizing range memory before done with
  | nil => simp [chain] at h
  | cons call calls ih =>
    unfold chain at h
    split at h
    next => simp at h
    next result memory' hinvoke =>
      obtain ⟨i, hi, hclaimed, hresidual⟩ := SplittableProcessor.exists_after_of_invoke hf hinvoke
      cases done with
      | nil =>
        obtain ⟨rfl, -⟩ := List.cons.inj h
        simpa using accounted_of_after hi hclaimed hresidual hbefore
      | cons first done =>
        obtain ⟨rfl, htail⟩ := List.cons.inj h
        cases hrest : result.residual with
        | none => simp [hrest] at htail
        | some rest =>
          rw [hrest] at htail
          have hcut := hi.tracker.cut before hbefore (hresidual ▸ hrest)
          simpa using ih rest memory' _ hcut.past htail

/-- Whatever the steps claim and whatever the clocks show, a chain of invocations on an offset range
repeats no position and cuts off all it has not come to. -/
theorem chain_keeps_positions (hf : ∀ memory range, f.newTracker memory range = .start range)
    (calls : List (Call ε)) (range : OffsetRange) (memory : μ) :
    ((f.chain calls range memory).flatMap Link.granted).Pairwise (· < ·) ∧
      (∀ p ∈ (f.chain calls range memory).flatMap Link.granted,
        range.start ≤ p ∧ p < range.stop) ∧
      ∀ done link later, f.chain calls range memory = done ++ link :: later →
        link.Accounted (done.flatMap Link.granted) := by
  obtain ⟨hincreasing, hinside⟩ := chain_granted hf calls range memory
  refine ⟨hincreasing, hinside, ?_⟩
  intro done link later h
  exact chain_accounted hf calls range memory [] nofun h

def everySecond : SplittableFunction Unit Unit UInt64 OffsetTracker OffsetRange UInt64 where
  newTracker _ range := .start range
  step _ _ := .ask .tracker fun t => .ask (.claim (t.frontier + 1)) fun
    | true => .ask (.emit (t.frontier + 1)) fun _ => .done (.ok .again, ())
    | false => .done (.ok (.resume .zero), ())

theorem chain_everySecond :
    let calls := List.replicate 3 ⟨{ budget := ⟨2, .ofMillis 10⟩ }, fun _ => .zero, ()⟩
    let links := everySecond.chain calls ⟨10, 17⟩ ()
    (links.map fun link => (link.restriction, link.granted, link.result.residual)) =
        [(⟨10, 17⟩, [11, 13], some ⟨14, 17⟩), (⟨14, 17⟩, [15], some ⟨16, 17⟩),
          (⟨16, 17⟩, [], some ⟨16, 17⟩)] ∧
      (links.flatMap Link.granted).Pairwise (· < ·) ∧
      (∀ p ∈ links.flatMap Link.granted, 10 ≤ p ∧ p < 17) ∧
      ∀ done link later, links = done ++ link :: later →
        link.Accounted (done.flatMap Link.granted) :=
  ⟨by decide +kernel, chain_keeps_positions (fun _ _ => rfl) _ _ _⟩

end Chain

end SplittableFunction

end StreamOperator
