import StreamOperator.Proofs.Splittable.Chain
import StreamOperator.Splittable.Claiming

/-! Counting through an offset range. A function that claims one offset after the other, for as long
as it is granted them, takes in one invocation as many of the first offsets as its budget has room
for. It leaves the others as one range, or nothing if there are none. -/

namespace StreamOperator

namespace OffsetRange

variable {range rest : OffsetRange} {n : Nat}

def offsets (range : OffsetRange) : List UInt64 :=
  (List.range' range.start.toNat (range.stop.toNat - range.start.toNat)).map UInt64.ofNat

def behind? (range : OffsetRange) (n : Nat) : Option OffsetRange :=
  if n < range.stop.toNat - range.start.toNat then some ⟨range.start + UInt64.ofNat n, range.stop⟩
  else none

@[simp] theorem length_offsets (range : OffsetRange) :
    range.offsets.length = range.stop.toNat - range.start.toNat := by
  simp [offsets]

theorem map_toNat_offsets (range : OffsetRange) :
    range.offsets.map UInt64.toNat =
      List.range' range.start.toNat (range.stop.toNat - range.start.toNat) := by
  have hstop : range.stop.toNat < UInt64.size := range.stop.toNat_lt
  rw [offsets, List.map_map]
  refine (List.map_congr_left fun n hn => ?_).trans (List.map_id _)
  rw [List.mem_range'_1] at hn
  exact UInt64.toNat_ofNat_of_lt' (by omega)

theorem toNat_start_add (h : n < range.stop.toNat - range.start.toNat) :
    (range.start + UInt64.ofNat n).toNat = range.start.toNat + n := by
  have hstop : range.stop.toNat < UInt64.size := range.stop.toNat_lt
  have hn : (UInt64.ofNat n).toNat = n := UInt64.toNat_ofNat_of_lt' (by omega)
  rw [UInt64.toNat_add, hn]
  exact Nat.mod_eq_of_lt (show _ < UInt64.size by omega)

theorem length_offsets_le (h : range.behind? n = none) : range.offsets.length ≤ n := by
  simpa [behind?] using h

theorem lt_length_offsets (h : range.behind? n = some rest) : n < range.offsets.length := by
  rw [behind?] at h
  split at h
  next hlt => rwa [length_offsets]
  next => cases h

theorem offsets_of_behind? (h : range.behind? n = some rest) :
    rest.offsets = range.offsets.drop n := by
  have hlt := lt_length_offsets h
  rw [length_offsets] at hlt
  rw [behind?, if_pos hlt] at h
  cases h
  rw [offsets, offsets, toNat_start_add hlt, ← List.map_drop, List.drop_range', Nat.mul_one,
    Nat.sub_add_eq]

end OffsetRange

namespace Invocation

variable {budget : Budget} {range : OffsetRange} {clock : Nat → Duration} {n : Nat}
  {i : Invocation OffsetTracker UInt64} {p : UInt64}

structure Counts (budget : Budget) (range : OffsetRange) (i : Invocation OffsetTracker UInt64) :
    Prop where
  after : i.After budget range i.outputs
  consecutive : i.outputs.map UInt64.toNat = List.range' range.start.toNat i.outputs.length
  waited : i.waited = .zero

def Spent (budget : Budget) (i : Invocation OffsetTracker UInt64) : Prop :=
  budget.maxRecords ≤ i.claimed ∨ i.tracker.nextPosition? = none

theorem counts_start (budget : Budget) (range : OffsetRange) :
    (start (.start range)).Counts budget range :=
  ⟨after_start budget range, rfl, rfl⟩

namespace Counts

theorem toNat_frontier (h : i.Counts budget range) :
    i.tracker.frontier.toNat = range.start.toNat + i.outputs.length := by
  have hlast := congrArg List.getLast? h.consecutive
  rw [List.getLast?_map, List.getLast?_range'] at hlast
  rw [h.after.tracker.frontier_toNat]
  cases hout : i.outputs.getLast? with
  | none => simp [List.getLast?_eq_none_iff.1 hout]
  | some last =>
    have hpos : i.outputs.length ≠ 0 := by
      intro hnil
      rw [List.length_eq_zero_iff.1 hnil] at hout
      cases hout
    rw [hout, if_neg hpos] at hlast
    have hvalue := Option.some.inj hlast
    rw [Option.elim]
    omega

theorem length_le (h : i.Counts budget range) :
    i.outputs.length ≤ range.stop.toNat - range.start.toNat := by
  have hfrontier := h.toNat_frontier
  rw [h.after.tracker.frontier_toNat] at hfrontier
  cases hout : i.outputs.getLast? with
  | none => simp [List.getLast?_eq_none_iff.1 hout]
  | some last =>
    have hinside := (h.after.tracker.inside last (List.mem_of_getLast? hout)).2
    rw [UInt64.lt_iff_toNat_lt] at hinside
    rw [hout, Option.elim] at hfrontier
    omega

theorem elapsed (h : i.Counts budget range) (n : Nat) : clock n + i.waited = clock n := by
  rw [h.waited, Duration.add_zero]

theorem isExhausted (h : i.Counts budget range) (hclock : ∀ n, clock n < budget.maxDuration)
    (n : Nat) :
    budget.isExhausted i.claimed (clock n + i.waited) = decide (budget.maxRecords ≤ i.claimed) := by
  have htime : ¬ budget.maxDuration ≤ clock n := Nat.not_le.2 (hclock n)
  rw [h.elapsed, Budget.isExhausted, decide_eq_false htime, Bool.or_false]

theorem claim_next (h : i.Counts budget range) (hclock : ∀ n, clock n < budget.maxDuration)
    (hp : i.tracker.nextPosition? = some p) :
    i.claim clock budget p =
      if budget.maxRecords ≤ i.claimed then (false, { i with readings := i.readings + 1 })
      else (true, { i with
        tracker := { i.tracker with lastClaimed := some p }
        claimed := i.claimed + 1
        readings := i.readings + 1 }) := by
  have hafter := h.after.tracker
  obtain ⟨hlt, rfl⟩ := OffsetTracker.nextPosition?_eq_some_iff.1 hp
  have hgranted := hafter.tryClaim_frontier hlt
  simp only [claim, exhausted, read, h.isExhausted hclock]
  by_cases hroom : budget.maxRecords ≤ i.claimed
  · simp [hroom]
  · simp [hroom, RestrictionTracker.tryClaim, hgranted]

theorem emit_next (h : i.Counts budget range) (hclock : ∀ n, clock n < budget.maxDuration)
    (hroom : ¬ budget.maxRecords ≤ i.claimed) (hp : i.tracker.nextPosition? = some p) :
    ({ i with
      tracker := { i.tracker with lastClaimed := some p }
      claimed := i.claimed + 1
      readings := i.readings + 1
      emitted := p :: i.emitted } : Invocation _ _).Counts budget range := by
  have hclaim := h.claim_next hclock hp
  rw [if_neg hroom] at hclaim
  have hafter := h.after.answer clock (.claim p)
  rw [answer, hclaim] at hafter
  have hvalue : p.toNat = range.start.toNat + i.outputs.length := by
    rw [← h.toNat_frontier, (OffsetTracker.nextPosition?_eq_some_iff.1 hp).2]
  have houtputs : (p :: i.emitted).reverse = i.outputs ++ [p] := List.reverse_cons
  refine ⟨⟨?_, ?_, hafter.claimed_le⟩, ?_, h.waited⟩
  · rw [outputs, houtputs]
    exact hafter.tracker
  · rw [outputs, houtputs]
    exact hafter.claimed_eq
  · rw [outputs, houtputs, List.map_append, h.consecutive, List.length_append, List.length_singleton,
      List.range'_1_concat, List.map_singleton, hvalue]

theorem run_claimNext (h : i.Counts budget range) (hclock : ∀ n, clock n < budget.maxDuration)
    (hn : range.stop.toNat ≤ i.tracker.frontier.toNat + n) :
    (i.run clock budget (.claimNext id n)).2.Counts budget range ∧
      (i.run clock budget (.claimNext id n)).2.Spent budget := by
  induction n generalizing i with
  | zero =>
    refine ⟨h, .inr (OffsetTracker.nextPosition?_eq_none_iff.2 ?_)⟩
    rw [← h.after.tracker.range_eq] at hn
    exact UInt64.le_iff_toNat_le.2 hn
  | succ n ih =>
    cases hp : i.tracker.nextPosition? with
    | none =>
      simp only [StepProgram.claimNext, run, answer, hp]
      exact ⟨h, .inr hp⟩
    | some p =>
      by_cases hroom : budget.maxRecords ≤ i.claimed
      · simp only [StepProgram.claimNext, run, answer, hp, h.claim_next hclock hp, if_pos hroom]
        exact ⟨⟨⟨h.after.tracker, h.after.claimed_eq, h.after.claimed_le⟩, h.consecutive, h.waited⟩,
          .inl hroom⟩
      · simp only [StepProgram.claimNext, run, answer, hp, h.claim_next hclock hp, if_neg hroom]
        have hnext := h.emit_next hclock hroom hp
        refine ih hnext ?_
        rw [hnext.toNat_frontier]
        rw [h.toNat_frontier] at hn
        simp only [outputs, List.length_reverse, List.length_cons] at hn ⊢
        omega

theorem length_of_spent (h : i.Counts budget range) (hspent : i.Spent budget) :
    i.outputs.length = min budget.maxRecords.toNat (range.stop.toNat - range.start.toNat) := by
  have hmost := UInt64.le_iff_toNat_le.1 h.after.claimed_le
  have hcount := h.after.claimed_eq
  have hlength := h.length_le
  cases hspent with
  | inl hfull =>
    rw [UInt64.le_iff_toNat_le] at hfull
    omega
  | inr hnone =>
    rw [OffsetTracker.nextPosition?_eq_none_iff, h.after.tracker.range_eq, UInt64.le_iff_toNat_le,
      h.toNat_frontier] at hnone
    omega

theorem exhausted (h : i.Counts budget range) :
    (i.exhausted clock budget).2.Counts budget range :=
  ⟨h.after.exhausted clock, h.consecutive, h.waited⟩

theorem exhausted_or_isDone (h : i.Counts budget range)
    (hclock : ∀ n, clock n < budget.maxDuration) (hspent : i.Spent budget) :
    ((i.exhausted clock budget).1 ||
      RestrictionTracker.isDone (i.exhausted clock budget).2.tracker) = true := by
  rw [Bool.or_eq_true]
  cases hspent with
  | inl hfull => exact .inl ((h.isExhausted hclock _).trans (decide_eq_true hfull))
  | inr hnone => exact .inr (Option.isNone_iff_eq_none.2 hnone)

theorem outputs_of_spent (h : i.Counts budget range) (hspent : i.Spent budget) :
    i.outputs = range.offsets.take budget.maxRecords.toNat := by
  rw [← List.map_inj_right fun _ _ => UInt64.toNat_inj.1, h.consecutive, h.length_of_spent hspent,
    List.map_take, OffsetRange.map_toNat_offsets]
  exact List.ext_getElem (by simp) (by simp)

theorem checkpoint_of_spent (h : i.Counts budget range) (hspent : i.Spent budget) :
    i.tracker.checkpoint.1 = range.behind? budget.maxRecords.toNat := by
  have hfrontier := h.toNat_frontier
  rw [h.length_of_spent hspent] at hfrontier
  rw [OffsetTracker.checkpoint, h.after.tracker.range_eq, OffsetRange.behind?]
  by_cases hmore : budget.maxRecords.toNat < range.stop.toNat - range.start.toNat
  · have hstart : i.tracker.frontier = range.start + UInt64.ofNat budget.maxRecords.toNat := by
      rw [← UInt64.toNat_inj, OffsetRange.toNat_start_add hmore]
      omega
    have hlt : ¬ range.stop ≤ i.tracker.frontier := by
      rw [UInt64.le_iff_toNat_le]
      omega
    rw [if_neg hlt, if_pos hmore, hstart]
  · have hle : range.stop ≤ i.tracker.frontier := by
      rw [UInt64.le_iff_toNat_le]
      omega
    rw [if_pos hle, if_neg hmore]

end Counts

end Invocation

namespace SplittableFunction

variable {μ ε : Type}

/-- Claims the next offset and emits it until a claim is refused: no range has as many offsets as
may be claimed here. -/
def counting (last : StepOutcome) :
    SplittableFunction μ ε UInt64 OffsetTracker OffsetRange UInt64 where
  newTracker _ range := .start range
  step _ memory := do
    StepProgram.claimNext id UInt64.size
    return (.ok last, memory)

theorem run_steps_counting (last : StepOutcome) (p : SplittableProcessor) {clock : Nat → Duration}
    (hclock : ∀ n, clock n < p.budget.maxDuration) (element : ε) (range : OffsetRange) (memory : μ)
    (fuel taken : Nat) :
    ∃ delay steps i,
      (p.steps clock ((counting last).step element) fuel taken (.start (.start range))).run memory =
        (.ok (delay, steps, i), memory) ∧ i.Counts p.budget range ∧ i.Spent p.budget := by
  have hroom : range.stop.toNat ≤ (OffsetTracker.start range).frontier.toNat + UInt64.size :=
    Nat.le_trans (Nat.le_of_lt range.stop.toNat_lt) (Nat.le_add_left _ _)
  obtain ⟨hcounts, hspent⟩ :=
    (Invocation.counts_start p.budget range).run_claimNext hclock hroom
  have hrun : (Invocation.start (.start range)).run clock p.budget
      ((counting last).step element memory) = ((.ok last, memory), _) :=
    Invocation.run_bind clock p.budget (.start (.start range)) (.claimNext id UInt64.size) _
  generalize ((Invocation.start (.start range)).run clock p.budget
    (.claimNext id UInt64.size)).2 = i at hcounts hspent hrun
  have hstep : (p.oneStep clock ((counting last).step element) (.start (.start range))).run memory =
      (.ok (last, i), memory) := by
    simp only [SplittableProcessor.oneStep, ExceptT.run, ExceptT.mk, hrun]
  unfold SplittableProcessor.steps
  rw [Session.run_bind, hstep]
  cases last with
  | stop => exact ⟨_, _, i, rfl, hcounts, hspent⟩
  | resume delay => exact ⟨_, _, i, rfl, hcounts, hspent⟩
  | again =>
    dsimp only
    rw [if_pos (hcounts.exhausted_or_isDone hclock hspent)]
    exact ⟨_, _, _, rfl, hcounts.exhausted, hspent⟩

theorem run_invoke_counting (last : StepOutcome) (p : SplittableProcessor) {clock : Nat → Duration}
    (hclock : ∀ n, clock n < p.budget.maxDuration) (element : ε) (range : OffsetRange) (memory : μ) :
    ∃ result : InvocationResult OffsetRange UInt64,
      (p.invoke (counting last) clock element range).run memory = (.ok result, memory) ∧
        result.outputs = range.offsets.take p.budget.maxRecords.toNat ∧
        result.residual = range.behind? p.budget.maxRecords.toNat := by
  obtain ⟨delay, steps, i, hsteps, hcounts, hspent⟩ :=
    run_steps_counting last p hclock element range memory p.stepLimit 0
  refine ⟨⟨i.outputs, i.tracker.checkpoint.1, delay, i.claimed, steps⟩, ?_,
    hcounts.outputs_of_spent hspent, hcounts.checkpoint_of_spent hspent⟩
  have htracker : ((counting last : SplittableFunction μ ε _ _ _ _).trackerOf range).run memory =
      (.ok (.start range), memory) := rfl
  rw [SplittableProcessor.invoke, Session.run_bind, htracker]
  dsimp only
  rw [Session.run_bind, hsteps]
  rfl

end SplittableFunction

end StreamOperator
