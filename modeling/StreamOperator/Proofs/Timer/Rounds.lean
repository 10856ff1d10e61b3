import StreamOperator.Proofs.Timer.Schedule

/-! Firing in rounds. A round takes what is due off the schedule, fires it timer by timer, and does
what the callbacks asked for to the schedule only after the last of them. Beside it stands the
schedule as its changes come one by one, a timer going as it fires and an operation taking effect
as it is asked for. The two agree on a timer unless a callback touches it while it waits for its
turn in a round. -/

namespace StreamOperator

/-- A timer that fired, and the timer operations of its callback. -/
structure Firing where
  fired : FiredTimer
  ops : List TimerOp

inductive TimerMove
  | fire (fired : FiredTimer)
  | op (op : TimerOp)
deriving DecidableEq

def TimerMove.leave (key : EncodedKey) (slot : TimerSlot) (before : Option Timer) :
    TimerMove → Option Timer
  | fire f => if f.isAt key slot then none else before
  | op o => o.leave key slot before

def Firing.moves (f : Firing) : List TimerMove := .fire f.fired :: f.ops.map .op

/-- The timer of a slot after changes that come one by one. -/
def Schedule.after (s : Schedule) (moves : List TimerMove) (key : EncodedKey) (slot : TimerSlot) :
    Option Timer :=
  moves.foldl (fun t m => m.leave key slot t) (s.timer? key slot)

theorem Schedule.after_append (s : Schedule) (xs ys : List TimerMove) (key : EncodedKey)
    (slot : TimerSlot) :
    s.after (xs ++ ys) key slot = ys.foldl (fun t m => m.leave key slot t) (s.after xs key slot) :=
  List.foldl_append

theorem TimerOp.foldl_leave_of_not_touches {key : EncodedKey} {slot : TimerSlot}
    {ops : List TimerOp} (h : ∀ op ∈ ops, op.touches key slot = false) (before : Option Timer) :
    ops.foldl (fun t op => op.leave key slot t) before = before := by
  induction ops with
  | nil => rfl
  | cons op ops ih =>
    obtain ⟨hop, hops⟩ := List.forall_mem_cons.1 h
    rw [List.foldl_cons, leave_of_not_touches hop]
    exact ih hops

inductive Rounds (w : Instant) : Schedule → List (List Firing) → Schedule → Prop
  | nil (s : Schedule) : Rounds w s [] s
  | cons {s m s' : Schedule} {round : List Firing} {rest : List (List Firing)}
      (due : round.map Firing.fired = (s.popDue w).1)
      (staged : (s.popDue w).2.applyOps (round.flatMap Firing.ops) = .ok m)
      (later : Rounds w m rest s') : Rounds w s (round :: rest) s'

/-- Rounds of which the last may have been cut short. -/
inductive Fires (w : Instant) : Schedule → List (List Firing) → Prop
  | stop (s : Schedule) : Fires w s []
  | cut {s : Schedule} {round : List Firing} (due : round.map Firing.fired <+: (s.popDue w).1) :
      Fires w s [round]
  | cons {s m : Schedule} {round : List Firing} {rest : List (List Firing)}
      (due : round.map Firing.fired = (s.popDue w).1)
      (staged : (s.popDue w).2.applyOps (round.flatMap Firing.ops) = .ok m)
      (later : Fires w m rest) : Fires w s (round :: rest)

def Settles (w : Instant) (s : Schedule) (rounds : List (List Firing)) (s' : Schedule) : Prop :=
  ∃ m, Rounds w s rounds m ∧ m.popDue w = ([], s')

/-- No callback of a round touches the timer of a slot while it waits for its turn. -/
def Spared (key : EncodedKey) (slot : TimerSlot) (round : List Firing) : Prop :=
  ∀ before f after, round = before ++ f :: after → f.fired.isAt key slot = true →
    ∀ op ∈ before.flatMap Firing.ops, op.touches key slot = false

section

variable {w : Instant} {s m s' : Schedule} {round before after : List Firing} {f : Firing}
  {rounds done rest : List (List Firing)} {key : EncodedKey} {slot : TimerSlot}

theorem Rounds.consistent (h : Rounds w s rounds s') (hs : s.Consistent) : s'.Consistent := by
  induction h with
  | nil => exact hs
  | cons due staged later ih => exact ih ((hs.popDue w).applyOps staged)

theorem Rounds.fires (h : Rounds w s rounds s') : Fires w s rounds := by
  induction h with
  | nil => exact .stop _
  | cons due staged later ih => exact .cons due staged ih

theorem Settles.cons (due : round.map Firing.fired = (s.popDue w).1)
    (staged : (s.popDue w).2.applyOps (round.flatMap Firing.ops) = .ok m)
    (later : Settles w m rest s') : Settles w s (round :: rest) s' := by
  obtain ⟨m', hrounds, hend⟩ := later
  exact ⟨m', .cons due staged hrounds, hend⟩

theorem Settles.fires (h : Settles w s rounds s') : Fires w s rounds := by
  obtain ⟨m, hrounds, -⟩ := h
  exact hrounds.fires

theorem Settles.consistent (h : Settles w s rounds s') (hs : s.Consistent) : s'.Consistent := by
  obtain ⟨m, hrounds, hend⟩ := h
  have hpop := (hrounds.consistent hs).popDue w
  rw [hend] at hpop
  exact hpop

theorem Settles.later (h : Settles w s rounds s') (hs : s.Consistent) : s'.Later w := by
  obtain ⟨m, hrounds, hend⟩ := h
  have hlater := (hrounds.consistent hs).later_popDue w
  rw [hend] at hlater
  exact hlater

theorem foldl_moves_of_not_isAt {fs : List Firing} (h : ∀ f ∈ fs, f.fired.isAt key slot = false)
    (t : Option Timer) :
    (fs.flatMap Firing.moves).foldl (fun t m => m.leave key slot t) t =
      (fs.flatMap Firing.ops).foldl (fun t op => op.leave key slot t) t := by
  induction fs generalizing t with
  | nil => rfl
  | cons f fs ih =>
    obtain ⟨hf, hfs⟩ := List.forall_mem_cons.1 h
    have hmoves : f.moves.foldl (fun t m => m.leave key slot t) t =
        f.ops.foldl (fun t op => op.leave key slot t) t := by
      rw [Firing.moves, List.foldl_cons, TimerMove.leave, hf, List.foldl_map]
      rfl
    rw [List.flatMap_cons, List.flatMap_cons, List.foldl_append, List.foldl_append, hmoves, ih hfs]

theorem timer?_round (hs : s.Consistent)
    (staged : (s.popDue w).2.applyOps (round.flatMap Firing.ops) = .ok m) :
    m.timer? key slot =
      (round.flatMap Firing.ops).foldl (fun t op => op.leave key slot t)
        ((s.timer? key slot).filter (w < ·.target)) := by
  rw [Schedule.timer?_applyOps staged, Schedule.timer?_popDue hs]

theorem filter_fired_round (hs : s.Consistent) (due : round.map Firing.fired = (s.popDue w).1) :
    (round.map Firing.fired).filter (FiredTimer.isAt key slot) =
      ((s.timer? key slot).filter (·.target ≤ w)).toList.map (⟨key, ·⟩) := by
  rw [due, Schedule.filter_popDue hs]

theorem not_isAt_of_due (hs : s.Consistent)
    (due : (before ++ f :: after).map Firing.fired <+: (s.popDue w).1)
    (hf : f.fired.isAt key slot = true) :
    (∀ g ∈ before, g.fired.isAt key slot = false) ∧ ∀ g ∈ after, g.fired.isAt key slot = false := by
  have hpairwise := List.pairwise_map.1 ((hs.pairwise_popDue w).sublist due.sublist)
  obtain ⟨-, hafter, hbefore⟩ := List.pairwise_append.1 hpairwise
  simp only [FiredTimer.isAt, decide_eq_true_eq, decide_eq_false_iff_not] at hf ⊢
  obtain ⟨rfl, rfl⟩ := hf
  refine ⟨fun g hg => hbefore g hg f List.mem_cons_self, fun g hg h => ?_⟩
  exact (List.pairwise_cons.1 hafter).1 g hg ⟨h.1.symm, h.2.symm⟩

theorem timer?_of_due (hs : s.Consistent)
    (due : (before ++ f :: after).map Firing.fired <+: (s.popDue w).1) :
    s.timer? f.fired.key f.fired.timer.slot = some f.fired.timer ∧ f.fired.timer.target ≤ w := by
  refine (Schedule.mem_popDue hs).1 (due.subset ?_)
  simp

theorem filter_later_of_not_isAt (hs : s.Consistent) (due : round.map Firing.fired = (s.popDue w).1)
    (h : ∀ f ∈ round, f.fired.isAt key slot = false) :
    (s.timer? key slot).filter (w < ·.target) = s.timer? key slot := by
  have hfired : (round.map Firing.fired).filter (FiredTimer.isAt key slot) = _ :=
    filter_fired_round hs due
  rw [List.filter_eq_nil_iff.2 (by simpa using h)] at hfired
  cases ht : s.timer? key slot with
  | none => rfl
  | some t =>
    have hw : w < t.target := by simpa [ht] using hfired
    simp [hw]

theorem foldl_moves_round (hs : s.Consistent) (due : round.map Firing.fired = (s.popDue w).1)
    (staged : (s.popDue w).2.applyOps (round.flatMap Firing.ops) = .ok m)
    (hspared : Spared key slot round) :
    (round.flatMap Firing.moves).foldl (fun t m => m.leave key slot t) (s.timer? key slot) =
      m.timer? key slot := by
  rw [timer?_round hs staged]
  by_cases hfires : ∃ f ∈ round, f.fired.isAt key slot = true
  · -- Before the firing nothing touches the slot, so it makes no difference that the timer is still
    -- there for one side and gone from the start for the other.
    obtain ⟨f, hmem, hf⟩ := hfires
    obtain ⟨before, after, rfl⟩ := List.append_of_mem hmem
    have hprefix : (before ++ f :: after).map Firing.fired <+: (s.popDue w).1 :=
      due ▸ List.prefix_refl _
    obtain ⟨hbefore, hafter⟩ := not_isAt_of_due hs hprefix hf
    have htimer := timer?_of_due hs hprefix
    have huntouched := hspared before f after rfl hf
    have hfire : f.moves.foldl (fun t m => m.leave key slot t) (s.timer? key slot) =
        f.ops.foldl (fun t op => op.leave key slot t) none := by
      rw [Firing.moves, List.foldl_cons, TimerMove.leave, hf, List.foldl_map]
      rfl
    have hgone : (s.timer? key slot).filter (w < ·.target) = none := by
      simp only [FiredTimer.isAt, decide_eq_true_eq] at hf
      rw [← hf.1, ← hf.2, htimer.1, Option.filter_some, if_neg (by simpa using htimer.2)]
    simp only [List.flatMap_append, List.flatMap_cons, List.foldl_append]
    rw [foldl_moves_of_not_isAt hbefore, foldl_moves_of_not_isAt hafter,
      TimerOp.foldl_leave_of_not_touches huntouched, TimerOp.foldl_leave_of_not_touches huntouched,
      hfire, hgone]
  · have hnone : ∀ f ∈ round, f.fired.isAt key slot = false := by
      simpa using hfires
    rw [foldl_moves_of_not_isAt hnone, filter_later_of_not_isAt hs due hnone]

theorem Fires.exists_rounds (h : Fires w s (done ++ round :: rest)) :
    ∃ s', Rounds w s done s' ∧ round.map Firing.fired <+: (s'.popDue w).1 := by
  induction done generalizing s with
  | nil =>
    cases h with
    | cut due => exact ⟨s, .nil s, due⟩
    | cons due staged later => exact ⟨s, .nil s, due ▸ List.prefix_refl _⟩
  | cons first done ih =>
    generalize hrest : done ++ round :: rest = later at h
    rw [List.cons_append, hrest] at h
    cases h with
    | cut due => simp at hrest
    | cons due staged later =>
      subst hrest
      obtain ⟨s', hrounds, hround⟩ := ih later
      exact ⟨s', .cons due staged hrounds, hround⟩

theorem Rounds.after_eq (h : Rounds w s rounds s') (hs : s.Consistent)
    (hspared : ∀ round ∈ rounds, Spared key slot round) :
    s.after (rounds.flatten.flatMap Firing.moves) key slot = s'.timer? key slot := by
  induction h with
  | nil => rfl
  | cons due staged later ih =>
    obtain ⟨hround, hrest⟩ := List.forall_mem_cons.1 hspared
    rw [← ih ((hs.popDue w).applyOps staged) hrest, List.flatten_cons, List.flatMap_append,
      Schedule.after_append, Schedule.after, foldl_moves_round hs due staged hround]
    rfl

/-- Where earlier rounds spared the slot of a firing, the firing is on the schedule of changes that
come one by one exactly if no callback before it in its round touched the slot, or the last to do
so set it to the same target. -/
theorem Rounds.after_eq_some_iff (h : Rounds w s done s') (hs : s.Consistent)
    (due : (before ++ f :: after).map Firing.fired <+: (s'.popDue w).1)
    (hspared : ∀ round ∈ done, Spared f.fired.key f.fired.timer.slot round) :
    (∃ t, s.after ((done.flatten ++ before).flatMap Firing.moves) f.fired.key f.fired.timer.slot =
        some t ∧ t.target = f.fired.timer.target) ↔
      ∀ op, TimerOp.lastOn? (before.flatMap Firing.ops) f.fired.key f.fired.timer.slot = some op →
        ∃ t, op = .set f.fired.key t ∧ t.target = f.fired.timer.target := by
  have hself : f.fired.isAt f.fired.key f.fired.timer.slot = true := by simp [FiredTimer.isAt]
  have hbefore := (not_isAt_of_due (h.consistent hs) due hself).1
  rw [List.flatMap_append, Schedule.after_append, h.after_eq hs hspared,
    foldl_moves_of_not_isAt hbefore, (timer?_of_due (h.consistent hs) due).1]
  simp only [TimerOp.foldl_leave_eq_some_iff]
  -- The round began with the timer in its slot, so the last operation on the slot since decides.
  cases hlast : TimerOp.lastOn? (before.flatMap Firing.ops) f.fired.key f.fired.timer.slot with
  | none => simp
  | some op =>
    have htouches : op.touches f.fired.key f.fired.timer.slot = true :=
      (List.mem_filter.1 (List.mem_of_getLast? hlast)).2
    simp only [reduceCtorEq, false_and, Option.some.injEq, false_or, forall_eq']
    constructor
    · rintro ⟨t, ⟨hop, -⟩, ht⟩
      exact ⟨t, hop, ht⟩
    · rintro ⟨t, rfl, ht⟩
      simp only [TimerOp.touches, true_and, decide_eq_true_eq] at htouches
      exact ⟨t, ⟨rfl, htouches⟩, ht⟩

theorem Rounds.quiet (h : Rounds w s rounds s') (hs : s.Consistent)
    (huntouched : ∀ op ∈ rounds.flatten.flatMap Firing.ops, op.touches key slot = false)
    (hlater : ∀ t, s.timer? key slot = some t → w < t.target) :
    (rounds.flatten.map Firing.fired).filter (FiredTimer.isAt key slot) = [] ∧
      s'.timer? key slot = s.timer? key slot := by
  induction h with
  | nil => exact ⟨rfl, rfl⟩
  | @cons s m s' round rest due staged later ih =>
    rw [List.flatten_cons, List.flatMap_append, List.forall_mem_append] at huntouched
    have hstays : m.timer? key slot = s.timer? key slot := by
      rw [timer?_round hs staged, TimerOp.foldl_leave_of_not_touches huntouched.1]
      cases ht : s.timer? key slot with
      | none => rfl
      | some t => simp [hlater t ht]
    have hround : (round.map Firing.fired).filter (FiredTimer.isAt key slot) = [] := by
      rw [filter_fired_round hs due]
      cases ht : s.timer? key slot with
      | none => rfl
      | some t => simp [hlater t ht]
    obtain ⟨hrest, hend⟩ := ih ((hs.popDue w).applyOps staged) huntouched.2 (hstays ▸ hlater)
    rw [List.flatten_cons, List.map_append, List.filter_append, hround, hrest]
    exact ⟨rfl, hend.trans hstays⟩

theorem Settles.fires_once (h : Settles w s rounds s') (hs : s.Consistent) {t : Timer}
    (ht : s.timer? key slot = some t) (hw : t.target ≤ w)
    (huntouched : ∀ op ∈ rounds.flatten.flatMap Firing.ops, op.touches key slot = false) :
    (rounds.flatten.map Firing.fired).filter (FiredTimer.isAt key slot) = [⟨key, t⟩] := by
  obtain ⟨m, hrounds, hend⟩ := h
  cases hrounds with
  | nil =>
    have hdue : (⟨key, t⟩ : FiredTimer) ∈ (s.popDue w).1 := by
      rw [Schedule.mem_popDue hs, hs.slot _ _ _ ht]
      exact ⟨ht, hw⟩
    rw [hend] at hdue
    cases hdue
  | @cons _ m _ round rest due staged later =>
    rw [List.flatten_cons, List.flatMap_append, List.forall_mem_append] at huntouched
    have hgone : m.timer? key slot = none := by
      rw [timer?_round hs staged, TimerOp.foldl_leave_of_not_touches huntouched.1, ht]
      simp [hw]
    obtain ⟨hrest, -⟩ := later.quiet ((hs.popDue w).applyOps staged) huntouched.2 (by simp [hgone])
    rw [List.flatten_cons, List.map_append, List.filter_append, filter_fired_round hs due, hrest,
      ht]
    simp [hw]

theorem Settles.timer?_eq_some (h : Settles w s rounds s') (hs : s.Consistent) {t : Timer}
    (ht : s.timer? key slot = some t) (hw : w < t.target)
    (huntouched : ∀ op ∈ rounds.flatten.flatMap Firing.ops, op.touches key slot = false) :
    s'.timer? key slot = some t := by
  obtain ⟨m, hrounds, hend⟩ := h
  obtain ⟨-, hstays⟩ := hrounds.quiet hs huntouched (by simpa [ht] using hw)
  have hlast := Schedule.timer?_popDue (hrounds.consistent hs) w key slot
  rw [hend, hstays, ht, Option.filter_some, if_pos (by simpa using hw)] at hlast
  exact hlast

def Schedule.dueAt (s : Schedule) (w : Instant) (key : EncodedKey) (slot : TimerSlot) : Nat :=
  if (s.timer? key slot).any (·.target ≤ w) then 1 else 0

def TimerOp.setsDue (w : Instant) (key : EncodedKey) (slot : TimerSlot) : TimerOp → Bool
  | .set k t => k = key ∧ t.slot = slot ∧ t.target ≤ w
  | .delete .. => false

theorem countP_fired_round (hs : s.Consistent) (due : round.map Firing.fired = (s.popDue w).1) :
    (round.map Firing.fired).countP (FiredTimer.isAt key slot) = s.dueAt w key slot := by
  rw [List.countP_eq_length_filter, filter_fired_round hs due, Schedule.dueAt]
  cases ht : s.timer? key slot with
  | none => rfl
  | some t => by_cases hw : t.target ≤ w <;> simp [Option.filter, hw]

theorem dueAt_round_le (hs : s.Consistent)
    (staged : (s.popDue w).2.applyOps (round.flatMap Firing.ops) = .ok m) :
    m.dueAt w key slot ≤ (round.flatMap Firing.ops).countP (TimerOp.setsDue w key slot) := by
  unfold Schedule.dueAt
  split
  next hdue =>
    rw [timer?_round hs staged] at hdue
    obtain ⟨t, ht, hw⟩ := (Option.any_eq_true _ _).1 hdue
    -- What the watermark left of the schedule is not due, so an operation of the round made it so.
    rcases (TimerOp.foldl_leave_eq_some_iff _).1 ht with ⟨-, hkept⟩ | ⟨hlast, hslot⟩
    · have hlater : w < t.target := by simpa using (Option.filter_eq_some_iff.1 hkept).2
      exact absurd hlater (not_lt.2 (of_decide_eq_true hw))
    · refine List.countP_pos_iff.2 ⟨.set key t, ?_, ?_⟩
      · exact (List.mem_filter.1 (List.mem_of_getLast? hlast)).1
      · simpa [TimerOp.setsDue, hslot] using hw
  next => exact Nat.zero_le _

theorem Rounds.countP_fired_le (h : Rounds w s rounds s') (hs : s.Consistent) :
    (rounds.flatten.map Firing.fired).countP (FiredTimer.isAt key slot) + s'.dueAt w key slot ≤
      s.dueAt w key slot +
        (rounds.flatten.flatMap Firing.ops).countP (TimerOp.setsDue w key slot) := by
  induction h with
  | nil => simp
  | @cons s m s' round rest due staged later ih =>
    have hround : (round.map Firing.fired).countP (FiredTimer.isAt key slot) = _ :=
      countP_fired_round hs due
    have hnext : m.dueAt w key slot ≤ _ := dueAt_round_le hs staged
    have hrest := ih ((hs.popDue w).applyOps staged)
    simp only [List.flatten_cons, List.map_append, List.flatMap_append, List.countP_append]
    omega

end

end StreamOperator
