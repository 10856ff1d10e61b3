import StreamOperator.Splittable.Tracker

/-! Calls on the tracker of an offset range, in any order. A tracker stands one past the last
position it granted, grants just the positions from there to the stop of its range, and brings the
stop down to where it stands at a checkpoint. -/

namespace StreamOperator

inductive TrackerCall
  | claim (position : UInt64)
  | checkpoint
  | nextPosition
  | isDone

namespace TrackerCall

abbrev Reply : TrackerCall → Type
  | claim _ => Bool
  | checkpoint => Option OffsetRange
  | nextPosition => Option UInt64
  | isDone => Bool

def grant? : (c : TrackerCall) → c.Reply → Option UInt64
  | .claim position, true => some position
  | _, _ => none

end TrackerCall

namespace OffsetTracker

variable {range rest : OffsetRange} {granted : List UInt64} {t t' : OffsetTracker} {p : UInt64}

def answer (t : OffsetTracker) : (c : TrackerCall) → c.Reply × OffsetTracker
  | .claim p => t.tryClaim p
  | .checkpoint => t.checkpoint
  | .nextPosition => (t.nextPosition?, t)
  | .isDone => (t.isDone, t)

def calls (t : OffsetTracker) (cs : List TrackerCall) : OffsetTracker :=
  cs.foldl (fun t c => (t.answer c).2) t

def grants (t : OffsetTracker) : List TrackerCall → List UInt64
  | [] => []
  | c :: cs => (c.grant? (t.answer c).1).toList ++ (t.answer c).2.grants cs

theorem tryClaim_cases (t : OffsetTracker) (p : UInt64) :
    (t.tryClaim p = (true, { t with lastClaimed := some p }) ∧
      t.range.start ≤ p ∧ p < t.range.stop ∧ ∀ last, t.lastClaimed = some last → last < p) ∨
    (t.tryClaim p = (false, t) ∧
      (p < t.range.start ∨ t.range.stop ≤ p ∨ ∃ last, t.lastClaimed = some last ∧ p ≤ last)) := by
  unfold tryClaim
  by_cases hinside : p < t.range.start ∨ t.range.stop ≤ p
  · rw [if_pos hinside]
    grind
  · rw [if_neg hinside]
    cases t.lastClaimed <;> grind

theorem tryClaim_eq_true_iff :
    t.tryClaim p = (true, t') ↔
      t.range.start ≤ p ∧ p < t.range.stop ∧ (∀ last, t.lastClaimed = some last → last < p) ∧
        { t with lastClaimed := some p } = t' := by
  have hcases := t.tryClaim_cases p
  grind

theorem tryClaim_eq_false_iff :
    (t.tryClaim p).1 = false ↔ p < t.range.start ∨ t.range.stop ≤ p ∨
      ∃ last, t.lastClaimed = some last ∧ p ≤ last := by
  have hcases := t.tryClaim_cases p
  grind

theorem range_answer {c : TrackerCall} (hc : c ≠ .checkpoint) : (t.answer c).2.range = t.range := by
  cases c with
  | claim p =>
    show (t.tryClaim p).2.range = t.range
    rcases t.tryClaim_cases p with ⟨hgranted, -⟩ | ⟨hrefused, -⟩
    · rw [hgranted]
    · rw [hrefused]
  | checkpoint => exact absurd rfl hc
  | nextPosition | isDone => rfl

theorem range_calls {cs : List TrackerCall} (hcs : .checkpoint ∉ cs) :
    (t.calls cs).range = t.range := by
  induction cs generalizing t with
  | nil => rfl
  | cons c cs ih =>
    obtain ⟨hc, hcs⟩ := not_or.1 (mt List.mem_cons.2 hcs)
    exact (ih hcs).trans (range_answer (Ne.symm hc))

theorem nextPosition?_eq_none_iff : t.nextPosition? = none ↔ t.range.stop ≤ t.frontier := by
  simp [nextPosition?, UInt64.not_lt]

theorem nextPosition?_eq_some_iff :
    t.nextPosition? = some p ↔ t.frontier < t.range.stop ∧ t.frontier = p := by
  simp [nextPosition?]

theorem isDone_iff : t.isDone = true ↔ t.range.stop ≤ t.frontier :=
  Option.isNone_iff_eq_none.trans nextPosition?_eq_none_iff

theorem checkpoint_eq_none_iff : t.checkpoint.1 = none ↔ t.range.stop ≤ t.frontier := by
  unfold checkpoint
  split <;> simp_all

theorem checkpoint_eq_some_iff :
    t.checkpoint.1 = some rest ↔
      t.frontier < t.range.stop ∧ ⟨t.frontier, t.range.stop⟩ = rest := by
  rw [← UInt64.not_le]
  unfold checkpoint
  split <;> simp_all

theorem checkpoint_of_le (h : t.range.stop ≤ t.frontier) : t.checkpoint = (none, t) := if_pos h

theorem checkpoint_of_lt (h : t.frontier < t.range.stop) :
    t.checkpoint = (some ⟨t.frontier, t.range.stop⟩,
      { t with range := ⟨t.range.start, t.frontier⟩ }) :=
  if_neg (UInt64.not_le.2 h)

theorem start_checkpoint (t : OffsetTracker) : t.checkpoint.2.range.start = t.range.start := by
  unfold checkpoint
  split <;> rfl

theorem stop_checkpoint_le (t : OffsetTracker) : t.checkpoint.2.range.stop ≤ t.range.stop := by
  by_cases h : t.range.stop ≤ t.frontier
  · rw [checkpoint_of_le h]
    exact UInt64.le_refl _
  · rw [checkpoint_of_lt (UInt64.not_le.1 h)]
    exact UInt64.le_of_lt (UInt64.not_le.1 h)

theorem isDone_checkpoint (t : OffsetTracker) : t.checkpoint.2.isDone = true := by
  rw [isDone_iff]
  by_cases h : t.range.stop ≤ t.frontier
  · rw [checkpoint_of_le h]
    exact h
  · rw [checkpoint_of_lt (UInt64.not_le.1 h)]
    exact UInt64.le_refl t.frontier

/-- The tracker of a range after the positions granted. -/
structure After (range : OffsetRange) (granted : List UInt64) (t : OffsetTracker) : Prop where
  range_eq : t.range = range
  lastClaimed_eq : t.lastClaimed = granted.getLast?
  increasing : granted.Pairwise (· < ·)
  inside : ∀ p ∈ granted, range.start ≤ p ∧ p < range.stop

theorem after_start (range : OffsetRange) : (start range).After range [] :=
  ⟨rfl, rfl, .nil, nofun⟩

namespace After

theorem le_last (h : t.After range granted) {last : UInt64} (hlast : granted.getLast? = some last)
    (hp : p ∈ granted) : p ≤ last := by
  obtain ⟨before, rfl⟩ := List.getLast?_eq_some_iff.1 hlast
  rcases List.mem_append.1 hp with hp | hp
  · exact UInt64.le_of_lt ((List.pairwise_append.1 h.increasing).2.2 p hp last (by simp))
  · rw [List.mem_singleton.1 hp]
    exact UInt64.le_refl last

theorem claim (h : t.After range granted) (hclaim : t.tryClaim p = (true, t')) :
    t'.After range (granted ++ [p]) := by
  obtain ⟨hstart, hstop, hlast, rfl⟩ := tryClaim_eq_true_iff.1 hclaim
  rw [h.range_eq] at hstart hstop
  have hnew : ∀ q ∈ granted, q < p := by
    intro q hq
    cases hl : granted.getLast? with
    | none => simp [List.getLast?_eq_none_iff.1 hl] at hq
    | some last =>
      exact UInt64.lt_of_le_of_lt (h.le_last hl hq) (hlast last (h.lastClaimed_eq.trans hl))
  refine ⟨h.range_eq, by simp, ?_, ?_⟩
  · exact List.pairwise_append.2 ⟨h.increasing, List.pairwise_singleton _ _, by simpa using hnew⟩
  · intro q hq
    rcases List.mem_append.1 hq with hq | hq
    · exact h.inside q hq
    · rw [List.mem_singleton.1 hq]
      exact ⟨hstart, hstop⟩

theorem last_lt_stop (h : t.After range granted) {last : UInt64}
    (hlast : t.lastClaimed = some last) : last < range.stop :=
  (h.inside last (List.mem_of_getLast? (h.lastClaimed_eq ▸ hlast))).2

theorem succ_last_lt_size (h : t.After range granted) {last : UInt64}
    (hlast : t.lastClaimed = some last) : last.toNat + 1 < UInt64.size :=
  Nat.lt_of_le_of_lt (UInt64.lt_iff_toNat_lt.1 (h.last_lt_stop hlast)) range.stop.toNat_lt

theorem frontier_toNat (h : t.After range granted) :
    t.frontier.toNat = granted.getLast?.elim range.start.toNat (·.toNat + 1) := by
  rw [← h.lastClaimed_eq, frontier, h.range_eq]
  cases hlast : t.lastClaimed with
  | none => rfl
  | some last =>
    dsimp only [Option.elim]
    rw [UInt64.toNat_add]
    exact Nat.mod_eq_of_lt (h.succ_last_lt_size hlast)

theorem lt_frontier (h : t.After range granted) (hp : p ∈ granted) : p < t.frontier := by
  rw [UInt64.lt_iff_toNat_lt, h.frontier_toNat]
  cases hlast : granted.getLast? with
  | none => simp [List.getLast?_eq_none_iff.1 hlast] at hp
  | some last => exact Nat.lt_succ_of_le (UInt64.le_iff_toNat_le.1 (h.le_last hlast hp))

theorem start_le_frontier (h : t.After range granted) : range.start ≤ t.frontier := by
  rw [UInt64.le_iff_toNat_le, h.frontier_toNat]
  cases hlast : granted.getLast? with
  | none => exact Nat.le_refl _
  | some last =>
    have hinside := (h.inside last (List.mem_of_getLast? hlast)).1
    exact Nat.le_succ_of_le (UInt64.le_iff_toNat_le.1 hinside)

theorem granted_iff (h : t.After range granted) :
    (t.tryClaim p).1 = true ↔ t.frontier ≤ p ∧ p < range.stop := by
  have hstart := h.start_le_frontier
  rw [← Bool.not_eq_false, tryClaim_eq_false_iff, h.lastClaimed_eq, h.range_eq]
  simp only [UInt64.le_iff_toNat_le, UInt64.lt_iff_toNat_lt, h.frontier_toNat] at hstart ⊢
  cases hlast : granted.getLast? with
  | none =>
    simp only [reduceCtorEq, false_and, exists_false, or_false, Option.elim]
    omega
  | some last =>
    rw [hlast, Option.elim] at hstart
    simp only [Option.some.injEq, exists_eq_left', Option.elim]
    omega

theorem tryClaim_frontier (h : t.After range granted) (hlt : t.frontier < t.range.stop) :
    t.tryClaim t.frontier = (true, { t with lastClaimed := some t.frontier }) := by
  refine tryClaim_eq_true_iff.2 ⟨?_, hlt, ?_, rfl⟩
  · rw [h.range_eq]
    exact h.start_le_frontier
  · intro last hlast
    exact h.lt_frontier (List.mem_of_getLast? (h.lastClaimed_eq ▸ hlast))

theorem checkpoint (h : t.After t.range granted) :
    t.checkpoint.2.After t.checkpoint.2.range granted := by
  by_cases hstop : t.range.stop ≤ t.frontier
  · rw [checkpoint_of_le hstop]
    exact h
  · rw [checkpoint_of_lt (UInt64.not_le.1 hstop)]
    exact ⟨rfl, h.lastClaimed_eq, h.increasing, fun p hp => ⟨(h.inside p hp).1, h.lt_frontier hp⟩⟩

theorem checkpoint_cuts (h : t.After t.range granted) (hrest : t.checkpoint.1 = some rest) :
    t.checkpoint.2.range = ⟨t.range.start, rest.start⟩ ∧ rest.stop = t.range.stop ∧
      t.range.start ≤ rest.start ∧ rest.start < rest.stop ∧
      ∀ p ∈ granted, t.range.start ≤ p ∧ p < rest.start := by
  obtain ⟨hlt, rfl⟩ := checkpoint_eq_some_iff.1 hrest
  rw [checkpoint_of_lt hlt]
  exact ⟨rfl, rfl, h.start_le_frontier, hlt, fun p hp => ⟨(h.inside p hp).1, h.lt_frontier hp⟩⟩

theorem answer_of_isDone (h : t.After range granted) (hdone : t.isDone = true) (c : TrackerCall) :
    (t.answer c).2 = t ∧ c.grant? (t.answer c).1 = none := by
  have hstop := isDone_iff.1 hdone
  cases c with
  | claim p =>
    show (t.tryClaim p).2 = t ∧ TrackerCall.grant? (.claim p) (t.tryClaim p).1 = none
    rcases t.tryClaim_cases p with ⟨hgranted, -⟩ | ⟨hrefused, -⟩
    · obtain ⟨hfrontier, hlt⟩ := h.granted_iff.1 (congrArg Prod.fst hgranted)
      rw [← h.range_eq] at hlt
      exact absurd hlt (UInt64.not_lt.2 (UInt64.le_trans hstop hfrontier))
    · rw [hrefused]
      exact ⟨rfl, rfl⟩
  | checkpoint => exact ⟨congrArg Prod.snd (checkpoint_of_le hstop), rfl⟩
  | nextPosition | isDone => exact ⟨rfl, rfl⟩

theorem calls_of_isDone (h : t.After range granted) (hdone : t.isDone = true)
    (cs : List TrackerCall) : t.calls cs = t ∧ t.grants cs = [] := by
  induction cs with
  | nil => exact ⟨rfl, rfl⟩
  | cons c cs ih =>
    obtain ⟨hsame, hnone⟩ := h.answer_of_isDone hdone c
    rw [calls, List.foldl_cons, grants, hsame, hnone]
    exact ih

theorem isDone_iff_grants (h : t.After range granted) :
    t.isDone = true ↔ ∀ later, t.grants later = [] := by
  constructor
  · intro hdone later
    exact (h.calls_of_isDone hdone later).2
  · intro hnone
    rw [isDone_iff, ← UInt64.not_lt]
    intro hlt
    have hone : t.grants [.claim t.frontier] = [t.frontier] := by
      show (TrackerCall.grant? (.claim t.frontier) (t.tryClaim t.frontier).1).toList ++ [] = _
      rw [h.tryClaim_frontier hlt]
      rfl
    rw [hnone] at hone
    cases hone

end After

/-- The tracker of what checkpoints have left of a range, after the positions granted. -/
structure Within (range : OffsetRange) (granted : List UInt64) (t : OffsetTracker) : Prop where
  after : t.After t.range granted
  start_eq : t.range.start = range.start
  stop_le : t.range.stop ≤ range.stop

theorem within_start (range : OffsetRange) : (start range).Within range [] :=
  ⟨after_start range, rfl, UInt64.le_refl _⟩

namespace Within

theorem inside (h : t.Within range granted) (hp : p ∈ granted) :
    range.start ≤ p ∧ p < range.stop := by
  obtain ⟨hstart, hstop⟩ := h.after.inside p hp
  exact ⟨h.start_eq ▸ hstart, UInt64.lt_of_lt_of_le hstop h.stop_le⟩

theorem answer (h : t.Within range granted) (c : TrackerCall) :
    (t.answer c).2.Within range (granted ++ (c.grant? (t.answer c).1).toList) := by
  cases c with
  | claim p =>
    show (t.tryClaim p).2.Within range
      (granted ++ (TrackerCall.grant? (.claim p) (t.tryClaim p).1).toList)
    rcases t.tryClaim_cases p with ⟨hgranted, -⟩ | ⟨hrefused, -⟩
    · rw [hgranted]
      exact ⟨h.after.claim hgranted, h.start_eq, h.stop_le⟩
    · rw [hrefused]
      simpa [TrackerCall.grant?] using h
  | checkpoint =>
    show t.checkpoint.2.Within range (granted ++ [])
    rw [List.append_nil]
    refine ⟨h.after.checkpoint, ?_, ?_⟩
    · rw [start_checkpoint, h.start_eq]
    · exact UInt64.le_trans t.stop_checkpoint_le h.stop_le
  | nextPosition | isDone => simpa [OffsetTracker.answer, TrackerCall.grant?] using h

theorem calls (h : t.Within range granted) (cs : List TrackerCall) :
    (t.calls cs).Within range (granted ++ t.grants cs) := by
  induction cs generalizing t granted with
  | nil => simpa [OffsetTracker.calls, grants] using h
  | cons c cs ih =>
    rw [grants, ← List.append_assoc]
    exact ih (h.answer c)

end Within

theorem within_calls (range : OffsetRange) (cs : List TrackerCall) :
    ((start range).calls cs).Within range ((start range).grants cs) :=
  (within_start range).calls cs

/-- Whatever is asked of the tracker of a range, the positions it grants rise within the range, and
one past the last of them is no overflow. Until a checkpoint the tracker keeps its range. A position
is refused just if it lies outside the range or not behind the last one granted, and the tracker is
done just if it will grant nothing any more. Unless it is done, a checkpoint cuts the range behind
the positions granted; after it nothing is granted and nothing is cut off. -/
theorem grants_of_calls (range : OffsetRange) (cs : List TrackerCall) :
    let t := (start range).calls cs
    let granted := (start range).grants cs
    (∀ last, t.lastClaimed = some last → last.toNat + 1 < UInt64.size) ∧
      granted.Pairwise (· < ·) ∧
      (∀ p ∈ granted, range.start ≤ p ∧ p < range.stop) ∧
      (.checkpoint ∉ cs → t.range = range) ∧
      (∀ p, (t.tryClaim p).1 = false ↔
        p < t.range.start ∨ t.range.stop ≤ p ∨ ∃ last, granted.getLast? = some last ∧ p ≤ last) ∧
      (t.isDone = true ↔ ∀ later, t.grants later = []) ∧
      (∀ rest, t.checkpoint.1 = some rest →
        t.checkpoint.2.range = ⟨t.range.start, rest.start⟩ ∧ rest.stop = t.range.stop ∧
          t.range.start ≤ rest.start ∧ rest.start < rest.stop ∧
          ∀ p ∈ granted, t.range.start ≤ p ∧ p < rest.start) ∧
      (t.checkpoint.1 = none ↔ t.isDone = true) ∧
      ∀ later, t.checkpoint.2.grants later = [] ∧
        (t.checkpoint.2.calls later).checkpoint.1 = none := by
  intro t granted
  have h : t.Within range granted := within_calls range cs
  refine ⟨?_, h.after.increasing, fun p => h.inside, range_calls, ?_, h.after.isDone_iff_grants,
    ?_, ?_, ?_⟩
  · intro last hlast
    exact h.after.succ_last_lt_size hlast
  · intro p
    rw [tryClaim_eq_false_iff, h.after.lastClaimed_eq]
  · intro rest hrest
    exact h.after.checkpoint_cuts hrest
  · exact checkpoint_eq_none_iff.trans isDone_iff.symm
  · intro later
    obtain ⟨hsame, hnone⟩ := h.after.checkpoint.calls_of_isDone t.isDone_checkpoint later
    rw [hsame]
    exact ⟨hnone, checkpoint_eq_none_iff.2 (isDone_iff.1 t.isDone_checkpoint)⟩

/-- A range up to the greatest word, whose positions are granted with a gap. -/
example :
    let t := (start ⟨18446744073709551610, 18446744073709551615⟩).calls
      [.claim 18446744073709551611, .isDone, .claim 18446744073709551610]
    t.grants [.claim 18446744073709551614, .nextPosition] = [18446744073709551614] ∧
      t.checkpoint.1 = some ⟨18446744073709551612, 18446744073709551615⟩ ∧
      t.checkpoint.2.grants [.claim 18446744073709551612, .checkpoint] = [] := by
  decide

end OffsetTracker

end StreamOperator
