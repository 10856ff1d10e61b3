import StreamOperator.Proofs.Runner.Boundaries
import StreamOperator.Proofs.State.Snapshot

/-! Reads in an open bundle and after its commit. Contexts of all keys stage in one place. What a
function is told of a timer or a cell there is what the schedule and the store in memory tell once
the staging has been applied, and the same as if each granted request had been applied at once. -/

namespace StreamOperator

variable {ι ο ρ σ : Type}

/-- A request in a bundle, with the key and the element of the call that asks it. -/
structure Ask (ι ο : Type) where
  key : Option EncodedKey
  current : Option Frame
  request : Request ι ο

structure Ask.Answered (ι ο : Type) extends Ask ι ο where
  reply : request.Reply

namespace Ask.Answered

def timerOp? (x : Ask.Answered ι ο) : Option TimerOp := x.request.timerOp? x.key x.reply

def cellWrite? (operator : String) (x : Ask.Answered ι ο) : Option CellWrite :=
  x.request.cellWrite? operator x.key x.reply

end Ask.Answered

namespace Staging

theorem writeAll_stageWrites (cells : Cells) (writes : Std.ExtTreeMap Address (Option Bytes))
    (ws : List CellWrite) :
    cells.writeAll (stageWrites writes ws).toList =
      (cells.writeAll writes.toList).writeAll ws := by
  induction ws generalizing writes with
  | nil => rfl
  | cons w ws ih =>
    have hinsert : cells.writeAll (writes.insert w.1 w.2).toList =
        (cells.writeAll writes.toList).write w := by
      ext a : 1
      rw [Cells.get?_writeAll_toList, Cells.get?_write, Cells.get?_writeAll_toList,
        Std.ExtTreeMap.getElem?_insert]
      by_cases h : w.1 = a <;> simp [h]
    exact (ih _).trans (congrArg (Cells.writeAll · ws) hinsert)

end Staging

namespace Context

def turnTo (c : Context ρ σ) (key : Option EncodedKey) (current : Option Frame) : Context ρ σ :=
  { c with key, current }

def readable (accepts : Bytes → Bool) : Option Bytes → Granted (Option Bytes)
  | none => .ok none
  | some content => if accepts content then .ok (some content) else .error (.state .serialization)

variable [SideInputReader ρ]

section Answers

variable [StateStore σ]

def ask (c : Context ρ σ) (s : Staging ι ο) (x : Ask ι ο) : Ask.Answered ι ο × Staging ι ο :=
  let (reply, s) := (c.turnTo x.key x.current).answer s x.request
  ({ x with reply }, s)

def askAll (c : Context ρ σ) (s : Staging ι ο) :
    List (Ask ι ο) → List (Ask.Answered ι ο) × Staging ι ο
  | [] => ([], s)
  | x :: xs =>
    let (answered, s) := c.ask s x
    let (later, s) := c.askAll s xs
    (answered :: later, s)

theorem timerOps_askAll (c : Context ρ σ) (s : Staging ι ο) (xs : List (Ask ι ο)) :
    (c.askAll s xs).2.timerOps =
      s.timerOps ++ (c.askAll s xs).1.filterMap Ask.Answered.timerOp? := by
  induction xs generalizing s with
  | nil => exact (List.append_nil _).symm
  | cons x xs ih =>
    have hfirst : (c.ask s x).2.timerOps = s.timerOps ++ (c.ask s x).1.timerOp?.toList :=
      (c.turnTo x.key x.current).timerOps_answer s x.request
    rw [askAll, ih, hfirst, List.append_assoc]
    cases h : (c.ask s x).1.timerOp? <;> simp [h]

theorem writes_askAll (c : Context ρ σ) (s : Staging ι ο) (xs : List (Ask ι ο)) :
    (c.askAll s xs).2.writes =
      Staging.stageWrites s.writes
        ((c.askAll s xs).1.filterMap (Ask.Answered.cellWrite? c.operator)) := by
  induction xs generalizing s with
  | nil => rfl
  | cons x xs ih =>
    have hfirst : (c.ask s x).2.writes =
        Staging.stageWrites s.writes ((c.ask s x).1.cellWrite? c.operator).toList :=
      (c.turnTo x.key x.current).writes_answer s x.request
    rw [askAll, ih, hfirst]
    cases h : (c.ask s x).1.cellWrite? c.operator <;> simp [h, Staging.stageWrites]

theorem served_askAll (c : Context ρ σ) {s : Staging ι ο} (h : ∀ op ∈ s.timerOps, op.Served)
    (xs : List (Ask ι ο)) : ∀ op ∈ (c.askAll s xs).2.timerOps, op.Served := by
  induction xs generalizing s with
  | nil => exact h
  | cons x xs ih =>
    have hfirst : ∀ op ∈ (c.ask s x).2.timerOps, op.Served :=
      (c.turnTo x.key x.current).served_run h (.perform x.request)
    exact ih hfirst

end Answers

/-- What calls of any key are told in an open bundle is what a schedule and cells hold. -/
structure TellsOf (c : Context ρ Cells) (s : Staging ι ο) (schedule : Schedule) (cells : Cells) :
    Prop where
  timers (key : EncodedKey) (current : Option Frame) (slot : TimerSlot) :
    ((c.turnTo (some key) current).answer s (.timerState slot)).1 = .ok (schedule.state key slot)
  cells (key : EncodedKey) (current : Option Frame) (space : Namespace) (tag : String)
      (accepts : Bytes → Bool) :
    ∃ content, StateStore.get cells ⟨c.operator, key.bytes, space, tag⟩ = .ok content ∧
      ((c.turnTo (some key) current).answer s (.readState space tag accepts)).1 =
        readable accepts content

theorem TellsOf.of_applied {c : Context ρ Cells} {s : Staging ι ο} {schedule : Schedule}
    {cells cells' : Cells} (hstore : c.store = some cells)
    (h : s.Applied c.schedule (some cells) schedule (some cells')) :
    c.TellsOf s schedule cells' where
  timers key current slot := congrArg Except.ok (h.timers key slot).symm
  cells key current space tag accepts := by
    have hread : ((c.turnTo (some key) current).answer s (.readState space tag accepts)).1 =
        (readCell cells ⟨c.operator, key.bytes, space, tag⟩ accepts s).1 := by
      rw [answer, withCell, withKey, turnTo, hstore]
    have hcontent : cellContent cells ⟨c.operator, key.bytes, space, tag⟩ s =
        .ok (cells'.get? ⟨c.operator, key.bytes, space, tag⟩) := by
      cases h.cells with
      | some hcells => exact (hcells _).symm
    refine ⟨_, rfl, ?_⟩
    rw [hread, readCell, hcontent]
    cases cells'.get? ⟨c.operator, key.bytes, space, tag⟩ with
    | none => rfl
    | some content =>
      unfold readable
      dsimp only
      split <;> rfl

def inMemory (c : Context ρ Cells) (schedule : Schedule) (cells : Cells) : Context ρ Cells :=
  { c with schedule, store := some cells }

/-- Whatever calls of any keys have asked in a bundle, to apply what it staged cannot fail, and
reads in the bundle tell what is there then. It comes to the same as to apply each granted
request at once. -/
theorem tellsOf_applied (c : Context ρ Cells) (schedule : Schedule) (cells : Cells)
    (xs : List (Ask ι ο)) :
    ∃ schedule' cells',
      schedule.applyOps ((c.inMemory schedule cells).askAll .empty xs).2.timerOps = .ok schedule' ∧
      StateStore.apply cells ((c.inMemory schedule cells).askAll .empty xs).2.writes.toList =
        (.ok (), cells') ∧
      (c.inMemory schedule cells).TellsOf ((c.inMemory schedule cells).askAll .empty xs).2
        schedule' cells' ∧
      schedule.applyOps
        (((c.inMemory schedule cells).askAll .empty xs).1.filterMap Ask.Answered.timerOp?) =
          .ok schedule' ∧
      cells.writeAll
        (((c.inMemory schedule cells).askAll .empty xs).1.filterMap
          (Ask.Answered.cellWrite? c.operator)) = cells' := by
  have hops := (c.inMemory schedule cells).timerOps_askAll .empty xs
  have hwrites := (c.inMemory schedule cells).writes_askAll .empty xs
  obtain ⟨schedule', hschedule⟩ := Schedule.exists_applyOps
    ((c.inMemory schedule cells).served_askAll Staging.committable_empty.served xs) schedule
  have happlied := Staging.applied_cells _ hschedule (some cells)
  refine ⟨schedule', _, hschedule, rfl, TellsOf.of_applied rfl happlied, ?_, ?_⟩
  · rw [← hschedule, hops]
    rfl
  · rw [hwrites, Staging.writeAll_stageWrites]
    rfl

end Context

end StreamOperator
