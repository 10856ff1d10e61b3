import StreamOperator.Function.Context
import StreamOperator.Proofs.Session
import StreamOperator.Proofs.Timer.Schedule

/-! Reads through what a bundle has staged. A function cannot tell what was staged before in its
bundle from what a bundle before its own has committed: it is given the same answers, and stages
the same on top. -/

namespace StreamOperator

variable {μ ι ο α ρ σ : Type}

instance : Append (Staging ι ο) where
  append p s := {
    emitted := s.emitted ++ p.emitted
    pushedBack := p.pushedBack ++ s.pushedBack
    residuals := p.residuals ++ s.residuals
    timerOps := p.timerOps ++ s.timerOps
    writes := p.writes ∪ s.writes
    firedTimers := p.firedTimers + s.firedTimers
    failure := p.failure.or s.failure }

namespace Staging

variable (p s : Staging ι ο)

@[simp] theorem emitted_append : (p ++ s).emitted = s.emitted ++ p.emitted := rfl

@[simp] theorem pushedBack_append : (p ++ s).pushedBack = p.pushedBack ++ s.pushedBack := rfl

@[simp] theorem residuals_append : (p ++ s).residuals = p.residuals ++ s.residuals := rfl

@[simp] theorem timerOps_append : (p ++ s).timerOps = p.timerOps ++ s.timerOps := rfl

@[simp] theorem writes_append : (p ++ s).writes = p.writes ∪ s.writes := rfl

@[simp] theorem firedTimers_append : (p ++ s).firedTimers = p.firedTimers + s.firedTimers := rfl

@[simp] theorem failure_append : (p ++ s).failure = p.failure.or s.failure := rfl

@[simp] theorem outputs_append : (p ++ s).outputs = p.outputs ++ s.outputs := by
  rw [outputs, emitted_append, List.reverse_append]
  rfl

theorem append_eq : p ++ s = {
    emitted := s.emitted ++ p.emitted
    pushedBack := p.pushedBack ++ s.pushedBack
    residuals := p.residuals ++ s.residuals
    timerOps := p.timerOps ++ s.timerOps
    writes := p.writes ∪ s.writes
    firedTimers := p.firedTimers + s.firedTimers
    failure := p.failure.or s.failure } := rfl

theorem append_empty : p ++ empty = p := by
  have hwrites : p.writes ∪ (∅ : Std.ExtTreeMap Address (Option Bytes)) = p.writes := by
    apply Std.ExtTreeMap.ext_getElem?
    intro a
    rw [Std.ExtTreeMap.getElem?_union, Std.ExtTreeMap.getElem?_empty, Option.none_or]
  rw [append_eq, empty]
  dsimp only
  rw [List.nil_append, List.append_nil, List.append_nil, List.append_nil, hwrites, Nat.add_zero,
    Option.or_none]

theorem emit_append (channel : Channel) (e : Element ο) :
    (p ++ s).emit channel e = p ++ s.emit channel e := rfl

theorem addResidual_append (r : Residual ι) :
    (p ++ s).addResidual r = p ++ s.addResidual r := by
  simp only [append_eq, addResidual, List.append_assoc]

theorem addTimerOp_append (op : TimerOp) : (p ++ s).addTimerOp op = p ++ s.addTimerOp op := by
  simp only [append_eq, addTimerOp, List.append_assoc]

theorem write_append (a : Address) (content : Option Bytes) :
    (p ++ s).write a content = p ++ s.write a content := by
  have hwrites : (p.writes ∪ s.writes).insert a content = p.writes ∪ s.writes.insert a content := by
    apply Std.ExtTreeMap.ext_getElem?
    intro b
    simp only [Std.ExtTreeMap.getElem?_union, Std.ExtTreeMap.getElem?_insert]
    split <;> rfl
  simp only [append_eq, write, hwrites]

theorem fail_append (e : ExecutionError) : (p ++ s).fail e = p ++ s.fail e := by
  simp only [append_eq, fail, Option.or_assoc]

theorem timerState?_append (key : EncodedKey) (slot : TimerSlot) :
    (p ++ s).timerState? key slot = (s.timerState? key slot).or (p.timerState? key slot) := by
  rw [timerState?, timerOps_append, List.reverse_append, List.findSome?_append]
  rfl

def onTop (p : Staging ι ο) (x : α × Staging ι ο) : α × Staging ι ο := (x.1, p ++ x.2)

end Staging

/-- What a bundle staged, made part of a schedule and a store: every read then finds what it finds
through the staging before. -/
structure Staging.Applied [StateStore σ] (p : Staging ι ο) (schedule : Schedule) (store : Option σ)
    (schedule' : Schedule) (store' : Option σ) : Prop where
  timers : ∀ key slot,
    schedule'.state key slot = (p.timerState? key slot).getD (schedule.state key slot)
  cells : Option.Rel (fun s s' => ∀ a, StateStore.get s' a = Context.cellContent s a p) store store'

structure Staging.AppliedFor [StateStore σ] (key : Option EncodedKey) (p : Staging ι ο)
    (schedule : Schedule) (store : Option σ) (schedule' : Schedule) (store' : Option σ) : Prop where
  timers : ∀ k ∈ key, ∀ slot,
    schedule'.state k slot = (p.timerState? k slot).getD (schedule.state k slot)
  cells : Option.Rel (fun s s' => ∀ k ∈ key, ∀ a, a.key = k.bytes →
    StateStore.get s' a = Context.cellContent s a p) store store'

theorem Staging.Applied.appliedFor [StateStore σ] {p : Staging ι ο} {schedule schedule' : Schedule}
    {store store' : Option σ} (h : p.Applied schedule store schedule' store')
    (key : Option EncodedKey) : p.AppliedFor key schedule store schedule' store' where
  timers k _ := h.timers k
  cells := by
    cases h.cells with
    | some hcells => exact .some fun _ _ a _ => hcells a
    | none => exact .none

namespace Context

variable {c : Context ρ σ} {p s : Staging ι ο} {schedule : Schedule} {store : Option σ}

theorem refuse_append (e : ExecutionError) :
    (refuse (p ++ s) e : Answer ι ο α) = p.onTop (refuse s e) := by
  rw [refuse, Staging.fail_append]
  rfl

theorem withFrame_append {op : ContextOperation} {f g : Frame → Answer ι ο α}
    (h : ∀ frame, f frame = p.onTop (g frame)) :
    c.withFrame op (p ++ s) f = p.onTop ({ c with schedule, store }.withFrame op s g) := by
  unfold withFrame
  dsimp only
  cases c.current with
  | none => exact refuse_append _
  | some frame => exact h frame

theorem withKey_append {op : ContextOperation} {f g : EncodedKey → Answer ι ο α}
    (h : ∀ key ∈ c.key, f key = p.onTop (g key)) :
    c.withKey op (p ++ s) f = p.onTop ({ c with schedule, store }.withKey op s g) := by
  unfold withKey
  dsimp only
  cases hkey : c.key with
  | none => exact refuse_append _
  | some key => exact h key hkey

variable [StateStore σ]

theorem withCell_append (hp : p.AppliedFor c.key c.schedule c.store schedule store)
    {op : ContextOperation} {space : Namespace} {tag : String} {f g : σ → Address → Answer ι ο α}
    (h : ∀ s s' a, StateStore.get s' a = cellContent s a p → f s a = p.onTop (g s' a)) :
    c.withCell op space tag (p ++ s) f =
      p.onTop ({ c with schedule, store }.withCell op space tag s g) := by
  unfold withCell
  apply withKey_append
  intro key hkey
  have hcells := hp.cells
  revert hcells
  dsimp only
  cases c.store with
  | none =>
    intro hcells
    cases hcells
    exact refuse_append _
  | some cells =>
    intro hcells
    cases hcells with
    | some hcells => exact h _ _ _ (hcells key hkey _ rfl)

theorem readCell_append {cells cells' : σ} {a : Address}
    (h : StateStore.get cells' a = cellContent cells a p) (accepts : Bytes → Bool) :
    readCell cells a accepts (p ++ s) = p.onTop (readCell cells' a accepts s) := by
  have hcontent : cellContent cells a (p ++ s) = cellContent cells' a s := by
    unfold cellContent at h ⊢
    rw [Staging.writes_append, Std.ExtTreeMap.getElem?_union]
    cases s.writes[a]? with
    | some staged => rfl
    | none => exact h.symm
  unfold readCell
  rw [hcontent]
  cases cellContent cells' a s with
  | error e => exact refuse_append _
  | ok content? =>
    cases content? with
    | none => rfl
    | some content =>
      dsimp only
      split
      · rfl
      · exact refuse_append _

variable [SideInputReader ρ]

theorem answer_append (hp : p.AppliedFor c.key c.schedule c.store schedule store)
    (s : Staging ι ο) (q : Request ι ο) :
    c.answer (p ++ s) q = p.onTop ({ c with schedule, store }.answer s q) := by
  cases q with
  | timestamp | window | currentKey | inputWatermark | budget => rfl
  | outputWhole e => exact congrArg (Prod.mk ()) (p.emit_append s _ _)
  | abort e => exact congrArg (Prod.mk ()) (p.fail_append s e)
  | processingTime => exact refuse_append _
  | output value =>
    exact withFrame_append fun frame => congrArg (Prod.mk _) (p.emit_append s _ _)
  | outputAt value time =>
    exact withFrame_append fun frame => congrArg (Prod.mk _) (p.emit_append s _ _)
  | outputTo tag value =>
    unfold answer
    dsimp only
    cases c.outputs.channel? tag with
    | none => exact refuse_append _
    | some channel =>
      exact withFrame_append fun frame => congrArg (Prod.mk _) (p.emit_append s _ _)
  | sideValues index =>
    unfold answer
    dsimp only
    cases c.views[index]? with
    | none => exact refuse_append _
    | some view => rfl
  | setTimer timer =>
    unfold answer
    dsimp only
    split
    · exact refuse_append _
    · exact withKey_append fun key _ => congrArg (Prod.mk _) (p.addTimerOp_append s _)
  | deleteTimer slot =>
    exact withKey_append fun key _ => congrArg (Prod.mk _) (p.addTimerOp_append s _)
  | timerState slot =>
    apply withKey_append
    intro key hkey
    dsimp only
    rw [Staging.timerState?_append, hp.timers key hkey]
    cases s.timerState? key slot <;> rfl
  | readState space tag accepts =>
    exact withCell_append hp fun cells cells' a h => readCell_append h accepts
  | writeState space tag content =>
    unfold answer
    apply withCell_append hp
    intro _ _ a _
    cases content with
    | none => exact refuse_append _
    | some bytes => exact congrArg (Prod.mk _) (p.write_append s a _)
  | clearState space tag =>
    unfold answer
    apply withCell_append hp
    intro _ _ a _
    exact congrArg (Prod.mk _) (p.write_append s a none)
  | resumeLater rest delay =>
    exact withFrame_append fun frame => congrArg (Prod.mk _) (p.addResidual_append s _)

theorem run_append (hp : p.AppliedFor c.key c.schedule c.store schedule store)
    (s : Staging ι ο) (x : Interaction ι ο α) :
    c.run (p ++ s) x = p.onTop ({ c with schedule, store }.run s x) := by
  induction x generalizing s with
  | done a => rfl
  | ask q next ih =>
    rw [run, run, answer_append hp]
    exact ih _ _

theorem settle_append (hp : p.failure = none) (stage : Stage) (result : Except String Unit) :
    settle stage result (p ++ s) = (settle stage result s).map (p ++ ·) := by
  unfold settle
  rw [Staging.failure_append, hp, Option.none_or]
  cases s.failure with
  | some e => rfl
  | none => cases result <;> rfl

theorem callback_append (hfailure : p.failure = none)
    (hp : p.AppliedFor c.key c.schedule c.store schedule store) (stage : Stage)
    (body : Callback μ ι ο) (s : Staging ι ο) :
    c.callback stage body (p ++ s) =
      (p ++ ·) <$> ({ c with schedule, store }.callback stage body s) := by
  funext memory
  refine Eq.trans ?_ (Session.run_map _ _ memory).symm
  rw [run_callback, ← settle_append hfailure]
  show (c.callback stage body (p ++ s)).run memory = _
  rw [run_callback, run_append hp]
  rfl

end Context

/-- Operations that a schedule does not refuse. -/
def TimerOp.Served : TimerOp → Prop
  | set _ timer => timer.domain = .event
  | delete _ _ => True

namespace Schedule

variable {s s' : Schedule}

theorem applyOps_append (s : Schedule) (ops ops' : List TimerOp) :
    s.applyOps (ops ++ ops') = s.applyOps ops >>= (·.applyOps ops') :=
  List.foldlM_append

theorem exists_applyOps {ops : List TimerOp} (h : ∀ op ∈ ops, op.Served) (s : Schedule) :
    ∃ s', s.applyOps ops = .ok s' := by
  induction ops generalizing s with
  | nil => exact ⟨s, rfl⟩
  | cons op ops ih =>
    obtain ⟨hop, hops⟩ := List.forall_mem_cons.1 h
    have hm : ∃ m, s.applyOp op = .ok m := by
      cases op with
      | set key t => exact s.exists_set key hop
      | delete key slot => exact ⟨_, rfl⟩
    obtain ⟨m, hm⟩ := hm
    obtain ⟨s', hs'⟩ := ih hops m
    exact ⟨s', applyOps_cons.2 ⟨m, hm, hs'⟩⟩

theorem state_applyOp {op : TimerOp} (h : s.applyOp op = .ok s') (key : EncodedKey)
    (slot : TimerSlot) :
    s'.state key slot = (Staging.opState key slot op).getD (s.state key slot) := by
  unfold state
  rw [timer?_applyOp h]
  cases op with
  | set k t => by_cases h : k = key ∧ t.slot = slot <;> simp [TimerOp.leave, Staging.opState, h]
  | delete k sl => by_cases h : k = key ∧ sl = slot <;> simp [TimerOp.leave, Staging.opState, h]

theorem state_applyOps {ops : List TimerOp} (h : s.applyOps ops = .ok s') (key : EncodedKey)
    (slot : TimerSlot) :
    s'.state key slot =
      (ops.reverse.findSome? (Staging.opState key slot)).getD (s.state key slot) := by
  induction ops generalizing s with
  | nil =>
    cases h
    rfl
  | cons op ops ih =>
    obtain ⟨m, hm, hrest⟩ := applyOps_cons.1 h
    rw [ih hrest, state_applyOp hm, List.reverse_cons, List.findSome?_append]
    cases ops.reverse.findSome? (Staging.opState key slot) with
    | some state => rfl
    | none => cases hop : Staging.opState key slot op <;> simp [hop]

end Schedule

namespace Cells

theorem get?_writeAll_of_not_mem (c : Cells) {ws : List CellWrite} {a : Address}
    (h : a ∉ ws.map Prod.fst) : (c.writeAll ws).get? a = c.get? a := by
  induction ws generalizing c with
  | nil => rfl
  | cons w ws ih =>
    rw [List.map_cons, List.mem_cons, not_or] at h
    have hw : (c.write w).get? a = c.get? a := by rw [get?_write, if_neg (Ne.symm h.1)]
    rw [← hw]
    exact ih (c.write w) h.2

theorem get?_writeAll_of_mem (c : Cells) {ws : List CellWrite}
    (hws : ws.Pairwise fun w w' => w.1 ≠ w'.1) {w : CellWrite} (h : w ∈ ws) :
    (c.writeAll ws).get? w.1 = w.2 := by
  induction ws generalizing c with
  | nil => cases h
  | cons v ws ih =>
    obtain ⟨hv, hws⟩ := List.pairwise_cons.1 hws
    cases List.mem_cons.1 h with
    | inr h => exact ih (c.write v) hws h
    | inl h =>
      have hlater : w.1 ∉ ws.map Prod.fst := by
        intro hmem
        obtain ⟨w', hw', heq⟩ := List.mem_map.1 hmem
        exact hv w' hw' (by rw [← h, heq])
      have hwrite := get?_writeAll_of_not_mem (c.write w) hlater
      rw [get?_write, if_pos rfl] at hwrite
      rw [← h]
      exact hwrite

theorem get?_writeAll_toList (c : Cells) (writes : Std.ExtTreeMap Address (Option Bytes))
    (a : Address) : (c.writeAll writes.toList).get? a = writes[a]?.getD (c.get? a) := by
  have hdistinct : writes.toList.Pairwise fun w w' => w.1 ≠ w'.1 := by
    apply Std.ExtTreeMap.distinct_keys_toList.imp
    intro w w' hne h
    exact hne (Std.LawfulEqOrd.compare_eq_iff_eq.2 h)
  cases hwrite : writes[a]? with
  | some content =>
    exact get?_writeAll_of_mem c hdistinct (Std.ExtTreeMap.mem_toList_iff_getElem?_eq_some.2 hwrite)
  | none =>
    apply get?_writeAll_of_not_mem
    rw [Std.ExtTreeMap.map_fst_toList_eq_keys, Std.ExtTreeMap.mem_keys,
      Std.ExtTreeMap.mem_iff_isSome_getElem?, hwrite]
    exact Bool.false_ne_true

theorem writeAll_union (c : Cells) (writes writes' : Std.ExtTreeMap Address (Option Bytes)) :
    c.writeAll (writes ∪ writes').toList = (c.writeAll writes.toList).writeAll writes'.toList := by
  ext a : 1
  rw [get?_writeAll_toList, get?_writeAll_toList, get?_writeAll_toList,
    Std.ExtTreeMap.getElem?_union]
  cases writes'[a]? <;> rfl

end Cells

theorem Staging.applied_cells (p : Staging ι ο) {schedule schedule' : Schedule}
    (h : schedule.applyOps p.timerOps = .ok schedule') (store : Option Cells) :
    p.Applied schedule store schedule' (store.map (·.writeAll p.writes.toList)) where
  timers key slot := Schedule.state_applyOps h key slot
  cells := by
    cases store with
    | none => exact .none
    | some cells =>
      apply Option.Rel.some
      intro a
      unfold Context.cellContent
      show Except.ok ((cells.writeAll p.writes.toList).get? a) = _
      rw [Cells.get?_writeAll_toList]
      cases p.writes[a]? <;> rfl

end StreamOperator
