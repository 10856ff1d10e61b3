import StreamOperator.Proofs.Bundle.Overlay
import StreamOperator.Proofs.Function.Record

/-! Keys apart. What a function is answered under a key depends on the timers and cells of that key
alone, and what it stages changes no others. -/

namespace StreamOperator

variable {μ ι ο α ρ σ : Type}

namespace TimerOp

def key : TimerOp → EncodedKey
  | set key _ => key
  | delete key _ => key

def slot : TimerOp → TimerSlot
  | set _ t => t.slot
  | delete _ slot => slot

def due? : TimerOp → Option Due
  | set key t => some ⟨t.target, key, t.slot⟩
  | delete _ _ => none

theorem leave_of_key_ne {op : TimerOp} {key : EncodedKey} (h : op.key ≠ key) (slot : TimerSlot)
    (before : Option Timer) : op.leave key slot before = before := by
  cases op with
  | set k t => exact if_neg fun hk => h hk.1
  | delete k sl => exact if_neg fun hk => h hk.1

end TimerOp

namespace Schedule

variable {s s' t t' : Schedule} {key : EncodedKey}

theorem mem_agenda_delete (s : Schedule) (key : EncodedKey) (slot : TimerSlot) (due : Due) :
    due ∈ (s.delete key slot).2.agenda ↔
      due ∈ s.agenda ∧ ∀ t, s.timer? key slot = some t → ⟨t.target, key, slot⟩ ≠ due := by
  unfold delete timer?
  cases htable : s.tables[key]? with
  | none => simp
  | some table =>
    cases hslot : table[slot]? with
    | none => simp [hslot]
    | some t =>
      simp [hslot, Std.ExtTreeSet.mem_erase, and_comm]

theorem mem_agenda_applyOp {op : TimerOp} (h : s.applyOp op = .ok s') (due : Due) :
    due ∈ s'.agenda ↔ op.due? = some due ∨
      due ∈ s.agenda ∧
        ∀ t, s.timer? op.key op.slot = some t → ⟨t.target, op.key, op.slot⟩ ≠ due := by
  cases op with
  | set key timer =>
    have htable : (s.tables.getD key ∅)[timer.slot]? = s.timer? key timer.slot := by
      cases ht : s.tables[key]? <;> simp [timer?, ht, Std.ExtTreeMap.getD_eq_getD_getElem?]
    simp only [applyOp, set] at h
    split at h
    · cases h
    · cases h
      simp only [htable, TimerOp.due?, TimerOp.key, TimerOp.slot, Option.some.injEq,
        Std.ExtTreeSet.mem_insert, Std.LawfulEqOrd.compare_eq_iff_eq]
      cases ht : s.timer? key timer.slot <;>
        simp [Std.ExtTreeSet.mem_erase, and_comm]
  | delete key slot =>
    cases h
    simp [mem_agenda_delete, TimerOp.due?, TimerOp.key, TimerOp.slot]

structure AlikeFor (key : EncodedKey) (s t : Schedule) : Prop where
  timer? : ∀ slot, s.timer? key slot = t.timer? key slot
  mem_agenda : ∀ due, due.key = key → (due ∈ s.agenda ↔ due ∈ t.agenda)

namespace AlikeFor

theorem refl (key : EncodedKey) (s : Schedule) : s.AlikeFor key s := ⟨fun _ => rfl, fun _ _ => .rfl⟩

theorem trans (h : s.AlikeFor key t) (h' : t.AlikeFor key t') : s.AlikeFor key t' :=
  ⟨fun slot => (h.timer? slot).trans (h'.timer? slot),
    fun due hdue => (h.mem_agenda due hdue).trans (h'.mem_agenda due hdue)⟩

theorem state (h : s.AlikeFor key t) (slot : TimerSlot) : s.state key slot = t.state key slot := by
  unfold Schedule.state
  rw [h.timer?]

theorem applyOp (h : s.AlikeFor key t) {op : TimerOp} (hs : s.applyOp op = .ok s')
    (ht : t.applyOp op = .ok t') : s'.AlikeFor key t' where
  timer? slot := by rw [timer?_applyOp hs, timer?_applyOp ht, h.timer?]
  mem_agenda due hdue := by
    rw [mem_agenda_applyOp hs, mem_agenda_applyOp ht, h.mem_agenda due hdue]
    by_cases hkey : op.key = key
    · rw [hkey, h.timer?]
    · have hne (s : Schedule) : ∀ t, s.timer? op.key op.slot = some t →
          (⟨t.target, op.key, op.slot⟩ : Due) ≠ due := by
        intro t _ heq
        exact hkey (by rw [← hdue, ← heq])
      exact or_congr_right (and_congr_right fun _ => iff_of_true (hne s) (hne t))

theorem applyOps (h : s.AlikeFor key t) {ops : List TimerOp} (hs : s.applyOps ops = .ok s')
    (ht : t.applyOps ops = .ok t') : s'.AlikeFor key t' := by
  induction ops generalizing s t with
  | nil =>
    cases hs
    cases ht
    exact h
  | cons op ops ih =>
    obtain ⟨m, hm, hs⟩ := applyOps_cons.1 hs
    obtain ⟨n, hn, ht⟩ := applyOps_cons.1 ht
    exact ih (h.applyOp hm hn) hs ht

end AlikeFor

theorem alikeFor_applyOp {op : TimerOp} (h : s.applyOp op = .ok s') (hkey : op.key ≠ key) :
    s'.AlikeFor key s where
  timer? slot := by rw [timer?_applyOp h, TimerOp.leave_of_key_ne hkey]
  mem_agenda due hdue := by
    have hnew : op.due? ≠ some due := by
      intro hdue?
      cases op with
      | set k t =>
        cases hdue?
        exact hkey hdue
      | delete k sl => cases hdue?
    have hold : ∀ t, s.timer? op.key op.slot = some t →
        (⟨t.target, op.key, op.slot⟩ : Due) ≠ due := by
      intro t _ heq
      exact hkey (by rw [← hdue, ← heq])
    rw [mem_agenda_applyOp h]
    exact ⟨fun hmem => (hmem.resolve_left hnew).1, fun hmem => .inr ⟨hmem, hold⟩⟩

theorem alikeFor_applyOps {ops : List TimerOp} (h : s.applyOps ops = .ok s')
    (hkey : ∀ op ∈ ops, op.key ≠ key) : s'.AlikeFor key s := by
  induction ops generalizing s with
  | nil =>
    cases h
    exact .refl key _
  | cons op ops ih =>
    rw [List.forall_mem_cons] at hkey
    obtain ⟨hop, hops⟩ := hkey
    obtain ⟨m, hm, h⟩ := applyOps_cons.1 h
    exact (ih h hops).trans (alikeFor_applyOp hm hop)

end Schedule

def Cells.AlikeFor (key : EncodedKey) (c d : Cells) : Prop :=
  ∀ a, a.key = key.bytes → c.get? a = d.get? a

namespace Cells

variable {key : EncodedKey} {store store' : Option Cells}
  {writes : Std.ExtTreeMap Address (Option Bytes)}

theorem alikeFor_refl (key : EncodedKey) (store : Option Cells) :
    Option.Rel (AlikeFor key) store store := by
  cases store with
  | none => exact .none
  | some cells => exact .some fun _ _ => rfl

theorem alikeFor_writeAll (h : Option.Rel (AlikeFor key) store store') :
    Option.Rel (AlikeFor key) (store.map (·.writeAll writes.toList))
      (store'.map (·.writeAll writes.toList)) := by
  cases h with
  | none => exact .none
  | some h =>
    apply Option.Rel.some
    intro a ha
    rw [get?_writeAll_toList, get?_writeAll_toList, h a ha]

theorem alikeFor_writeAll_left (h : Option.Rel (AlikeFor key) store store')
    (hwrites : ∀ a ∈ writes, a.key ≠ key.bytes) :
    Option.Rel (AlikeFor key) (store.map (·.writeAll writes.toList)) store' := by
  cases h with
  | none => exact .none
  | some h =>
    apply Option.Rel.some
    intro a ha
    have hnone : writes[a]? = none := Std.ExtTreeMap.getElem?_eq_none fun hmem => hwrites a hmem ha
    rw [get?_writeAll_toList, hnone]
    exact h a ha

end Cells

namespace Staging

/-- All timers and cells that were touched are those of a key. -/
structure OnlyFor (key : EncodedKey) (s : Staging ι ο) : Prop where
  timerOps : ∀ op ∈ s.timerOps, op.key = key
  writes : ∀ a ∈ s.writes, a.key = key.bytes

theorem onlyFor_empty (key : EncodedKey) : (empty : Staging ι ο).OnlyFor key :=
  ⟨nofun, fun a ha => by simp [empty] at ha⟩

theorem empty_append (s : Staging ι ο) : empty ++ s = s := by
  have hwrites : (∅ : Std.ExtTreeMap Address (Option Bytes)) ∪ s.writes = s.writes := by
    apply Std.ExtTreeMap.ext_getElem?
    intro a
    rw [Std.ExtTreeMap.getElem?_union, Std.ExtTreeMap.getElem?_empty, Option.or_none]
  rw [append_eq, empty]
  dsimp only
  rw [List.append_nil, List.nil_append, List.nil_append, List.nil_append, hwrites, Nat.zero_add,
    Option.none_or]

end Staging

namespace Context

theorem key_of_timerOp? {q : Request ι ο} {reply : q.Reply} {key : EncodedKey} {op : TimerOp}
    (h : q.timerOp? (some key) reply = some op) : op.key = key := by
  cases q with
  | setTimer t => cases reply <;> cases h; rfl
  | deleteTimer slot => cases reply <;> cases h; rfl
  | _ => cases h

theorem key_of_cellWrite? {q : Request ι ο} {reply : q.Reply} {operator : String}
    {key : EncodedKey} {w : CellWrite} (h : q.cellWrite? operator (some key) reply = some w) :
    w.1.key = key.bytes := by
  cases q with
  | writeState space tag content => cases reply <;> cases h; rfl
  | clearState space tag => cases reply <;> cases h; rfl
  | _ => cases h

variable [SideInputReader ρ]

section Frame

variable [StateStore σ] {c : Context ρ σ} {key : EncodedKey} {s : Staging ι ο}

theorem onlyFor_answer (hkey : c.key = some key) (h : s.OnlyFor key) (q : Request ι ο) :
    (c.answer s q).2.OnlyFor key where
  timerOps op hop := by
    rw [timerOps_answer, hkey, List.mem_append] at hop
    cases hop with
    | inl hop => exact h.timerOps op hop
    | inr hop => exact key_of_timerOp? (Option.mem_toList.1 hop)
  writes a ha := by
    rw [writes_answer, hkey] at ha
    cases hwrite : q.cellWrite? c.operator (some key) (c.answer s q).1 with
    | none =>
      rw [hwrite] at ha
      exact h.writes a ha
    | some w =>
      rw [hwrite] at ha
      rcases Std.ExtTreeMap.mem_insert.1 ha with heq | ha
      · rw [← Std.LawfulEqOrd.compare_eq_iff_eq.1 heq]
        exact key_of_cellWrite? hwrite
      · exact h.writes a ha

theorem onlyFor_run (hkey : c.key = some key) (h : s.OnlyFor key) (x : Interaction ι ο α) :
    (c.run s x).2.OnlyFor key := by
  induction x generalizing s with
  | done a => exact h
  | ask q next ih => exact ih _ (onlyFor_answer hkey h q)

theorem ends_callback_onlyFor (hkey : c.key = some key) (stage : Stage) (body : Callback μ ι ο)
    (h : s.OnlyFor key) (memory : μ) :
    (c.callback stage body s).Ends memory (fun s' _ => s'.OnlyFor key) fun _ => True := by
  refine (c.ends_callback stage body s memory).mono ?_ fun _ h => h
  rintro _ _ ⟨rfl, -⟩
  exact onlyFor_run hkey h _

end Frame

theorem run_eq_of_alikeFor {c : Context ρ Cells} {key : EncodedKey} (hkey : c.key = some key)
    {schedule : Schedule} (htimers : c.schedule.AlikeFor key schedule) {store : Option Cells}
    (hcells : Option.Rel (Cells.AlikeFor key) c.store store) (s : Staging ι ο)
    (x : Interaction ι ο α) : c.run s x = { c with schedule, store }.run s x := by
  have happlied : (Staging.empty : Staging ι ο).AppliedFor c.key c.schedule c.store
      schedule store := by
    rw [hkey]
    refine ⟨?_, ?_⟩
    · intro k hk slot
      cases hk
      exact (htimers.state slot).symm
    · generalize c.store = store₀ at hcells ⊢
      cases hcells with
      | none => exact .none
      | some hcells =>
        apply Option.Rel.some
        intro k hk a ha
        cases hk
        rw [cellContent, Staging.empty, Std.ExtTreeMap.getElem?_empty]
        exact congrArg Except.ok (hcells a ha).symm
  have hrun := run_append happlied s x
  rw [Staging.empty_append, Staging.onTop, Staging.empty_append] at hrun
  exact hrun

end Context

/-- Its memory does not tell the function what to do with an element. -/
def UserFunction.Memoryless (f : UserFunction μ ι ο) : Prop :=
  ∀ e memory memory', Outcome.result <$> f.processElement e memory =
    Outcome.result <$> f.processElement e memory'

namespace Context

variable [SideInputReader ρ]

theorem run_result [StateStore σ] (c : Context ρ σ) (s : Staging ι ο)
    (x : Interaction ι ο (Outcome μ)) :
    c.run s (Outcome.result <$> x) = ((c.run s x).1.result, (c.run s x).2) :=
  c.run_bind s x _

theorem alike_callback {c : Context ρ Cells} {key : EncodedKey} (hkey : c.key = some key)
    {schedule : Schedule} (htimers : c.schedule.AlikeFor key schedule) {store : Option Cells}
    (hcells : Option.Rel (Cells.AlikeFor key) c.store store) {body : Callback μ ι ο}
    (hbody : ∀ memory memory', Outcome.result <$> body memory = Outcome.result <$> body memory')
    (stage : Stage) (s : Staging ι ο) :
    (c.callback stage body s).Alike ({ c with schedule, store }.callback stage body s) := by
  intro memory memory'
  have hrun : c.run s (Outcome.result <$> body memory) =
      { c with schedule, store }.run s (Outcome.result <$> body memory') := by
    rw [hbody memory memory']
    exact run_eq_of_alikeFor hkey htimers hcells s _
  rw [run_result, run_result, Prod.mk.injEq] at hrun
  rw [run_callback, run_callback, hrun.1, hrun.2]

end Context

end StreamOperator
