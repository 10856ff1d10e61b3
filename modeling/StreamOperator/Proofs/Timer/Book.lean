import Mathlib.Data.List.Dedup
import Mathlib.Order.Std
import StreamOperator.Proofs.Collections
import StreamOperator.Proofs.Timer.Schedule

/-! A schedule beside a book, which is a plain finite map: each timer, known by its key and slot,
with its target. Every operation on the schedule is one on the book, and whatever is read off the
tables or the agenda can be read off the book. -/

namespace StreamOperator

structure TimerId where
  key : EncodedKey
  slot : TimerSlot
deriving DecidableEq

namespace TimerId

def order : TimerId → TimerId → Ordering := compareLex (compareOn key) (compareOn slot)

instance : Ord TimerId := ⟨order⟩

instance : Std.TransOrd TimerId := by
  show Std.TransCmp order
  unfold order
  infer_instance

instance : Std.LawfulEqOrd TimerId where
  eq_of_compare {a b} h := by
    change order a b = .eq at h
    simp only [order, compareLex_eq_eq, compareOn, Std.LawfulEqOrd.compare_eq_iff_eq] at h
    obtain ⟨hkey, hslot⟩ := h
    cases a; cases b; cases hkey; cases hslot; rfl

/-- The timer with a target, in event time like every timer that is served. -/
def timer (id : TimerId) (target : Instant) : Timer := .eventTime id.slot.space id.slot.id target

@[simp] theorem slot_timer (id : TimerId) (target : Instant) : (id.timer target).slot = id.slot := rfl

@[simp] theorem target_timer (id : TimerId) (target : Instant) :
    (id.timer target).target = target := rfl

theorem timer_eq {t : Timer} (key : EncodedKey) (h : t.domain = .event) :
    (⟨key, t.slot⟩ : TimerId).timer t.target = t := by
  cases t
  cases h
  rfl

end TimerId

def Due.timerId (due : Due) : TimerId := ⟨due.key, due.slot⟩

def FiredTimer.due (f : FiredTimer) : Due := ⟨f.timer.target, f.key, f.timer.slot⟩

inductive ScheduleCall
  | set (key : EncodedKey) (timer : Timer)
  | delete (key : EncodedKey) (slot : TimerSlot)
  | popDue (watermark : Instant)

/-- The schedule after an operation; a timer that is refused leaves it as it was. -/
def Schedule.call (s : Schedule) : ScheduleCall → Schedule
  | .set key t =>
    match s.set key t with
    | .ok s => s
    | .error _ => s
  | .delete key slot => (s.delete key slot).2
  | .popDue w => (s.popDue w).2

def Schedule.ofCalls (cs : List ScheduleCall) : Schedule := cs.foldl call empty

/-- The target of every scheduled timer. -/
abbrev TimerBook := Std.ExtTreeMap TimerId Instant

namespace TimerBook

def call (b : TimerBook) : ScheduleCall → TimerBook
  | .set key t => if t.domain = .event then b.insert ⟨key, t.slot⟩ t.target else b
  | .delete key slot => b.erase ⟨key, slot⟩
  | .popDue w => b.filter fun _ target => w < target

def ofCalls (cs : List ScheduleCall) : TimerBook := cs.foldl call ∅

def timer? (b : TimerBook) (id : TimerId) : Option Timer := b[id]?.map id.timer

def state (b : TimerBook) (id : TimerId) : TimerState :=
  match b[id]? with
  | some target => .scheduled target .event
  | none => .unset

def timersFor (b : TimerBook) (key : EncodedKey) : List Timer :=
  (b.toList.filter (·.1.key = key)).map fun (id, target) => id.timer target

def activeKeys (b : TimerBook) : List EncodedKey := (b.keys.map TimerId.key).dedup

variable {b : TimerBook}

theorem timer?_insert (id id' : TimerId) (target : Instant) :
    timer? (b.insert id target) id' =
      if id = id' then some (id'.timer target) else b.timer? id' := by
  by_cases h : id = id' <;> simp [timer?, Std.ExtTreeMap.getElem?_insert, h]

theorem timer?_erase (id id' : TimerId) :
    timer? (b.erase id) id' = if id = id' then none else b.timer? id' := by
  by_cases h : id = id' <;> simp [timer?, Std.ExtTreeMap.getElem?_erase, h]

theorem timer?_eq_some_iff {id : TimerId} {t : Timer} :
    b.timer? id = some t ↔ ∃ target, b[id]? = some target ∧ id.timer target = t := by
  simp [timer?]

end TimerBook

namespace Schedule

variable {s s' : Schedule} {b : TimerBook} {key : EncodedKey} {slot : TimerSlot}

def Filled (tables : Std.ExtTreeMap EncodedKey SlotTable) : Prop :=
  ∀ (key : EncodedKey) (table : SlotTable), tables[key]? = some table → table ≠ ∅

/-- The schedule holds the timers of a book, in tables and agenda that agree. -/
structure Holds (s : Schedule) (b : TimerBook) : Prop where
  timer? : ∀ key slot, s.timer? key slot = b.timer? ⟨key, slot⟩
  consistent : s.Consistent
  filled : Filled s.tables

theorem filled_insert {tables : Std.ExtTreeMap EncodedKey SlotTable} (h : Filled tables)
    {table : SlotTable} (htable : table ≠ ∅) : Filled (tables.insert key table) := by
  intro k table' hk
  rw [Std.ExtTreeMap.getElem?_insert] at hk
  split at hk
  · cases hk
    exact htable
  · exact h k table' hk

theorem filled_dropSlot {tables : Std.ExtTreeMap EncodedKey SlotTable} (h : Filled tables)
    (table : SlotTable) : Filled (dropSlot tables key table slot) := by
  unfold dropSlot
  dsimp only
  by_cases hrest : (table.erase slot).isEmpty
  · rw [if_pos hrest]
    intro k table' hk
    rw [Std.ExtTreeMap.getElem?_erase] at hk
    split at hk
    · cases hk
    · exact h k table' hk
  · rw [if_neg hrest]
    exact filled_insert h (mt Std.ExtTreeMap.isEmpty_iff.2 hrest)

theorem filled_fire {tables : Std.ExtTreeMap EncodedKey SlotTable} (h : Filled tables)
    (due : Due) : Filled (fire tables due).2 := by
  unfold fire
  cases htable : tables[due.key]? with
  | none => exact h
  | some table =>
    cases ht : table[due.slot]? with
    | none => simpa only [ht] using h
    | some t => simpa only [ht] using filled_dropSlot h table

theorem filled_fireAll {tables : Std.ExtTreeMap EncodedKey SlotTable} (h : Filled tables)
    (dues : List Due) : Filled (fireAll tables dues).2 := by
  induction dues generalizing tables with
  | nil => exact h
  | cons due dues ih => exact ih (filled_fire h due)

theorem set_eq_error {t : Timer} (h : t.domain ≠ .event) :
    s.set key t = .error (.timerDomain t.domain) := by
  rw [Schedule.set, if_pos h]

theorem fst_delete (s : Schedule) (key : EncodedKey) (slot : TimerSlot) :
    (s.delete key slot).1 = s.timer? key slot := by
  unfold delete Schedule.timer?
  cases s.tables[key]? with
  | none => rfl
  | some table => cases h : table[slot]? <;> simp [h]

theorem holds_empty : empty.Holds ∅ where
  timer? key slot := by simp [TimerBook.timer?]
  consistent := consistent_empty
  filled key table h := by simp [empty] at h

theorem Holds.set {t : Timer} (hs : s.Holds b) (ht : t.domain = .event)
    (h : s.set key t = .ok s') : s'.Holds (b.insert ⟨key, t.slot⟩ t.target) where
  timer? k sl := by
    rw [timer?_set h, hs.timer?, TimerBook.timer?_insert]
    by_cases hslot : key = k ∧ t.slot = sl
    · rw [if_pos hslot, ← hslot.1, ← hslot.2, if_pos rfl, TimerId.timer_eq key ht]
    · rw [if_neg hslot, if_neg (by rwa [TimerId.mk.injEq])]
  consistent := hs.consistent.set h
  filled := by
    rw [Schedule.set, if_neg (not_not.2 ht)] at h
    cases h
    exact filled_insert hs.filled Std.ExtTreeMap.insert_ne_empty

theorem Holds.delete (hs : s.Holds b) (key : EncodedKey) (slot : TimerSlot) :
    (s.delete key slot).2.Holds (b.erase ⟨key, slot⟩) where
  timer? k sl := by
    rw [timer?_delete, hs.timer?, TimerBook.timer?_erase]
    simp only [TimerId.mk.injEq]
  consistent := hs.consistent.delete key slot
  filled := by
    unfold Schedule.delete
    cases htable : s.tables[key]? with
    | none => exact hs.filled
    | some table =>
      cases ht : table[slot]? with
      | none => simpa only [ht] using hs.filled
      | some t => simpa only [ht] using filled_dropSlot hs.filled table

theorem Holds.popDue (hs : s.Holds b) (w : Instant) :
    (s.popDue w).2.Holds (b.filter fun _ target => w < target) where
  timer? key slot := by
    rw [timer?_popDue hs.consistent, hs.timer?, TimerBook.timer?, TimerBook.timer?,
      Std.ExtTreeMap.getElem?_filter]
    cases b[(⟨key, slot⟩ : TimerId)]? with
    | none => rfl
    | some target => by_cases hw : w < target <;> simp [Option.filter, hw]
  consistent := hs.consistent.popDue w
  filled := filled_fireAll hs.filled _

theorem Holds.call (hs : s.Holds b) (c : ScheduleCall) : (s.call c).Holds (b.call c) := by
  cases c with
  | set key t =>
    unfold Schedule.call TimerBook.call
    dsimp only
    by_cases ht : t.domain = .event
    · obtain ⟨s', h⟩ := s.exists_set key ht
      rw [if_pos ht, h]
      exact hs.set ht h
    · rw [if_neg ht, set_eq_error ht]
      exact hs
  | delete key slot => exact hs.delete key slot
  | popDue w => exact hs.popDue w

theorem Holds.calls (hs : s.Holds b) (cs : List ScheduleCall) :
    (cs.foldl Schedule.call s).Holds (cs.foldl TimerBook.call b) := by
  induction cs generalizing s b with
  | nil => exact hs
  | cons c cs ih => exact ih (hs.call c)

theorem holds_ofCalls (cs : List ScheduleCall) : (ofCalls cs).Holds (TimerBook.ofCalls cs) :=
  holds_empty.calls cs

theorem Holds.state_eq (hs : s.Holds b) (key : EncodedKey) (slot : TimerSlot) :
    s.state key slot = b.state ⟨key, slot⟩ := by
  unfold Schedule.state TimerBook.state
  rw [hs.timer?, TimerBook.timer?]
  cases b[(⟨key, slot⟩ : TimerId)]? <;> rfl

theorem Holds.mem_agenda (hs : s.Holds b) (due : Due) :
    due ∈ s.agenda ↔ b[due.timerId]? = some due.target := by
  rw [hs.consistent.mem_agenda, hs.timer?]
  constructor
  · intro h
    obtain ⟨t, ht, htarget⟩ := h
    obtain ⟨target, hb, rfl⟩ := TimerBook.timer?_eq_some_iff.1 ht
    rw [← htarget]
    exact hb
  · intro h
    exact ⟨due.timerId.timer due.target, TimerBook.timer?_eq_some_iff.2 ⟨_, h, rfl⟩, rfl⟩

theorem Holds.map_timerId_perm (hs : s.Holds b) :
    (s.agenda.toList.map Due.timerId).Perm b.keys := by
  have hplaces : (s.agenda.toList.map Due.timerId).Nodup := by
    apply List.pairwise_map.2
    apply hs.consistent.distinct_agenda.imp
    intro d d' hne h
    exact hne ⟨congrArg TimerId.key h, congrArg TimerId.slot h⟩
  have hkeys : b.keys.Nodup := by
    apply Std.ExtTreeMap.distinct_keys.imp
    intro x y hne h
    exact hne (Std.LawfulEqOrd.compare_eq_iff_eq.2 h)
  apply (List.perm_ext_iff_of_nodup hplaces hkeys).2
  intro id
  rw [List.mem_map, Std.ExtTreeMap.mem_keys, Std.ExtTreeMap.mem_iff_isSome_getElem?,
    Option.isSome_iff_exists]
  constructor
  · intro h
    obtain ⟨due, hdue, rfl⟩ := h
    exact ⟨due.target, (hs.mem_agenda due).1 (Std.ExtTreeSet.mem_toList.1 hdue)⟩
  · intro h
    obtain ⟨target, htarget⟩ := h
    exact ⟨⟨target, id.key, id.slot⟩, Std.ExtTreeSet.mem_toList.2 ((hs.mem_agenda _).2 htarget), rfl⟩

theorem Holds.pendingCount_eq (hs : s.Holds b) : s.pendingCount = b.size := by
  have hlength := hs.map_timerId_perm.length_eq
  rw [List.length_map, Std.ExtTreeSet.length_toList, Std.ExtTreeMap.length_keys] at hlength
  exact hlength

theorem Holds.nextDue?_eq (hs : s.Holds b) : s.nextDue? = b.values.min? := by
  have hvalues (target : Instant) : target ∈ b.values ↔ ∃ due ∈ s.agenda, due.target = target := by
    rw [Std.ExtTreeMap.values_eq_map_toList, List.mem_map]
    constructor
    · intro h
      obtain ⟨⟨id, target⟩, hid, rfl⟩ := h
      refine ⟨⟨target, id.key, id.slot⟩, (hs.mem_agenda _).2 ?_, rfl⟩
      exact Std.ExtTreeMap.mem_toList_iff_getElem?_eq_some.1 hid
    · intro h
      obtain ⟨due, hdue, rfl⟩ := h
      refine ⟨(due.timerId, due.target), ?_, rfl⟩
      exact Std.ExtTreeMap.mem_toList_iff_getElem?_eq_some.2 ((hs.mem_agenda due).1 hdue)
  unfold nextDue?
  cases hmin : s.agenda.min? with
  | none =>
    have hempty : b.values = [] := by
      apply List.eq_nil_iff_forall_not_mem.2
      intro target h
      obtain ⟨due, hdue, -⟩ := (hvalues target).1 h
      rw [Std.ExtTreeSet.min?_eq_none_iff.1 hmin] at hdue
      exact Std.ExtTreeSet.not_mem_empty hdue
    rw [hempty]
    rfl
  | some first =>
    obtain ⟨hfirst, hleast⟩ := Std.ExtTreeSet.min?_eq_some_iff_mem_and_forall.1 hmin
    symm
    apply List.min?_eq_some_iff.2
    refine ⟨(hvalues _).2 ⟨first, hfirst, rfl⟩, fun target h => ?_⟩
    obtain ⟨due, hdue, rfl⟩ := (hvalues target).1 h
    exact Due.target_le_of_isLE (hleast due hdue)

theorem Holds.mem_activeKeys (hs : s.Holds b) (key : EncodedKey) :
    key ∈ s.tables ↔ ∃ id ∈ b, id.key = key := by
  have hmem (slot : TimerSlot) : (⟨key, slot⟩ : TimerId) ∈ b ↔ (s.timer? key slot).isSome := by
    rw [hs.timer?, TimerBook.timer?, Option.isSome_map, Std.ExtTreeMap.mem_iff_isSome_getElem?]
  constructor
  · intro h
    obtain ⟨table, htable⟩ := Option.isSome_iff_exists.1 (Std.ExtTreeMap.mem_iff_isSome_getElem?.1 h)
    have hfilled : table ≠ ∅ := hs.filled key table htable
    have hne := mt Std.ExtTreeMap.eq_empty_iff_forall_not_mem.2 hfilled
    obtain ⟨slot, hslot⟩ := not_forall_not.1 hne
    refine ⟨⟨key, slot⟩, (hmem slot).2 ?_, rfl⟩
    rw [Schedule.timer?, htable]
    exact Std.ExtTreeMap.mem_iff_isSome_getElem?.1 hslot
  · intro h
    obtain ⟨⟨k, slot⟩, hid, rfl⟩ := h
    rw [hmem, Schedule.timer?] at hid
    rw [Std.ExtTreeMap.mem_iff_isSome_getElem?]
    cases htable : s.tables[k]? with
    | none => simp [htable] at hid
    | some table => rfl

theorem Holds.activeKeys_eq (hs : s.Holds b) : s.activeKeys = b.activeKeys.length := by
  have hkeys : s.tables.keys.Nodup := by
    apply Std.ExtTreeMap.distinct_keys.imp
    intro k k' hne h
    exact hne (Std.LawfulEqOrd.compare_eq_iff_eq.2 h)
  have hperm : s.tables.keys.Perm b.activeKeys := by
    apply (List.perm_ext_iff_of_nodup hkeys (List.nodup_dedup _)).2
    intro key
    show key ∈ s.tables.keys ↔ key ∈ (b.keys.map TimerId.key).dedup
    rw [List.mem_dedup, List.mem_map, Std.ExtTreeMap.mem_keys, hs.mem_activeKeys]
    simp only [Std.ExtTreeMap.mem_keys]
  rw [← hperm.length_eq, Std.ExtTreeMap.length_keys]
  rfl

theorem Holds.table_eq (hs : s.Holds b) (key : EncodedKey) :
    (s.tables[key]?.map Std.ExtTreeMap.toList).getD [] =
      (b.toList.filter (·.1.key = key)).map fun (id, target) => (id.slot, id.timer target) := by
  apply List.eq_of_ordered_of_mem_iff (f := Prod.fst)
  · cases s.tables[key]? with
    | none => exact List.Pairwise.nil
    | some table => exact Std.ExtTreeMap.ordered_keys_toList
  · -- Identities of one key are in the order of their slots.
    apply List.pairwise_map.2
    apply (Std.ExtTreeMap.ordered_keys_toList.filter _).imp_of_mem
    intro p q hp hq h
    have hkey : p.1.key = q.1.key := by
      rw [of_decide_eq_true (List.mem_filter.1 hp).2, of_decide_eq_true (List.mem_filter.1 hq).2]
    change TimerId.order p.1 q.1 = .lt at h
    rw [TimerId.order, compareLex, compareOn, hkey, Std.ReflOrd.compare_self] at h
    exact h
  · intro (slot, t)
    have htable : (slot, t) ∈ (s.tables[key]?.map Std.ExtTreeMap.toList).getD [] ↔
        s.timer? key slot = some t := by
      unfold Schedule.timer?
      cases s.tables[key]? with
      | none => simp
      | some table => exact Std.ExtTreeMap.mem_toList_iff_getElem?_eq_some
    rw [htable, hs.timer?, TimerBook.timer?_eq_some_iff, List.mem_map]
    constructor
    · intro h
      obtain ⟨target, hb, rfl⟩ := h
      refine ⟨(⟨key, slot⟩, target), List.mem_filter.2 ⟨?_, decide_eq_true rfl⟩, rfl⟩
      exact Std.ExtTreeMap.mem_toList_iff_getElem?_eq_some.2 hb
    · intro h
      obtain ⟨⟨⟨k, sl⟩, target⟩, hid, heq⟩ := h
      obtain ⟨hb, hk⟩ := List.mem_filter.1 hid
      obtain ⟨rfl, rfl⟩ := Prod.mk.inj heq
      cases of_decide_eq_true hk
      exact ⟨target, Std.ExtTreeMap.mem_toList_iff_getElem?_eq_some.1 hb, rfl⟩

theorem Holds.timersFor_eq (hs : s.Holds b) (key : EncodedKey) :
    s.timersFor key = b.timersFor key := by
  have hvalues : s.timersFor key =
      ((s.tables[key]?.map Std.ExtTreeMap.toList).getD []).map Prod.snd := by
    unfold Schedule.timersFor
    cases s.tables[key]? with
    | none => rfl
    | some table => exact Std.ExtTreeMap.values_eq_map_toList table
  rw [hvalues, hs.table_eq, List.map_map]
  rfl

theorem Consistent.map_due_popDue (hs : s.Consistent) (w : Instant) :
    (s.popDue w).1.map FiredTimer.due = s.agenda.toList.takeWhile (·.target ≤ w) := by
  have hplaces : ∀ due ∈ s.agenda.toList.takeWhile (·.target ≤ w), due ∈ s.agenda :=
    fun due h => ((mem_takeWhile_agenda s w due).1 h).1
  show (fireAll s.tables _).1.map _ = _
  rw [fireAll_fired (hs.distinct_takeWhile_agenda w)]
  generalize s.agenda.toList.takeWhile (·.target ≤ w) = dues at hplaces ⊢
  induction dues with
  | nil => rfl
  | cons due dues ih =>
    obtain ⟨hdue, hdues⟩ := List.forall_mem_cons.1 hplaces
    obtain ⟨t, ht, htarget⟩ := (hs.mem_agenda due).1 hdue
    have hfired : FiredTimer.due ⟨due.key, t⟩ = due := by
      rw [FiredTimer.due, htarget, hs.slot _ _ _ ht]
    rw [timer?_eq_lookup] at ht
    rw [List.filterMap_cons, ht, Option.map_some, List.map_cons, ih hdues, hfired]

theorem Consistent.ordered_popDue (hs : s.Consistent) (w : Instant) :
    ((s.popDue w).1.map FiredTimer.due).Pairwise fun d d' => compare d d' = .lt := by
  rw [hs.map_due_popDue]
  exact s.agenda.ordered_toList.sublist (List.takeWhile_sublist _)

/-- After any operations a schedule gives the answers of the book of the same operations, and so
its tables and its agenda agree. -/
theorem answers_of_book (cs : List ScheduleCall) :
    let s := ofCalls cs
    let b := TimerBook.ofCalls cs
    (∀ key slot, s.state key slot = b.state ⟨key, slot⟩) ∧
    (∀ key, s.timersFor key = b.timersFor key) ∧
    (∀ key t, s.set key t =
      if t.domain = .event then .ok (s.call (.set key t)) else .error (.timerDomain t.domain)) ∧
    (∀ key slot, (s.delete key slot).1 = b.timer? ⟨key, slot⟩) ∧
    (∀ w, ((s.popDue w).1.map FiredTimer.due).Pairwise (compare · · = .lt) ∧
      ∀ f, f ∈ (s.popDue w).1 ↔
        b.timer? ⟨f.key, f.timer.slot⟩ = some f.timer ∧ f.timer.target ≤ w) ∧
    s.pendingCount = b.size ∧
    s.nextDue? = b.values.min? ∧
    s.activeKeys = b.activeKeys.length ∧
    s.Consistent ∧ Filled s.tables := by
  have hs := holds_ofCalls cs
  refine ⟨hs.state_eq, hs.timersFor_eq, fun key t => ?_, fun key slot => ?_, fun w => ⟨?_, fun f => ?_⟩,
    hs.pendingCount_eq, hs.nextDue?_eq, hs.activeKeys_eq, hs.consistent, hs.filled⟩
  · by_cases ht : t.domain = .event
    · obtain ⟨s', h⟩ := (ofCalls cs).exists_set key ht
      rw [if_pos ht, h, Schedule.call, h]
    · rw [if_neg ht, set_eq_error ht]
  · rw [fst_delete, hs.timer?]
  · exact hs.consistent.ordered_popDue w
  · rw [mem_popDue hs.consistent, hs.timer?]

end Schedule

end StreamOperator
