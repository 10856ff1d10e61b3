import Mathlib.Data.List.Basic
import Mathlib.Data.List.Induction
import StreamOperator.Bundle.Staging
import StreamOperator.Proofs.Time.Instant

/-! A schedule seen as a map from a key and a slot to a timer. Each operation is one equation on
the map; the equations of firing need the agenda to list the timers of the tables, which every
operation keeps. -/

namespace StreamOperator

namespace TimerOp

variable {key : EncodedKey} {slot : TimerSlot} {before : Option Timer} {t : Timer}

def leave (key : EncodedKey) (slot : TimerSlot) (before : Option Timer) : TimerOp → Option Timer
  | .set k t => if k = key ∧ t.slot = slot then some t else before
  | .delete k s => if k = key ∧ s = slot then none else before

def touches (key : EncodedKey) (slot : TimerSlot) : TimerOp → Bool
  | .set k t => k = key ∧ t.slot = slot
  | .delete k s => k = key ∧ s = slot

def lastOn? (ops : List TimerOp) (key : EncodedKey) (slot : TimerSlot) : Option TimerOp :=
  (ops.filter (touches key slot)).getLast?

theorem leave_of_not_touches {op : TimerOp} (h : op.touches key slot = false) :
    op.leave key slot before = before := by
  cases op <;> simp_all [touches, leave]

theorem leave_eq_some_iff {op : TimerOp} (h : op.touches key slot = true) :
    op.leave key slot before = some t ↔ op = .set key t ∧ t.slot = slot := by
  cases op with
  | set k t' =>
    simp only [touches, decide_eq_true_eq] at h
    obtain ⟨rfl, rfl⟩ := h
    simp only [leave, and_self, if_true, Option.some.injEq, set.injEq, true_and]
    exact ⟨fun ht => ⟨ht, ht ▸ rfl⟩, fun ht => ht.1⟩
  | delete k s =>
    simp only [touches, decide_eq_true_eq] at h
    simp [leave, h]

theorem lastOn?_concat (ops : List TimerOp) (op : TimerOp) :
    lastOn? (ops ++ [op]) key slot =
      if op.touches key slot then some op else lastOn? ops key slot := by
  unfold lastOn?
  rw [List.filter_append]
  by_cases h : op.touches key slot <;> simp [h]

theorem foldl_leave_eq_some_iff (ops : List TimerOp) :
    ops.foldl (fun t op => op.leave key slot t) before = some t ↔
      lastOn? ops key slot = none ∧ before = some t ∨
        lastOn? ops key slot = some (.set key t) ∧ t.slot = slot := by
  induction ops using List.reverseRecOn with
  | nil => simp [lastOn?]
  | append_singleton ops op ih =>
    rw [List.foldl_append, List.foldl_cons, List.foldl_nil, lastOn?_concat]
    cases h : op.touches key slot with
    | true =>
      rw [leave_eq_some_iff h]
      simp
    | false =>
      rw [leave_of_not_touches h, ih]
      simp

end TimerOp

def FiredTimer.isAt (key : EncodedKey) (slot : TimerSlot) (f : FiredTimer) : Bool :=
  f.key = key ∧ f.timer.slot = slot

theorem Due.target_le_of_isLE {a b : Due} (h : (compare a b).isLE) : a.target ≤ b.target := by
  change (Due.order a b).isLE at h
  rw [Due.order, compareLex, Ordering.isLE_then_iff_or, compareOn] at h
  rcases h with h | ⟨h, -⟩
  · exact le_of_lt (compare_lt_iff_lt.1 h)
  · exact le_of_eq (compare_eq_iff_eq.1 h)

namespace Schedule

variable {s s' : Schedule} {key : EncodedKey} {slot : TimerSlot} {t : Timer} {w : Instant}

/-- The agenda has a place for each timer of the tables and no other, and a timer stands in its own
slot. -/
structure Consistent (s : Schedule) : Prop where
  mem_agenda : ∀ due, due ∈ s.agenda ↔
    ∃ t, s.timer? due.key due.slot = some t ∧ t.target = due.target
  slot : ∀ key slot t, s.timer? key slot = some t → t.slot = slot

def lookup (tables : Std.ExtTreeMap EncodedKey SlotTable) (key : EncodedKey) (slot : TimerSlot) :
    Option Timer :=
  tables[key]?.bind (·[slot]?)

theorem timer?_eq_lookup (s : Schedule) (key : EncodedKey) (slot : TimerSlot) :
    s.timer? key slot = lookup s.tables key slot := rfl

@[simp] theorem timer?_empty (key : EncodedKey) (slot : TimerSlot) :
    empty.timer? key slot = none := by
  simp [timer?, empty]

theorem consistent_empty : empty.Consistent where
  mem_agenda due := by
    simp [empty, timer?, Std.ExtTreeSet.mem_iff_contains]
  slot key slot t h := by
    simp at h

theorem lookup_dropSlot {tables : Std.ExtTreeMap EncodedKey SlotTable} {table : SlotTable}
    (h : tables[key]? = some table) (k : EncodedKey) (sl : TimerSlot) :
    lookup (dropSlot tables key table slot) k sl =
      if key = k ∧ slot = sl then none else lookup tables k sl := by
  have herase (sl : TimerSlot) :
      (table.erase slot)[sl]? = if slot = sl then none else table[sl]? := by
    simp [Std.ExtTreeMap.getElem?_erase]
  unfold dropSlot lookup
  dsimp only
  generalize table.erase slot = rest at herase ⊢
  by_cases hk : key = k
  · subst hk
    -- A table that is left empty is dropped, which no lookup can tell from an empty table.
    by_cases he : rest.isEmpty
    · have hnone := herase sl
      rw [Std.ExtTreeMap.isEmpty_iff.1 he, Std.ExtTreeMap.getElem?_empty] at hnone
      by_cases hs : slot = sl
      · simp [he, hs]
      · rw [if_neg hs] at hnone
        simp [he, hs, h, ← hnone]
    · by_cases hs : slot = sl <;> simp [he, h, herase, hs]
  · by_cases he : rest.isEmpty <;>
      simp [he, hk, Std.ExtTreeMap.getElem?_erase, Std.ExtTreeMap.getElem?_insert]

theorem exists_set (s : Schedule) (key : EncodedKey) {t : Timer} (h : t.domain = .event) :
    ∃ s', s.set key t = .ok s' :=
  ⟨_, if_neg (not_not.2 h)⟩

theorem timer?_set (h : s.set key t = .ok s') (k : EncodedKey) (sl : TimerSlot) :
    s'.timer? k sl = if key = k ∧ t.slot = sl then some t else s.timer? k sl := by
  unfold set at h
  split at h
  · cases h
  · cases h
    by_cases hk : key = k
    · subst hk
      by_cases hs : t.slot = sl
      · simp [timer?, hs]
      · cases ht : s.tables[key]? <;>
          simp [timer?, ht, hs, Std.ExtTreeMap.getElem?_insert, Std.ExtTreeMap.getD_eq_getD_getElem?]
    · simp [timer?, hk, Std.ExtTreeMap.getElem?_insert]

theorem timer?_delete (s : Schedule) (key : EncodedKey) (slot : TimerSlot) (k : EncodedKey)
    (sl : TimerSlot) :
    (s.delete key slot).2.timer? k sl =
      if key = k ∧ slot = sl then none else s.timer? k sl := by
  unfold delete
  cases hk : s.tables[key]? with
  | none =>
    by_cases h : key = k ∧ slot = sl
    · simp [timer?, ← h.1, hk]
    · simp [h]
  | some table =>
    cases hs : table[slot]? with
    | none =>
      by_cases h : key = k ∧ slot = sl
      · simp [timer?, ← h.1, ← h.2, hk, hs]
      · simp [hs, h]
    | some t =>
      simp only [hs]
      exact lookup_dropSlot hk k sl

theorem Consistent.mem_erase (hs : s.Consistent) (ht : s.timer? key slot = some t) (due : Due) :
    due ∈ s.agenda.erase ⟨t.target, key, slot⟩ ↔
      due ∈ s.agenda ∧ ¬ (key = due.key ∧ slot = due.slot) := by
  rw [Std.ExtTreeSet.mem_erase, ne_eq, Std.LawfulEqOrd.compare_eq_iff_eq, and_comm]
  refine and_congr_right fun hd => not_congr ⟨fun h => by simp [← h], fun h => ?_⟩
  obtain ⟨t', ht', htarget⟩ := (hs.mem_agenda due).1 hd
  rw [← h.1, ← h.2, ht] at ht'
  cases ht'
  cases due
  simp_all

theorem Consistent.other_slot (hs : s.Consistent) (ht : s.timer? key slot = none) {due : Due}
    (hd : due ∈ s.agenda) : ¬ (key = due.key ∧ slot = due.slot) := by
  rintro ⟨hk, hsl⟩
  obtain ⟨t, ht', -⟩ := (hs.mem_agenda due).1 hd
  rw [← hk, ← hsl, ht] at ht'
  cases ht'

theorem mem_agenda_set (hs : s.Consistent) (h : s.set key t = .ok s') (due : Due) :
    due ∈ s'.agenda ↔
      due = ⟨t.target, key, t.slot⟩ ∨ due ∈ s.agenda ∧ ¬ (key = due.key ∧ t.slot = due.slot) := by
  have htable : (s.tables.getD key ∅)[t.slot]? = s.timer? key t.slot := by
    cases ht : s.tables[key]? <;> simp [timer?, ht, Std.ExtTreeMap.getD_eq_getD_getElem?]
  unfold set at h
  split at h
  · cases h
  · cases h
    simp only [htable, Std.ExtTreeSet.mem_insert, Std.LawfulEqOrd.compare_eq_iff_eq]
    refine or_congr eq_comm ?_
    cases ht : s.timer? key t.slot with
    | none => exact ⟨fun hd => ⟨hd, hs.other_slot ht hd⟩, fun hd => hd.1⟩
    | some previous => exact hs.mem_erase ht due

theorem Consistent.set (hs : s.Consistent) (h : s.set key t = .ok s') : s'.Consistent where
  mem_agenda due := by
    rw [mem_agenda_set hs h, timer?_set h]
    by_cases hd : key = due.key ∧ t.slot = due.slot
    · simp only [hd, not_true_eq_false, and_false, or_false, and_self]
      cases due
      simp_all [eq_comm]
    · have hne : due ≠ ⟨t.target, key, t.slot⟩ := by
        rintro rfl
        simp at hd
      simp [hd, hne, hs.mem_agenda]
  slot k sl t' ht := by
    rw [timer?_set h] at ht
    split at ht
    · cases ht
      simp_all
    · exact hs.slot k sl t' ht

theorem Consistent.delete (hs : s.Consistent) (key : EncodedKey) (slot : TimerSlot) :
    (s.delete key slot).2.Consistent where
  mem_agenda due := by
    have hagenda : due ∈ (s.delete key slot).2.agenda ↔
        due ∈ s.agenda ∧ ¬ (key = due.key ∧ slot = due.slot) := by
      unfold Schedule.delete
      cases hk : s.tables[key]? with
      | none =>
        have ht : s.timer? key slot = none := by simp [timer?, hk]
        exact ⟨fun hd => ⟨hd, hs.other_slot ht hd⟩, fun hd => hd.1⟩
      | some table =>
        cases hsl : table[slot]? with
        | none =>
          have ht : s.timer? key slot = none := by simp [timer?, hk, hsl]
          simp only [hsl]
          exact ⟨fun hd => ⟨hd, hs.other_slot ht hd⟩, fun hd => hd.1⟩
        | some t =>
          have ht : s.timer? key slot = some t := by simp [timer?, hk, hsl]
          simp only [hsl]
          exact hs.mem_erase ht due
    rw [hagenda, timer?_delete, hs.mem_agenda]
    by_cases hd : key = due.key ∧ slot = due.slot <;> simp [hd]
  slot k sl t ht := by
    rw [timer?_delete] at ht
    split at ht
    · cases ht
    · exact hs.slot k sl t ht

theorem mem_takeWhile_agenda (s : Schedule) (w : Instant) (due : Due) :
    due ∈ s.agenda.toList.takeWhile (·.target ≤ w) ↔ due ∈ s.agenda ∧ due.target ≤ w := by
  rw [← Std.ExtTreeSet.mem_toList]
  have hsorted := s.agenda.ordered_toList
  generalize s.agenda.toList = places at hsorted ⊢
  induction places with
  | nil => simp
  | cons place places ih =>
    obtain ⟨hplace, hsorted⟩ := List.pairwise_cons.1 hsorted
    by_cases hw : place.target ≤ w
    · rw [List.takeWhile_cons_of_pos (by simpa using hw), List.mem_cons, List.mem_cons]
      constructor
      · rintro (rfl | h)
        · exact ⟨Or.inl rfl, hw⟩
        · exact ⟨Or.inr ((ih hsorted).1 h).1, ((ih hsorted).1 h).2⟩
      · rintro ⟨rfl | h, hd⟩
        · exact Or.inl rfl
        · exact Or.inr ((ih hsorted).2 ⟨h, hd⟩)
    · rw [List.takeWhile_cons_of_neg (by simpa using hw)]
      refine ⟨fun h => by simp at h, ?_⟩
      rintro ⟨hd, hdw⟩
      rcases List.mem_cons.1 hd with rfl | hd
      · exact absurd hdw hw
      · exact absurd (le_trans (Due.target_le_of_isLE (Ordering.isLE_of_eq_lt (hplace due hd))) hdw) hw

theorem fire_eq (tables : Std.ExtTreeMap EncodedKey SlotTable) (due : Due) :
    (fire tables due).1 = (lookup tables due.key due.slot).map (⟨due.key, ·⟩) := by
  unfold fire lookup
  cases hk : tables[due.key]? with
  | none => rfl
  | some table => cases hs : table[due.slot]? <;> simp [hs]

theorem lookup_fire (tables : Std.ExtTreeMap EncodedKey SlotTable) (due : Due) (k : EncodedKey)
    (sl : TimerSlot) :
    lookup (fire tables due).2 k sl =
      if due.key = k ∧ due.slot = sl then none else lookup tables k sl := by
  unfold fire
  cases hk : tables[due.key]? with
  | none =>
    by_cases h : due.key = k ∧ due.slot = sl
    · simp [lookup, ← h.1, hk]
    · simp [h]
  | some table =>
    cases hs : table[due.slot]? with
    | none =>
      by_cases h : due.key = k ∧ due.slot = sl
      · simp [lookup, ← h.1, ← h.2, hk, hs]
      · simp [hs, h]
    | some t =>
      simp only [hs]
      exact lookup_dropSlot hk k sl

theorem lookup_fireAll (tables : Std.ExtTreeMap EncodedKey SlotTable) (dues : List Due)
    (k : EncodedKey) (sl : TimerSlot) :
    lookup (fireAll tables dues).2 k sl =
      if ∃ due ∈ dues, due.key = k ∧ due.slot = sl then none else lookup tables k sl := by
  induction dues generalizing tables with
  | nil => simp [fireAll]
  | cons due dues ih =>
    simp only [fireAll, ih, lookup_fire, List.exists_mem_cons_iff]
    by_cases h : due.key = k ∧ due.slot = sl
    · simp [h]
    · simp [h]

theorem fireAll_fired {tables : Std.ExtTreeMap EncodedKey SlotTable} {dues : List Due}
    (hdues : dues.Pairwise fun d d' => ¬ (d.key = d'.key ∧ d.slot = d'.slot)) :
    (fireAll tables dues).1 =
      dues.filterMap fun d => (lookup tables d.key d.slot).map (⟨d.key, ·⟩) := by
  induction dues generalizing tables with
  | nil => rfl
  | cons due dues ih =>
    obtain ⟨hdue, hdues⟩ := List.pairwise_cons.1 hdues
    have hrest : dues.filterMap (fun d =>
          (lookup (fire tables due).2 d.key d.slot).map (FiredTimer.mk d.key)) =
        dues.filterMap fun d => (lookup tables d.key d.slot).map (FiredTimer.mk d.key) := by
      refine List.filterMap_congr fun d hd => ?_
      rw [lookup_fire, if_neg (hdue d hd)]
    simp only [fireAll, ih hdues, hrest, fire_eq, List.filterMap_cons]
    cases lookup tables due.key due.slot <;> rfl

theorem timer?_popDue (hs : s.Consistent) (w : Instant) (key : EncodedKey) (slot : TimerSlot) :
    (s.popDue w).2.timer? key slot = (s.timer? key slot).filter (w < ·.target) := by
  have hdue : (∃ due ∈ s.agenda.toList.takeWhile (·.target ≤ w), due.key = key ∧ due.slot = slot) ↔
      ∃ t, s.timer? key slot = some t ∧ t.target ≤ w := by
    simp only [mem_takeWhile_agenda, hs.mem_agenda]
    constructor
    · rintro ⟨due, ⟨⟨t, ht, htarget⟩, hw⟩, rfl, rfl⟩
      exact ⟨t, ht, htarget ▸ hw⟩
    · rintro ⟨t, ht, hw⟩
      exact ⟨⟨t.target, key, slot⟩, ⟨⟨t, ht, rfl⟩, hw⟩, rfl, rfl⟩
  show lookup (fireAll s.tables _).2 key slot = _
  rw [lookup_fireAll, ← timer?_eq_lookup]
  simp only [hdue]
  cases ht : s.timer? key slot with
  | none => simp
  | some t =>
    by_cases hw : t.target ≤ w
    · simp [Option.filter, hw, not_lt.2 hw]
    · simp [Option.filter, hw, not_le.1 hw]

theorem Consistent.distinct_agenda (hs : s.Consistent) :
    s.agenda.toList.Pairwise fun d d' => ¬ (d.key = d'.key ∧ d.slot = d'.slot) := by
  refine s.agenda.distinct_toList.imp_of_mem fun {d d'} hd hd' hne h => hne ?_
  obtain ⟨t, ht, htarget⟩ := (hs.mem_agenda d).1 (Std.ExtTreeSet.mem_toList.1 hd)
  obtain ⟨t', ht', htarget'⟩ := (hs.mem_agenda d').1 (Std.ExtTreeSet.mem_toList.1 hd')
  rw [← h.1, ← h.2, ht] at ht'
  cases ht'
  rw [Std.LawfulEqOrd.compare_eq_iff_eq]
  cases d; cases d'
  simp_all

theorem Consistent.distinct_takeWhile_agenda (hs : s.Consistent) (w : Instant) :
    (s.agenda.toList.takeWhile (·.target ≤ w)).Pairwise
      fun d d' => ¬ (d.key = d'.key ∧ d.slot = d'.slot) :=
  hs.distinct_agenda.sublist (List.takeWhile_sublist _)

theorem mem_popDue (hs : s.Consistent) {w : Instant} {f : FiredTimer} :
    f ∈ (s.popDue w).1 ↔
      s.timer? f.key f.timer.slot = some f.timer ∧ f.timer.target ≤ w := by
  show f ∈ (fireAll s.tables _).1 ↔ _
  rw [fireAll_fired (hs.distinct_takeWhile_agenda w), List.mem_filterMap]
  simp only [mem_takeWhile_agenda, hs.mem_agenda, ← timer?_eq_lookup, Option.map_eq_some_iff]
  constructor
  · rintro ⟨due, ⟨⟨t, ht, htarget⟩, hw⟩, t', ht', rfl⟩
    rw [ht] at ht'
    cases ht'
    rw [hs.slot _ _ _ ht]
    exact ⟨ht, htarget ▸ hw⟩
  · rintro ⟨ht, hw⟩
    exact ⟨⟨f.timer.target, f.key, f.timer.slot⟩, ⟨⟨f.timer, ht, rfl⟩, hw⟩, f.timer, ht, rfl⟩

theorem Consistent.pairwise_popDue (hs : s.Consistent) (w : Instant) :
    (s.popDue w).1.Pairwise fun f g => ¬ (f.key = g.key ∧ f.timer.slot = g.timer.slot) := by
  have hdistinct := hs.distinct_takeWhile_agenda w
  show (fireAll s.tables _).1.Pairwise _
  rw [fireAll_fired hdistinct, List.pairwise_filterMap]
  refine hdistinct.imp fun {d d'} hne f hf g hg h => hne ?_
  simp only [← timer?_eq_lookup, Option.map_eq_some_iff] at hf hg
  obtain ⟨t, ht, rfl⟩ := hf
  obtain ⟨t', ht', rfl⟩ := hg
  rw [← hs.slot _ _ _ ht, ← hs.slot _ _ _ ht']
  exact h

theorem filter_popDue (hs : s.Consistent) (w : Instant) (key : EncodedKey) (slot : TimerSlot) :
    (s.popDue w).1.filter (FiredTimer.isAt key slot) =
      ((s.timer? key slot).filter (·.target ≤ w)).toList.map (⟨key, ·⟩) := by
  have hpairwise := (hs.pairwise_popDue w).filter (FiredTimer.isAt key slot)
  have hmem (f : FiredTimer) : f ∈ (s.popDue w).1.filter (FiredTimer.isAt key slot) ↔
      f.key = key ∧ s.timer? key slot = some f.timer ∧ f.timer.target ≤ w := by
    simp only [List.mem_filter, mem_popDue hs, FiredTimer.isAt, decide_eq_true_eq]
    constructor
    · rintro ⟨hf, rfl, rfl⟩
      exact ⟨rfl, hf⟩
    · rintro ⟨rfl, ht, hw⟩
      rw [hs.slot _ _ _ ht]
      exact ⟨⟨ht, hw⟩, rfl, rfl⟩
  -- Timers of one slot do not fire together, so its list is told by its members.
  generalize (s.popDue w).1.filter (FiredTimer.isAt key slot) = fired at hpairwise hmem ⊢
  cases ht : (s.timer? key slot).filter (·.target ≤ w) with
  | none =>
    refine List.eq_nil_iff_forall_not_mem.2 fun f hf => ?_
    obtain ⟨-, hf, hw⟩ := (hmem f).1 hf
    rw [hf, Option.filter_some, if_pos (by simpa using hw)] at ht
    cases ht
  | some t =>
    rw [Option.filter_eq_some_iff, decide_eq_true_eq] at ht
    have hsame : ∀ f ∈ fired, f = ⟨key, t⟩ := by
      rintro ⟨k, t'⟩ hf
      obtain ⟨rfl, ht', -⟩ := (hmem _).1 hf
      rw [ht.1] at ht'
      cases ht'
      rfl
    have hfires := (hmem ⟨key, t⟩).2 ⟨rfl, ht⟩
    rcases fired with _ | ⟨f, rest⟩
    · cases hfires
    · obtain ⟨hother, -⟩ := List.pairwise_cons.1 hpairwise
      have hrest : rest = [] := by
        refine List.eq_nil_iff_forall_not_mem.2 fun g hg => hother g hg ?_
        rw [hsame f List.mem_cons_self, hsame g (List.mem_cons_of_mem f hg)]
        exact ⟨rfl, rfl⟩
      rw [hrest, hsame f List.mem_cons_self]
      rfl

theorem Consistent.popDue (hs : s.Consistent) (w : Instant) : (s.popDue w).2.Consistent where
  mem_agenda due := by
    have hagenda : due ∈ (s.popDue w).2.agenda ↔ due ∈ s.agenda ∧ w < due.target := by
      show due ∈ s.agenda.filter _ ↔ _
      rw [← Std.ExtTreeSet.mem_toList, Std.ExtTreeSet.toList_filter, List.mem_filter,
        Std.ExtTreeSet.mem_toList]
      simp
    rw [hagenda, hs.mem_agenda]
    simp only [timer?_popDue hs, Option.filter_eq_some_iff, decide_eq_true_eq]
    constructor
    · rintro ⟨⟨t, ht, htarget⟩, hw⟩
      exact ⟨t, ⟨ht, htarget ▸ hw⟩, htarget⟩
    · rintro ⟨t, ⟨ht, hw⟩, htarget⟩
      exact ⟨⟨t, ht, htarget⟩, htarget ▸ hw⟩
  slot key slot t ht := by
    rw [timer?_popDue hs, Option.filter_eq_some_iff] at ht
    exact hs.slot key slot t ht.1

def Later (s : Schedule) (w : Instant) : Prop :=
  ∀ key slot t, s.timer? key slot = some t → w < t.target

theorem Consistent.later_popDue (hs : s.Consistent) (w : Instant) : (s.popDue w).2.Later w := by
  intro key slot t ht
  rw [timer?_popDue hs, Option.filter_eq_some_iff] at ht
  simpa using ht.2

theorem timer?_applyOp {op : TimerOp} (h : s.applyOp op = .ok s') (key : EncodedKey)
    (slot : TimerSlot) : s'.timer? key slot = op.leave key slot (s.timer? key slot) := by
  cases op with
  | set k t => exact timer?_set h key slot
  | delete k sl =>
    cases h
    exact timer?_delete s k sl key slot

theorem Consistent.applyOp (hs : s.Consistent) {op : TimerOp} (h : s.applyOp op = .ok s') :
    s'.Consistent := by
  cases op with
  | set k t => exact hs.set h
  | delete k sl =>
    cases h
    exact hs.delete k sl

@[simp] theorem applyOps_nil (s : Schedule) : s.applyOps [] = .ok s := rfl

theorem applyOps_cons {op : TimerOp} {ops : List TimerOp} :
    s.applyOps (op :: ops) = .ok s' ↔ ∃ m, s.applyOp op = .ok m ∧ m.applyOps ops = .ok s' := by
  simp only [applyOps, List.foldlM_cons]
  cases s.applyOp op <;> simp [bind, Except.bind]

theorem timer?_applyOps {ops : List TimerOp} (h : s.applyOps ops = .ok s') (key : EncodedKey)
    (slot : TimerSlot) :
    s'.timer? key slot = ops.foldl (fun t op => op.leave key slot t) (s.timer? key slot) := by
  induction ops generalizing s with
  | nil =>
    cases h
    rfl
  | cons op ops ih =>
    obtain ⟨m, hm, h⟩ := applyOps_cons.1 h
    rw [ih h, timer?_applyOp hm, List.foldl_cons]

theorem Consistent.applyOps (hs : s.Consistent) {ops : List TimerOp}
    (h : s.applyOps ops = .ok s') : s'.Consistent := by
  induction ops generalizing s with
  | nil =>
    cases h
    exact hs
  | cons op ops ih =>
    obtain ⟨m, hm, h⟩ := applyOps_cons.1 h
    exact ih (hs.applyOp hm) h

theorem fireAll_append (tables : Std.ExtTreeMap EncodedKey SlotTable) (xs ys : List Due) :
    fireAll tables (xs ++ ys) =
      ((fireAll tables xs).1 ++ (fireAll (fireAll tables xs).2 ys).1,
        (fireAll (fireAll tables xs).2 ys).2) := by
  induction xs generalizing tables with
  | nil => rfl
  | cons x xs ih => simp only [List.cons_append, fireAll, ih, List.append_assoc]

theorem takeWhile_agenda_of_le (s : Schedule) {w w' : Instant} (h : w ≤ w') :
    s.agenda.toList.takeWhile (·.target ≤ w') =
      s.agenda.toList.takeWhile (·.target ≤ w) ++
        (s.agenda.filter (¬ ·.target ≤ w)).toList.takeWhile (·.target ≤ w') := by
  rw [Std.ExtTreeSet.toList_filter]
  have hsorted := s.agenda.ordered_toList
  generalize s.agenda.toList = places at hsorted ⊢
  induction places with
  | nil => rfl
  | cons place places ih =>
    obtain ⟨hplace, hsorted⟩ := List.pairwise_cons.1 hsorted
    by_cases hw : place.target ≤ w
    · simp [hw, le_trans hw h, ih hsorted]
    · -- From the first place that is not due on, none is.
      have hlater : ∀ due ∈ place :: places, decide (¬ due.target ≤ w) = true := by
        intro due hdue
        rw [decide_eq_true_eq]
        intro hdueW
        cases List.mem_cons.1 hdue with
        | inl heq => exact hw (heq ▸ hdueW)
        | inr hmem =>
          have hle := Due.target_le_of_isLE (Ordering.isLE_of_eq_lt (hplace due hmem))
          exact hw (le_trans hle hdueW)
      rw [List.filter_eq_self.2 hlater]
      simp [hw]

theorem popDue_of_le (s : Schedule) {w w' : Instant} (h : w ≤ w') :
    s.popDue w' =
      ((s.popDue w).1 ++ ((s.popDue w).2.popDue w').1, ((s.popDue w).2.popDue w').2) := by
  have hagenda : s.agenda.filter (¬ ·.target ≤ w') =
      (s.agenda.filter (¬ ·.target ≤ w)).filter (¬ ·.target ≤ w') := by
    rw [← Std.ExtTreeSet.toList_inj, Std.ExtTreeSet.toList_filter, Std.ExtTreeSet.toList_filter,
      Std.ExtTreeSet.toList_filter, List.filter_filter]
    apply List.filter_congr
    intro due _
    by_cases hw : due.target ≤ w
    · simp [hw, le_trans hw h]
    · simp [hw]
  simp only [popDue]
  rw [takeWhile_agenda_of_le s h, fireAll_append, hagenda]

theorem popDue_popDue (s : Schedule) (w : Instant) :
    (s.popDue w).2.popDue w = ([], (s.popDue w).2) := by
  have hpop := s.popDue_of_le (le_refl w)
  have hfired := congrArg Prod.fst hpop
  have hschedule := congrArg Prod.snd hpop
  exact Prod.ext (List.self_eq_append_right.1 hfired) hschedule.symm

end Schedule

end StreamOperator
