import StreamOperator.Proofs.Runner.Atomicity
import StreamOperator.Proofs.Runner.Boundaries
import StreamOperator.Proofs.Runner.Effects
import StreamOperator.Proofs.Runner.ForwardTimers
import StreamOperator.Proofs.Runner.Turns

/-! What a call leaves alone. The function touches timers and cells only under the key of an element
that it is handed and under the key of a timer that fires. So a call moves no timer of another key,
and no cell of another key or of another operator. -/

namespace StreamOperator

variable {μ ι ο ρ σ : Type}

/-- A batch changes no cell that it does not name, whether the store takes it or refuses it. -/
def StateStore.Precise (σ : Type) [StateStore σ] : Prop :=
  ∀ (s : σ) (writes : List CellWrite) (a : Address), (∀ w ∈ writes, w.1 ≠ a) →
    get (apply s writes).2 a = get s a

theorem Cells.precise : StateStore.Precise Cells := by
  intro cells writes a ha
  have hnamed : a ∉ writes.map Prod.fst := by
    intro hmem
    obtain ⟨w, hw, hwa⟩ := List.mem_map.1 hmem
    exact ha w hw hwa
  exact congrArg Except.ok (get?_writeAll_of_not_mem cells hnamed)

namespace Schedule

variable {s s' : Schedule} {key : EncodedKey} {w : Instant} {rounds : List (List Firing)}

theorem alikeFor_of_timer? (hs : s.Consistent) (hs' : s'.Consistent)
    (h : ∀ slot, s'.timer? key slot = s.timer? key slot) : s'.AlikeFor key s where
  timer? := h
  mem_agenda due hdue := by rw [hs.mem_agenda, hs'.mem_agenda, hdue, h]

theorem AlikeFor.timersFor_eq (h : s'.AlikeFor key s) : s'.timersFor key = s.timersFor key := by
  have htimers (s : Schedule) : s.timersFor key = (s.tables.getD key ∅).values := by
    unfold timersFor
    rw [Std.ExtTreeMap.getD_eq_getD_getElem?]
    cases s.tables[key]? <;> rfl
  have htables : s'.tables.getD key ∅ = s.tables.getD key ∅ := by
    apply Std.ExtTreeMap.ext_getElem?
    intro slot
    have hslot := h.timer? slot
    unfold Schedule.timer? at hslot
    rw [Std.ExtTreeMap.getD_eq_getD_getElem?, Std.ExtTreeMap.getD_eq_getD_getElem?]
    cases hs' : s'.tables[key]? <;> cases hs : s.tables[key]? <;> simp_all
  rw [htimers, htimers, htables]

theorem alikeFor_of_settles (h : Settles w s rounds s') (hs : s.Consistent)
    (hfired : ∀ f ∈ rounds.flatten.map Firing.fired, f.key ≠ key)
    (hops : ∀ op ∈ rounds.flatten.flatMap Firing.ops, op.key ≠ key) : s'.AlikeFor key s := by
  refine alikeFor_of_timer? hs (h.consistent hs) fun slot => ?_
  have huntouched : ∀ op ∈ rounds.flatten.flatMap Firing.ops, op.touches key slot = false := by
    intro op hop
    have hkey := hops op hop
    cases op with
    | set k t => exact decide_eq_false fun h => hkey h.1
    | delete k sl => exact decide_eq_false fun h => hkey h.1
  -- A timer of the key that was due would have fired.
  have hlater : ∀ t, s.timer? key slot = some t → w < t.target := by
    intro t ht
    by_contra hdue
    have honce := h.fires_once hs ht (not_lt.1 hdue) huntouched
    have hmem : (⟨key, t⟩ : FiredTimer) ∈
        (rounds.flatten.map Firing.fired).filter (FiredTimer.isAt key slot) := by
      rw [honce]
      exact List.mem_singleton_self _
    exact hfired _ (List.mem_filter.1 hmem).1 rfl
  obtain ⟨m, hrounds, hend⟩ := h
  obtain ⟨-, hstays⟩ := hrounds.quiet hs huntouched hlater
  have hlast := timer?_popDue (hrounds.consistent hs) w key slot
  rw [hend, hstays] at hlast
  rw [hlast]
  cases ht : s.timer? key slot with
  | none => rfl
  | some t => exact Option.filter_eq_some_iff.2 ⟨rfl, decide_eq_true (hlater t ht)⟩

end Schedule

namespace Event

variable {log : List (Event ι ο)} {key : EncodedKey}

theorem under_of_mem_firings {f : FiredTimer} (h : f ∈ firings log) : Under f.key log := by
  obtain ⟨e, he, hfired⟩ := List.mem_filterMap.1 h
  cases e with
  | called occasion key =>
    cases occasion with
    | timer t =>
      obtain ⟨k, rfl, rfl⟩ := Option.map_eq_some_iff.1 hfired
      exact ⟨_, he⟩
    | _ => cases hfired
  | asked q reply => cases hfired
  | ended result => cases hfired

end Event

namespace Runner

variable [SideInputReader ρ] [StateStore σ] {o : Operator μ ι ο} {r r' : Runner μ ι ο ρ σ}
  {c : Call ι} {key : EncodedKey}

/-- A call hands the function an element of the key, or fires a timer of it. -/
def Touches (r : Runner μ ι ο ρ σ) (c : Call ι) (key : EncodedKey) : Prop :=
  (∃ piece ∈ Event.handed (r.events c), r.keyOf piece.value = .ok (some key)) ∨
    ∃ f ∈ Event.firings (r.events c), f.key = key

theorem Sound.touches_of_under (hr : Sound o r) (h : Event.Under key (r.events c)) :
    r.Touches c key := by
  obtain ⟨turns, htells, -⟩ := hr.exists_turns c
  obtain ⟨occasion, hcalled⟩ := h
  have hturn : ∃ t ∈ turns, t.occasion = occasion ∧ t.context.key = some key := by
    rw [htells.record, List.mem_flatMap] at hcalled
    obtain ⟨t, ht, hcalled⟩ := hcalled
    refine ⟨t, ht, ?_⟩
    rw [Turn.events, List.cons_append, List.mem_cons, List.mem_append, List.mem_singleton] at hcalled
    rcases hcalled with heq | hasked | hended
    · injection heq with hoccasion hkey
      exact ⟨hoccasion.symm, hkey.symm⟩
    · obtain ⟨q, reply, heq⟩ := t.context.asked_of_mem_events _ _ _ hasked
      cases heq
    · cases hended
  obtain ⟨t, ht, hoccasion, hkey⟩ := hturn
  subst hoccasion
  have hkeyed := (htells.surrounds t ht).key
  rw [hkey, received_frame] at hkeyed
  cases hoccasion : t.occasion with
  | element piece =>
    rw [hoccasion] at hkeyed
    exact .inl ⟨piece, htells.mem_handed_iff.2 ⟨t, ht, hoccasion⟩, hkeyed⟩
  | timer fired =>
    rw [hoccasion] at hcalled
    exact .inr ⟨⟨key, fired⟩, List.mem_filterMap.2 ⟨_, hcalled, rfl⟩, rfl⟩
  | _ =>
    rw [hoccasion] at hkeyed
    cases hkeyed

theorem Sound.alikeFor_call (hr : Sound o r) (h : ¬ r.Touches c key) :
    (r.call c).2.schedule.AlikeFor key r.schedule := by
  have hunder : ¬ Event.Under key (r.events c) := fun hunder => h (hr.touches_of_under hunder)
  have hops : ∀ op ∈ Event.timerOps (r.events c), op.key ≠ key := by
    rintro op hop rfl
    exact hunder (Event.under_of_mem_timerOps hop)
  have hfirings : ∀ f ∈ Event.firings (r.events c), f.key ≠ key := by
    rintro f hf rfl
    exact hunder (Event.under_of_mem_firings hf)
  rcases hc : r.call c with ⟨e | result, r'⟩
  · rw [(hr.kept_of_call_error hc).2.2.2]
    exact .refl key _
  · have hpass (time : Instant) (htime : c = .watermark time) : r'.schedule.AlikeFor key r.schedule := by
      subst htime
      obtain ⟨rounds, hsettles, hrecord, -⟩ := rounds_of_processWatermark_ok hc
      rw [hrecord.firings] at hfirings
      rw [hrecord.timerOps] at hops
      exact Schedule.alikeFor_of_settles hsettles hr.scheduled hfirings hops
    have hsucceeded := call_ok hr.scheduled hc
    generalize r.events c = events at hsucceeded hops
    cases hsucceeded with
    | bracket | ignored | arrived => exact .refl key _
    | bundle committed =>
      exact Schedule.alikeFor_applyOps committed.schedule (committed.timerOps ▸ hops)
    | replayed declared committed =>
      exact Schedule.alikeFor_applyOps committed.schedule (committed.timerOps ▸ hops)
    | passed passed => exact hpass _ rfl

theorem ends_callback_firings (c : Context ρ σ) {occasion : Occasion ι}
    (hoccasion : ∀ key, occasion.fired? key = none) (stage : Stage) (body : Callback μ ι ο)
    (s : Staging ι ο) {memory : μ × List (Event ι ο)} (h : Event.firings memory.2 = []) :
    (c.callback stage (body.recorded occasion) s).Ends memory
      (fun _ memory => Event.firings memory.2 = []) fun memory => Event.firings memory.2 = [] := by
  have hevents : Event.firings (memory.2 ++ c.callbackEvents occasion body s memory.1) = [] := by
    obtain ⟨ops, -, hmoves⟩ := c.moves_append_callbackEvents occasion body s memory.1
    rw [Event.firings_eq, hmoves, hoccasion, List.filterMap_append, List.filterMap_append,
      ← Event.firings_eq, h]
    simp [TimerMove.fired?]
  refine (c.ends_callback_recorded stage occasion body s memory.1 memory.2).mono ?_ ?_
  · intro s' memory' hs
    rw [hs.2, hevents]
  · intro memory' hlog
    rw [hlog, hevents]

theorem ends_bundleSession_firings (r : Runner μ ι ο ρ σ) (elements : List (Element ι))
    {memory : μ × List (Event ι ο)} (h : Event.firings memory.2 = []) :
    ((r.recorded []).bundleSession elements).Ends memory
      (fun _ memory => Event.firings memory.2 = []) fun memory => Event.firings memory.2 = [] := by
  have hpiece (key : Option EncodedKey) (piece : Element ι) (s : Staging ι ο)
      (memory : μ × List (Event ι ο)) (h : Event.firings memory.2 = []) :
      ((r.recorded []).processPiece key s piece).Ends memory
        (fun _ memory => Event.firings memory.2 = []) fun memory => Event.firings memory.2 = [] :=
    ends_callback_firings _ (fun _ => rfl) _ _ _ h
  refine .bind (ends_callback_firings _ (fun _ => rfl) _ _ _ h) fun s memory h => ?_
  refine .bind ((r.recorded []).ends_elements hpiece (fun _ _ _ h => h) (fun _ _ h => h) elements h)
    fun s memory h => ?_
  exact ends_callback_firings _ (fun _ => rfl) _ _ _ h

theorem firings_commitBundle (r : Runner μ ι ο ρ σ) (elements : List (Element ι)) :
    Event.firings ((r.recorded []).commitBundle elements).2.memory.2 = [] := by
  obtain ⟨log, hsetup, hlog⟩ := r.setup_recorded
  have hnone : Event.firings log = [] := hlog.firings
  rw [memory_commitBundle, hsetup]
  cases r.setup.1 with
  | error e => exact hnone
  | ok _ =>
    have hends : ((r.recorded []).bundleSession elements).Ends (r.setup.2.memory, log) _ _ :=
      r.ends_bundleSession_firings elements hnone
    exact hends.always

theorem firings_eq_nil (hc : ∀ time, c ≠ .watermark time) : Event.firings (r.events c) = [] := by
  cases c with
  | setup => exact r.onlyFires_setup.firings
  | teardown => exact r.onlyFires_teardown.firings
  | watermark time => exact absurd rfl (hc time)
  | bundle elements =>
    have hevents : r.events (.bundle elements) = _ :=
      congrArg Prod.snd ((r.recorded []).endsAlike_bundle elements).memory
    rw [hevents]
    exact r.firings_commitBundle elements
  | sideInput index message =>
    rcases (r.recorded []).sideInput_cases index message with ⟨-, hmemory, -⟩ | ⟨-, hends⟩
    · have hevents : r.events (.sideInput index message) = [] := congrArg Prod.snd hmemory
      rw [hevents]
      rfl
    · have hevents : r.events (.sideInput index message) = _ := congrArg Prod.snd hends.memory
      rw [hevents, received_recorded]
      exact (r.received _).firings_commitBundle r.pushback.elements

theorem not_touches_of_unkeyed (hkeys : r.operator.encodeKey = none) (hs : r.schedule.Consistent)
    (hnone : ∀ key slot, r.schedule.timer? key slot = none) : ¬ r.Touches c key := by
  rintro (⟨piece, -, hkey⟩ | ⟨f, hf, -⟩)
  · rw [keyOf, hkeys] at hkey
    cases hkey
  · by_cases hpass : ∃ time, c = .watermark time
    · obtain ⟨time, rfl⟩ := hpass
      obtain ⟨rounds, hfires, hrecord⟩ := r.rounds_of_processWatermark time
      have hdue : (r.schedule.popDue time).1 = [] := by
        refine List.eq_nil_iff_forall_not_mem.2 fun f hf => ?_
        have htimer := ((Schedule.mem_popDue hs).1 hf).1
        rw [hnone] at htimer
        cases htimer
      rw [hrecord.firings, hfires.flatten_eq_nil hdue] at hf
      cases hf
    · rw [firings_eq_nil fun time htime => hpass ⟨time, htime⟩] at hf
      cases hf

theorem Reached.timer?_eq_none (h : Reached o r) (hkeys : o.encodeKey = none) (key : EncodedKey)
    (slot : TimerSlot) : r.schedule.timer? key slot = none := by
  induction h generalizing key slot with
  | fresh h =>
    rw [(fresh_eq h).2.2.2]
    exact Schedule.timer?_empty key slot
  | @call r h c ih =>
    have hr := h.sound
    have huntouched : ¬ r.Touches c key :=
      not_touches_of_unkeyed (hr.operator ▸ hkeys) hr.scheduled ih
    rw [(hr.alikeFor_call huntouched).timer?, ih]
  | shared _ _ ih => exact ih key slot

theorem Sound.mem_written (hr : Sound o r) {a : Address} (h : a ∈ r.written (r.events c)) :
    a.operator = o.config.operatorId ∧ ∃ key, r.Touches c key ∧ a.key = key.bytes := by
  obtain ⟨w, hw, rfl⟩ := Staging.mem_stageWrites h
  obtain ⟨hoperator, key, hunder, hkey⟩ := Event.under_of_mem_cellWrites hw
  exact ⟨hoperator.trans (by rw [hr.operator]), key, hr.touches_of_under hunder, hkey⟩

theorem Sound.store_call (hr : Sound o r) (c : Call ι) :
    (r.call c).2.store = r.store ∨ ∃ s writes, r.store = some s ∧ writes ≠ [] ∧
      (r.call c).2.store = some (StateStore.apply s writes).2 ∧
      ∀ w ∈ writes, w.1.operator = o.config.operatorId ∧
        ∃ key, r.Touches c key ∧ w.1.key = key.bytes := by
  rcases r.store_of_call c with hsame | hbatch
  · exact .inl hsame
  · cases hstore : r.store with
    | none =>
      rw [hstore] at hbatch
      exact .inl hbatch
    | some s =>
      rw [hstore, applyWrites] at hbatch
      by_cases hempty : (r.written (r.events c)).isEmpty
      · rw [if_pos hempty] at hbatch
        exact .inl hbatch
      · rw [if_neg hempty] at hbatch
        refine .inr ⟨s, (r.written (r.events c)).toList, rfl, ?_, hbatch, ?_⟩
        · intro hnil
          rw [← Std.ExtTreeMap.isEmpty_toList, hnil] at hempty
          exact hempty rfl
        · intro w hw
          have hmem : w.1 ∈ r.written (r.events c) := by
            rw [Std.ExtTreeMap.mem_iff_isSome_getElem?,
              Std.ExtTreeMap.mem_toList_iff_getElem?_eq_some.1 hw]
            rfl
          exact hr.mem_written hmem

/-- A call hands the store at most one batch, of cells of its own operator under keys that it touches.
So over a store that changes no more than the cells of a batch it changes no others, and it leaves
the timers of all keys that it does not touch. A runner without keys leaves everything. -/
theorem confined_of_reached (h : Reached o r) (c : Call ι) :
    ((r.call c).2.store = r.store ∨ ∃ s writes, r.store = some s ∧ writes ≠ [] ∧
      (r.call c).2.store = some (StateStore.apply s writes).2 ∧
      ∀ w ∈ writes, w.1.operator = o.config.operatorId ∧
        ∃ key, r.Touches c key ∧ w.1.key = key.bytes) ∧
    (StateStore.Precise σ → ∀ a,
      a.operator ≠ o.config.operatorId ∨ (∀ key, r.Touches c key → key.bytes ≠ a.key) →
        (r.call c).2.cell? a = r.cell? a) ∧
    (∀ key, ¬ r.Touches c key → (r.call c).2.schedule.AlikeFor key r.schedule ∧
      (r.call c).2.schedule.timersFor key = r.schedule.timersFor key) ∧
    (o.encodeKey = none → (r.call c).2.store = r.store ∧
      ∀ key, (r.call c).2.schedule.AlikeFor key r.schedule) := by
  have hr := h.sound
  have hstore := hr.store_call c
  refine ⟨hstore, ?_, ?_, ?_⟩
  · intro hprecise a ha
    rcases hstore with hsame | ⟨s, writes, hs, -, hs', hwrites⟩
    · rw [cell?, cell?, hsame]
    · have hother : ∀ w ∈ writes, w.1 ≠ a := by
        rintro w hw rfl
        obtain ⟨hoperator, key, htouches, hkey⟩ := hwrites w hw
        rcases ha with hforeign | huntouched
        · exact hforeign hoperator
        · exact huntouched key htouches hkey.symm
      rw [cell?, cell?, hs, hs', Option.map_some, Option.map_some, hprecise s writes a hother]
  · intro key huntouched
    have halike := hr.alikeFor_call huntouched
    exact ⟨halike, halike.timersFor_eq⟩
  · intro hkeys
    have huntouched (key : EncodedKey) : ¬ r.Touches c key :=
      not_touches_of_unkeyed (hr.operator ▸ hkeys) hr.scheduled (h.timer?_eq_none hkeys)
    refine ⟨?_, fun key => hr.alikeFor_call (huntouched key)⟩
    rcases hstore with hsame | ⟨s, writes, -, hne, -, hwrites⟩
    · exact hsame
    · obtain ⟨w, hw⟩ := List.exists_mem_of_ne_nil writes hne
      obtain ⟨-, key, htouches, -⟩ := hwrites w hw
      exact absurd htouches (huntouched key)

def tallies : Operator Unit Nat Nat :=
  { tally with encodeKey := some fun n => .ok ⟨[n.toUInt8 % 2]⟩ }

def talliesStart : Runner Unit Nat Nat NoSideInputs Cells :=
  { tallyStart with
    operator := tallies
    store := some (.put .empty ⟨"other", [0], .global, "tally"⟩ [9]) }

theorem confined_of_tallies :
    let odd := (talliesStart.call (.bundle [.inGlobalWindow 1 ⟨10⟩])).2
    let even := (odd.call (.bundle [.inGlobalWindow 2 ⟨20⟩])).2
    let tallyOf (operator : String) (key : UInt8) : Address := ⟨operator, [key], .global, "tally"⟩
    odd.cell? (tallyOf "operator" 0) = some (.ok none) ∧
      even.cell? (tallyOf "operator" 0) = some (.ok (some [0])) ∧
      even.cell? (tallyOf "operator" 1) = some (.ok (some [0])) ∧
      even.cell? (tallyOf "other" 0) = some (.ok (some [9])) ∧
      even.schedule.timersFor ⟨[1]⟩ = odd.schedule.timersFor ⟨[1]⟩ ∧
      (odd.schedule.timersFor ⟨[1]⟩).length = 1 := by
  intro odd even tallyOf
  have hfresh : tallies.runner NoSideInputs.mk talliesStart.store () = .ok talliesStart := by rfl
  have hodd : Reached tallies odd := .call (.fresh hfresh) _
  obtain ⟨-, hcells, htimers, -⟩ := confined_of_reached hodd (.bundle [.inGlobalWindow 2 ⟨20⟩])
  have hhanded : Event.handed (odd.events (.bundle [.inGlobalWindow 2 ⟨20⟩])) =
      [.inGlobalWindow 2 ⟨20⟩] := by
    decide +kernel
  have hfirings : Event.firings (odd.events (.bundle [.inGlobalWindow 2 ⟨20⟩])) = [] :=
    firings_eq_nil nofun
  have htouched : ∀ key, odd.Touches (.bundle [.inGlobalWindow 2 ⟨20⟩]) key → key = ⟨[0]⟩ := by
    rintro key (⟨piece, hpiece, hkey⟩ | ⟨f, hf, -⟩)
    · rw [hhanded, List.mem_singleton] at hpiece
      subst hpiece
      cases hkey
      rfl
    · rw [hfirings] at hf
      cases hf
  refine ⟨by decide +kernel, by decide +kernel, ?_, ?_, ?_, by decide +kernel⟩
  · refine (hcells Cells.precise (tallyOf "operator" 1) (.inr ?_)).trans (by decide +kernel)
    intro key hkey
    rw [htouched key hkey]
    decide
  · exact (hcells Cells.precise (tallyOf "other" 0) (.inl (by decide))).trans (by decide +kernel)
  · refine (htimers ⟨[1]⟩ fun h => ?_).2
    cases htouched _ h

end Runner

end StreamOperator
