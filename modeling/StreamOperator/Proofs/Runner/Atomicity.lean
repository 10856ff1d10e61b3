import StreamOperator.Proofs.Runner.Sound

/-! A failed call takes no effect. It may have been the function, a refused request, the encoding of
a key, the watermark or the store that failed: the watermarks, the timers, the buffer and the cells
are those from before the call. -/

namespace StreamOperator

def StateStore.AllOrNothing (σ : Type) [StateStore σ] : Prop :=
  ∀ (s s' : σ) (writes : List CellWrite) (e : StateError),
    apply s writes = (.error e, s') → ∀ a, get s' a = get s a

namespace Runner

variable {μ ι ο ρ σ : Type} [StateStore σ]

def cell? (r : Runner μ ι ο ρ σ) (a : Address) : Option (Except StateError (Option Bytes)) :=
  r.store.map (StateStore.get · a)

theorem cell?_of_unmoved (hstore : StateStore.AllOrNothing σ) {r r' : Runner μ ι ο ρ σ}
    (h : Unmoved r r') (a : Address) : r'.cell? a = r.cell? a := by
  rcases h.store with hsame | ⟨s, writes, e, s', hs, happly, hs'⟩
  · rw [cell?, cell?, hsame]
  · rw [cell?, cell?, hs, hs', Option.map_some, Option.map_some, hstore s s' writes e happly a]

variable [SideInputReader ρ]

/-- Over a store that takes a batch whole or not at all, a call that fails leaves both watermarks,
every timer, the buffer and every cell. It may have set the function up, and a side-input value
that it brought stays. -/
theorem failed_call_restores (hstore : StateStore.AllOrNothing σ) {o : Operator μ ι ο} {reader : ρ}
    {store : Option σ} {memory : μ} {r : Runner μ ι ο ρ σ}
    (h : o.runner reader store memory = .ok r) (cs : List (Call ι)) {c : Call ι}
    (hc : c ≠ .teardown) {e : ExecutionError} {r' : Runner μ ι ο ρ σ}
    (hfail : (r.calls cs).2.call c = (.error e, r')) :
    r'.inputWatermark = (r.calls cs).2.inputWatermark ∧
      r'.outputWatermark = (r.calls cs).2.outputWatermark ∧
      r'.schedule = (r.calls cs).2.schedule ∧
      r'.pushback = (r.calls cs).2.pushback ∧
      (∀ a, r'.cell? a = (r.calls cs).2.cell? a) ∧
      (r'.lifecycle = (r.calls cs).2.lifecycle ∨
        (r.calls cs).2.lifecycle = .created ∧ r'.lifecycle = .active) ∧
      r'.reader = ((r.calls cs).2.received c).reader ∧
      r'.operator = o ∧ r'.outputs = (r.calls cs).2.outputs := by
  have hsound := (sound_fresh h).calls cs
  have hmoved := call_error hsound.buffered hc hfail
  have hcell := cell?_of_unmoved hstore hmoved
  have hoperator := hmoved.operator
  have houtputs := hmoved.outputs
  have hpushback := hmoved.pushback
  have hwatermark := hmoved.watermark
  have hschedule := hmoved.schedule
  have hlifecycle := hmoved.lifecycle
  rw [received_frame] at hoperator houtputs hpushback hwatermark hschedule hlifecycle
  refine ⟨congrArg WatermarkTracker.input hwatermark, congrArg WatermarkTracker.output hwatermark,
    hschedule, hpushback, ?_, hlifecycle, hmoved.reader, hoperator.trans hsound.operator,
    houtputs⟩
  intro a
  rw [hcell, received_frame]
  rfl

structure Sealed where
  cells : Cells

instance : StateStore Sealed where
  get s a := .ok (s.cells.get? a)
  apply s _ := (.error (.storage "sealed"), s)

/-- Sets a timer for a value of zero and writes a cell for any other. -/
def scribe : Operator Unit Nat Nat where
  function := {
    processElement := fun e m =>
      if e.value = 0 then .ask (.setTimer (.eventTime .global "wake" ⟨50⟩)) fun _ =>
        .done (.success m)
      else .ask (.writeState .global "cell" (some [1])) fun _ => .done (.success m) }
  encodeKey := some fun _ => .ok ⟨[7]⟩

def scribeStart : Runner Unit Nat Nat NoSideInputs Sealed where
  operator := scribe
  outputs := ⟨"main", []⟩
  reader := ⟨⟩
  pushback := .empty
  watermark := .start false
  schedule := .empty
  store := some ⟨.empty⟩
  lifecycle := .created
  memory := ()

def scribeSet : Runner Unit Nat Nat NoSideInputs Sealed :=
  (scribeStart.calls [.bundle [.inGlobalWindow 0 ⟨10⟩]]).2

theorem failed_write_restores :
    ∃ e r', scribeSet.call (.bundle [.inGlobalWindow 1 ⟨20⟩]) = (.error e, r') ∧
      r'.schedule.timer? ⟨[7]⟩ ⟨.global, "wake"⟩ = some (.eventTime .global "wake" ⟨50⟩) ∧
      ∀ a, r'.cell? a = scribeSet.cell? a := by
  have hsealed : StateStore.AllOrNothing Sealed := by
    intro s s' writes e happly a
    cases happly
    rfl
  have hfresh : scribe.runner NoSideInputs.mk (some ⟨.empty⟩) () = .ok scribeStart := by rfl
  have hfails : (scribeSet.call (.bundle [.inGlobalWindow 1 ⟨20⟩])).1.isOk = false := by
    decide +kernel
  have htimer : scribeSet.schedule.timer? ⟨[7]⟩ ⟨.global, "wake"⟩ =
      some (.eventTime .global "wake" ⟨50⟩) := by
    decide +kernel
  rcases hcall : scribeSet.call (.bundle [.inGlobalWindow 1 ⟨20⟩]) with ⟨e | result, r'⟩
  · obtain ⟨-, -, hschedule, -, hcells, -⟩ :=
      failed_call_restores hsealed hfresh [.bundle [.inGlobalWindow 0 ⟨10⟩]] (by simp) hcall
    refine ⟨e, r', rfl, ?_, hcells⟩
    rw [hschedule]
    exact htimer
  · rw [hcall] at hfails
    cases hfails

end Runner

end StreamOperator
