import StreamOperator.Proofs.Runner.Watermark

/-! Every call on a runner, by how it ends. To the function a call is one bundle, one pass, setting
up, tearing down or nothing. A call that fails leaves unmoved a runner that received the value of the
call, if it brought one. A call that succeeds is one of the cases of `Succeeded`. -/

namespace StreamOperator.Runner

variable {μ ι ο ρ σ : Type}

theorem teardown_frame (r : Runner μ ι ο ρ σ) :
    r.teardown.2 = { r with memory := r.teardown.2.memory, lifecycle := r.teardown.2.lifecycle } := by
  unfold teardown
  dsimp only
  split
  · split <;> rfl
  · rfl

theorem teardown_recorded (r : Runner μ ι ο ρ σ) :
    ∃ log, (r.recorded []).teardown = (r.teardown.1, r.teardown.2.recorded log) ∧
      Event.OnlyFires [] [] log := by
  by_cases h : r.lifecycle = .active
  · refine ⟨[.called .teardown none, .ended (r.operator.function.teardown r.memory).result],
      ?_, ⟨rfl, rfl, rfl⟩⟩
    rcases hs : r.operator.function.teardown r.memory with ⟨_ | _, memory⟩ <;>
      simp [teardown, recorded, Operator.recorded, UserFunction.recorded, Outcome.recorded, h, hs]
  · exact ⟨[], by simp [teardown, recorded, h], .refl []⟩

variable [SideInputReader ρ]

/-- What a call brings for good, whether it succeeds or not: the value of a side input. -/
def received (r : Runner μ ι ο ρ σ) : Call ι → Runner μ ι ο ρ σ
  | .sideInput index (.data value) =>
    match r.operator.views[index]? with
    | some view => r.materialize view value
    | none => r
  | _ => r

theorem received_frame (r : Runner μ ι ο ρ σ) (c : Call ι) :
    r.received c = { r with reader := (r.received c).reader } := by
  unfold received
  split
  · split <;> rfl
  · rfl

@[simp] theorem operator_received (r : Runner μ ι ο ρ σ) (c : Call ι) :
    (r.received c).operator = r.operator := by
  rw [received_frame]

@[simp] theorem store_received (r : Runner μ ι ο ρ σ) (c : Call ι) :
    (r.received c).store = r.store := by
  rw [received_frame]

@[simp] theorem lifecycle_received (r : Runner μ ι ο ρ σ) (c : Call ι) :
    (r.received c).lifecycle = r.lifecycle := by
  rw [received_frame]

theorem received_recorded (r : Runner μ ι ο ρ σ) (log : List (Event ι ο)) (c : Call ι) :
    (r.recorded log).received c = (r.received c).recorded log := by
  have hviews : (r.recorded log).operator.views = r.operator.views := rfl
  cases c with
  | sideInput index message =>
    cases message with
    | data value =>
      simp only [received, hviews]
      cases r.operator.views[index]? <;> rfl
    | watermark t => rfl
  | _ => rfl

def offered (r : Runner μ ι ο ρ σ) : Call ι → List (Element ι)
  | .bundle elements => elements
  | .sideInput _ (.data _) => r.pushback.elements
  | _ => []

def Opens (r : Runner μ ι ο ρ σ) : Call ι → Prop
  | .bundle _ => True
  | .sideInput index (.data _) => (∃ view, r.operator.views[index]? = some view) ∧
      r.pushback.elements ≠ []
  | .watermark time => r.watermark.input ≤ time ∧ (r.schedule.popDue time).1 ≠ []
  | _ => False

/-- Two operations that the function and the store cannot tell apart. -/
structure EndsAlike {α β : Type} (x : Except ExecutionError α × Runner μ ι ο ρ σ)
    (y : Except ExecutionError β × Runner μ ι ο ρ σ) : Prop where
  result : x.1.map (fun _ => ()) = y.1.map fun _ => ()
  memory : x.2.memory = y.2.memory
  lifecycle : x.2.lifecycle = y.2.lifecycle
  store : x.2.store = y.2.store

variable [StateStore σ]

theorem endsAlike_setup (r : Runner μ ι ο ρ σ) : EndsAlike (r.call .setup) r.setup := by
  unfold call
  rcases r.setup with ⟨_ | _, _⟩ <;> exact ⟨rfl, rfl, rfl, rfl⟩

theorem endsAlike_teardown (r : Runner μ ι ο ρ σ) : EndsAlike (r.call .teardown) r.teardown := by
  unfold call
  rcases r.teardown with ⟨_ | _, _⟩ <;> exact ⟨rfl, rfl, rfl, rfl⟩

theorem endsAlike_bundle (r : Runner μ ι ο ρ σ) (elements : List (Element ι)) :
    EndsAlike (r.call (.bundle elements)) (r.commitBundle elements) := by
  show EndsAlike (r.processBundle elements) _
  unfold processBundle
  rcases r.commitBundle elements with ⟨_ | _, _⟩ <;> exact ⟨rfl, rfl, rfl, rfl⟩

/-- A call for a side input does nothing that the function can tell, or it runs the buffer as one
bundle, with the value that it brought. -/
theorem sideInput_cases (r : Runner μ ι ο ρ σ) (index : Nat) (message : StreamMessage SideValue) :
    ¬ r.Opens (.sideInput index message) ∧
        (r.call (.sideInput index message)).2.memory = r.memory ∧
        (r.call (.sideInput index message)).2.lifecycle = r.lifecycle ∨
      r.Opens (.sideInput index message) ∧
        EndsAlike (r.call (.sideInput index message))
          ((r.received (.sideInput index message)).commitBundle r.pushback.elements) := by
  show _ ∧ (r.processSideInput index message).2.memory = _ ∧
    (r.processSideInput index message).2.lifecycle = _ ∨
      _ ∧ EndsAlike (r.processSideInput index message) _
  unfold processSideInput
  cases hview : r.operator.views[index]? with
  | none =>
    refine .inl ⟨fun hopens => ?_, rfl, rfl⟩
    cases message with
    | watermark t => exact hopens
    | data value =>
      obtain ⟨⟨view, hdeclared⟩, -⟩ := hopens
      rw [hview] at hdeclared
      cases hdeclared
  | some view =>
    cases message with
    | watermark t => exact .inl ⟨fun hopens => hopens, rfl, rfl⟩
    | data value =>
      have hreceived : r.received (.sideInput index (.data value)) = r.materialize view value := by
        simp only [received, hview]
      have hpushback : (r.materialize view value).pushback = r.pushback := rfl
      dsimp only
      rw [hreceived, replay, hpushback]
      by_cases hempty : r.pushback.isEmpty
      · rw [if_pos hempty]
        exact .inl ⟨fun hopens => hopens.2 (List.isEmpty_iff.1 hempty), rfl, rfl⟩
      · rw [if_neg hempty]
        refine .inr ⟨⟨⟨view, hview⟩, fun h => hempty (List.isEmpty_iff.2 h)⟩, ?_⟩
        rcases (r.materialize view value).commitBundle r.pushback.elements with ⟨_ | _, _⟩ <;>
          exact ⟨rfl, rfl, rfl, rfl⟩

theorem replay_error {r r' : Runner μ ι ο ρ σ} {e : ExecutionError}
    (hbuffer : r.pushback = .ofList r.pushback.elements) (h : r.replay = (.error e, r')) :
    Unmoved r r' := by
  unfold replay at h
  split at h
  · cases h
  · rcases hc : r.commitBundle r.pushback.elements with ⟨e' | s, r₁⟩ <;> rw [hc] at h <;> cases h
    have hmoved := commitBundle_error hc
    have hpushback : PushbackBuffer.ofList r₁.pushback.elements = r.pushback := by
      rw [hmoved.pushback]
      exact hbuffer.symm
    exact { hmoved with pushback := hpushback }

theorem call_error {r r' : Runner μ ι ο ρ σ} {c : Call ι} {e : ExecutionError}
    (hbuffer : r.pushback = .ofList r.pushback.elements) (hc : c ≠ .teardown)
    (h : r.call c = (.error e, r')) : Unmoved (r.received c) r' := by
  cases c with
  | setup =>
    have hmoved := r.unmoved_setup r.setup.2.memory (Or.inl r.store_setup)
    have hr' : r.setup.2 = r' := congrArg Prod.snd h
    rw [← hr']
    exact hmoved
  | bundle elements =>
    change r.processBundle elements = _ at h
    unfold processBundle at h
    rcases hb : r.commitBundle elements with ⟨e' | s, r₁⟩ <;> rw [hb] at h <;> cases h
    exact commitBundle_error hb
  | watermark time => exact processWatermark_error h
  | teardown => exact absurd rfl hc
  | sideInput index message =>
    change r.processSideInput index message = _ at h
    unfold processSideInput at h
    cases hv : r.operator.views[index]? with
    | none =>
      rw [hv] at h
      cases h
      have hreceived : r.received (.sideInput index message) = r := by
        cases message <;> simp [received, hv]
      rw [hreceived]
      exact ⟨rfl, rfl, rfl, rfl, rfl, rfl, Or.inl rfl, Or.inl rfl⟩
    | some view =>
      rw [hv] at h
      cases message with
      | watermark t => cases h
      | data value =>
        have hreceived : r.received (.sideInput index (.data value)) = r.materialize view value := by
          simp [received, hv]
        rw [hreceived]
        rcases hr : (r.materialize view value).replay with ⟨e' | result, r₁⟩ <;>
          simp only [hr] at h <;> cases h
        exact replay_error hbuffer hr

theorem onlyFires_setup (r : Runner μ ι ο ρ σ) : Event.OnlyFires [] [] (r.events .setup) := by
  obtain ⟨log, hsetup, hlog⟩ := r.setup_recorded
  have hevents : r.events .setup = log := by
    simp only [events, call, hsetup]
    rfl
  rw [hevents]
  exact hlog

theorem onlyFires_teardown (r : Runner μ ι ο ρ σ) :
    Event.OnlyFires [] [] (r.events .teardown) := by
  obtain ⟨log, hteardown, hlog⟩ := r.teardown_recorded
  have hevents : r.events .teardown = log := by
    simp only [events, call, hteardown]
    rfl
  rw [hevents]
  exact hlog

theorem handed_events (r : Runner μ ι ο ρ σ) (c : Call ι) :
    Event.handed (r.events c) <+:
      (r.offered c).flatMap fun e => ((r.received c).split e).ready := by
  have hnothing {fs : List Firing} (h : Event.OnlyFires [] fs (r.events c)) :
      Event.handed (r.events c) <+:
        (r.offered c).flatMap fun e => ((r.received c).split e).ready := by
    have hnone : Event.handed (r.events c) = [] := h.handed
    rw [hnone]
    exact List.nil_prefix
  cases c with
  | setup => exact hnothing r.onlyFires_setup
  | teardown => exact hnothing r.onlyFires_teardown
  | watermark time =>
    obtain ⟨rounds, -, hrecord⟩ := r.rounds_of_processWatermark time
    exact hnothing hrecord
  | bundle elements =>
    have hends := (r.recorded []).endsAlike_bundle elements
    have hevents : r.events (.bundle elements) = _ := congrArg Prod.snd hends.memory
    rw [hevents]
    exact r.handed_commitBundle elements
  | sideInput index message =>
    rcases (r.recorded []).sideInput_cases index message with ⟨-, hmemory, -⟩ | ⟨hopens, hends⟩
    · have hevents : r.events (.sideInput index message) = [] := congrArg Prod.snd hmemory
      rw [hevents]
      exact List.nil_prefix
    · have hevents : r.events (.sideInput index message) = _ := congrArg Prod.snd hends.memory
      rw [hevents, received_recorded]
      cases message with
      | watermark t => cases hopens
      | data value => exact (r.received _).handed_commitBundle r.pushback.elements

/-- How a call succeeds: with what result, what events in its record, and what runner after it. -/
inductive Succeeded (r : Runner μ ι ο ρ σ) :
    Call ι → CallResult ι ο → List (Event ι ο) → Runner μ ι ο ρ σ → Prop
  /-- Setting up and tearing down. -/
  | bracket {c events lifecycle memory} (kind : c = .setup ∨ c = .teardown)
      (handed : Event.handed events = []) (timerOps : Event.timerOps events = []) :
      Succeeded r c r.emptyResult events { r with lifecycle, memory }
  | bundle {elements s events result r'} (committed : Committed r elements s events r')
      (eq : result = {
        outputs := .ofEmissions r.outputs s.outputs
        residuals := s.residuals
        pushedBack := s.pushedBack.length
        hold := (r.pushback.extend s.pushedBack).minTimestamp
        outputWatermark := none
        firedTimers := s.firedTimers }) :
      Succeeded r (.bundle elements) result events
        { r' with pushback := r.pushback.extend s.pushedBack }
  /-- Watermarks of a side input are passed over. -/
  | ignored {index view t} (declared : r.operator.views[index]? = some view) :
      Succeeded r (.sideInput index (.watermark t)) r.emptyResult [] r
  /-- A value arrives while nothing waits. -/
  | arrived {index view value} (declared : r.operator.views[index]? = some view)
      (idle : r.pushback.elements = []) :
      Succeeded r (.sideInput index (.data value))
        ((r.materialize view value).releaseWatermark r.emptyResult).1 []
        ((r.materialize view value).releaseWatermark r.emptyResult).2
  | replayed {index view value s events r'} {result : CallResult ι ο}
      (declared : r.operator.views[index]? = some view)
      (committed : Committed (r.materialize view value) r.pushback.elements s events r')
      (outputs : result.outputs = .ofEmissions r.outputs s.outputs) :
      Succeeded r (.sideInput index (.data value))
        (releaseWatermark { r' with pushback := .ofList s.pushedBack } result).1 events
        (releaseWatermark { r' with pushback := .ofList s.pushedBack } result).2
  | passed {time s events result r'} (passed : Passed r time s events result r') :
      Succeeded r (.watermark time) result events r'

theorem replay_ok {r r' : Runner μ ι ο ρ σ} {result : CallResult ι ο}
    (h : r.replay = (.ok result, r')) :
    ∃ events, (r.recorded []).replay = (.ok result, r'.recorded events) ∧
      (r.pushback.elements = [] ∧ events = [] ∧ result = r.emptyResult ∧ r' = r ∨
        ∃ s r₁, Committed r r.pushback.elements s events r₁ ∧
          result.outputs = .ofEmissions r.outputs s.outputs ∧
          r' = { r₁ with pushback := .ofList s.pushedBack }) := by
  have hpushback : (r.recorded []).pushback = r.pushback := rfl
  unfold replay at h ⊢
  rw [hpushback]
  by_cases hempty : r.pushback.isEmpty
  · rw [if_pos hempty] at h ⊢
    cases h
    exact ⟨[], rfl, Or.inl ⟨List.isEmpty_iff.1 hempty, rfl, rfl, rfl⟩⟩
  · rw [if_neg hempty] at h ⊢
    rcases hc : r.commitBundle r.pushback.elements with ⟨e | s, r₁⟩ <;> rw [hc] at h <;> cases h
    obtain ⟨events, hrecorded, hcommitted⟩ := commitBundle_ok hc
    have houtputs : r₁.outputs = r.outputs := by rw [hcommitted.frame]
    refine ⟨events, ?_, Or.inr ⟨s, r₁, hcommitted, by rw [houtputs], rfl⟩⟩
    rw [hrecorded]
    rfl

theorem succeeded_of_bracket {r r' : Runner μ ι ο ρ σ} {c : Call ι} {result : CallResult ι ο}
    {x : Except ExecutionError Unit × Runner μ ι ο ρ σ} (kind : c = .setup ∨ c = .teardown)
    (hcall : r.call c = (x.1.map fun _ => x.2.emptyResult, x.2))
    (hframe : x.2 = { r with memory := x.2.memory, lifecycle := x.2.lifecycle })
    (hevents : Event.OnlyFires [] [] (r.events c)) (h : r.call c = (.ok result, r')) :
    Succeeded r c result (r.events c) r' := by
  rw [hcall] at h
  rcases x with ⟨e | _, r₁⟩ <;> cases h
  dsimp only at hframe
  have hresult : r₁.emptyResult = r.emptyResult := by
    rw [hframe]
    rfl
  rw [hresult, hframe]
  exact .bracket kind hevents.handed hevents.timerOps

theorem call_ok {r r' : Runner μ ι ο ρ σ} {c : Call ι} {result : CallResult ι ο}
    (hs : r.schedule.Consistent) (h : r.call c = (.ok result, r')) :
    Succeeded r c result (r.events c) r' := by
  cases c with
  | setup =>
    exact succeeded_of_bracket (x := r.setup) (Or.inl rfl) rfl r.setup_frame r.onlyFires_setup h
  | bundle elements =>
    change r.processBundle elements = _ at h
    unfold processBundle at h
    rcases hb : r.commitBundle elements with ⟨e | s, r₁⟩ <;> rw [hb] at h <;> cases h
    obtain ⟨events, hrecorded, hcommitted⟩ := commitBundle_ok hb
    have hevents : r.events (.bundle elements) = events := by
      simp only [Runner.events, call, processBundle, hrecorded]
      rfl
    have hpushback : r₁.pushback = r.pushback := by rw [hcommitted.frame]
    have houtputs : r₁.outputs = r.outputs := by rw [hcommitted.frame]
    rw [hevents, hpushback]
    exact .bundle hcommitted (by simp only [houtputs])
  | watermark time =>
    obtain ⟨s, hpassed⟩ := processWatermark_ok hs h
    exact .passed hpassed
  | teardown =>
    exact succeeded_of_bracket (x := r.teardown) (Or.inr rfl) rfl r.teardown_frame
      r.onlyFires_teardown h
  | sideInput index message =>
    change r.processSideInput index message = _ at h
    unfold processSideInput at h
    cases hv : r.operator.views[index]? with
    | none =>
      rw [hv] at h
      cases h
    | some view =>
      have hv' : ∀ log, (r.recorded log).operator.views[index]? = some view := fun _ => hv
      rw [hv] at h
      cases message with
      | watermark t =>
        cases h
        have hevents : r.events (.sideInput index (.watermark t)) = [] := by
          simp only [Runner.events, call, processSideInput, hv']
          rfl
        rw [hevents]
        exact .ignored hv
      | data value =>
        rcases hr : (r.materialize view value).replay with ⟨e | result₁, r₁⟩ <;>
          simp only [hr] at h <;> cases h
        obtain ⟨events, hrecorded, hcases⟩ := replay_ok hr
        have hevents : r.events (.sideInput index (.data value)) = events := by
          have hreplay : ((r.recorded []).materialize view value).replay = _ := hrecorded
          simp only [Runner.events, call, processSideInput, hv', hreplay]
          rfl
        rw [hevents]
        obtain ⟨hidle, rfl, rfl, rfl⟩ | ⟨s, r₂, hcommitted, houtputs, rfl⟩ := hcases
        · exact .arrived hv hidle
        · exact .replayed hv hcommitted houtputs

end StreamOperator.Runner
