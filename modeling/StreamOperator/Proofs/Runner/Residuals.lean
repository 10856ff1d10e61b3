import StreamOperator.Proofs.Output
import StreamOperator.Proofs.Runner.Boundaries
import StreamOperator.Proofs.Runner.Refusals
import StreamOperator.Proofs.Splittable.Counting

/-! Residuals that are fed back. A runner without views gives an element of a splittable function to
one invocation, and what that leaves comes back with the timestamp, the windows and the pane of the
element. So a function that counts through an offset range, fed with what it leaves for as long as
it leaves something, gives each offset once. -/

namespace StreamOperator

variable {μ ε ι ο τ R P ρ σ : Type}

namespace SplittableFunction

def leftOver (e : Element (ElementAndRestriction ε R)) (result : InvocationResult R ο) :
    List (Residual (ElementAndRestriction ε R)) :=
  (result.residual.map fun rest => ⟨e.withValue ⟨e.value.element, rest⟩, result.delay⟩).toList

def delivered (s : Staging (ElementAndRestriction ε R) ο) (e : Element (ElementAndRestriction ε R))
    (result : InvocationResult R ο) : Staging (ElementAndRestriction ε R) ο :=
  { s with
    emitted := (result.outputs.map fun value => (.main, e.withValue value)).reverse ++ s.emitted
    residuals := s.residuals ++ leftOver e result }

variable [SideInputReader ρ] [StateStore σ] {c : Context ρ σ} {frame : Frame}
  {e : Element (ElementAndRestriction ε R)} {result : InvocationResult R ο} {memory memory' : μ}

theorem run_emitAll (h : c.current = some frame) (s : Staging ι ο) (values : List ο) :
    c.run s (emitAll values) = (.ok (), { s with
      emitted := (values.map fun value => (.main, frame.withValue value)).reverse ++ s.emitted }) := by
  induction values generalizing s with
  | nil => rfl
  | cons value values ih =>
    have hanswer : c.answer s (.output value) =
        (.ok (), s.emit .main (frame.withValue value)) := by
      rw [Context.answer, Context.withFrame, h]
    simp only [emitAll, Context.run, hanswer, ih]
    simp [Staging.emit]

theorem run_deliver (h : c.current = some e.frame) (s : Staging (ElementAndRestriction ε R) ο)
    (result : InvocationResult R ο) (memory : μ) :
    c.run s (deliver e.value.element result memory) = (.success memory, delivered s e result) := by
  change c.run s (Interaction.bind (emitAll result.outputs) _) = _
  rw [Context.run_bind, run_emitAll h]
  unfold delivered leftOver
  cases result.residual with
  | none =>
    simp only [Option.map_none, Option.toList_none, List.append_nil]
    rfl
  | some rest =>
    generalize hs' : ({ s with emitted := _ } : Staging (ElementAndRestriction ε R) ο) = s'
    have hanswer : c.answer s' (.resumeLater ⟨e.value.element, rest⟩ result.delay) =
        (.ok (), s'.addResidual ⟨e.frame.withValue ⟨e.value.element, rest⟩, result.delay⟩) := by
      rw [Context.answer, Context.withFrame, h]
    simp only [bind, Interaction.bind, Interaction.perform, Context.run, hanswer]
    subst hs'
    rfl

variable [RestrictionTracker τ R P] {f : SplittableFunction μ ε ο τ R P} {budget : Option Budget}
  {stepLimit : Nat} {clock : μ → Nat → Duration}

theorem run_body_element (h : c.current = some e.frame) (s : Staging (ElementAndRestriction ε R) ο)
    (hwork : (f.work budget stepLimit clock c.budget e.value).run memory = (.ok result, memory')) :
    c.run s (f.processElement budget stepLimit clock e memory) =
      (.success memory', delivered s e result) := by
  change c.run s ((f.toUserFunction budget stepLimit clock).body (.element e) memory) = _
  rw [body_element]
  simp only [Context.run, Context.answer, hwork]
  exact run_deliver h s result memory'

end SplittableFunction

namespace Runner

open SplittableFunction

section Work

variable [SideInputReader ρ] [StateStore σ] [RestrictionTracker τ R P]
  {f : SplittableFunction μ ε ο τ R P} {budget : Option Budget} {stepLimit : Nat}
  {clock : μ → Nat → Duration} {r : Runner μ (ElementAndRestriction ε R) ο ρ σ}
  {e : Element (ElementAndRestriction ε R)} {result : InvocationResult R ο} {memory : μ}
  {key : Option EncodedKey}

theorem run_processOne_of_work (hf : r.operator.function = f.toUserFunction budget stepLimit clock)
    (hviews : r.operator.views = []) (hkey : r.keyOf e.value = .ok key)
    (hwork : (f.work budget stepLimit clock r.operator.config.splittable e.value).run r.memory =
      (.ok result, memory)) :
    (r.processOne .empty e).run r.memory = (.ok (delivered .empty e result), memory) := by
  have hkeyed : (processOne.liftExcept (r.keyOf e.value) : Session μ _).run r.memory =
      (.ok key, r.memory) := by
    rw [hkey]
    rfl
  have hpiece : (r.processPiece key .empty e).run r.memory =
      (.ok (delivered .empty e result), memory) := by
    have hbody := run_body_element (c := { r.context with key, current := some e.frame }) rfl
      .empty hwork
    rw [processPiece, Context.run_callback, hf]
    exact congrArg (fun x => (Context.settle .processElement x.1.result x.2, x.1.memory)) hbody
  rw [processOne, Session.run_bind, hkeyed, hviews]
  simp only [ReadySplit.ofElement, List.isEmpty_nil, Bool.true_or, if_true, List.foldlM_cons,
    List.foldlM_nil, bind_pure, Session.run_bind, hpiece, List.append_nil]
  rfl

def invoked (r : Runner μ (ElementAndRestriction ε R) ο ρ σ)
    (e : Element (ElementAndRestriction ε R)) (result : InvocationResult R ο) :
    CallResult (ElementAndRestriction ε R) ο where
  outputs := .ofEmissions r.outputs (result.outputs.map fun value => (.main, e.withValue value))
  residuals := leftOver e result
  pushedBack := 0
  hold := r.pushback.minTimestamp
  outputWatermark := none
  firedTimers := 0

theorem processElement_of_work (hf : r.operator.function = f.toUserFunction budget stepLimit clock)
    (hviews : r.operator.views = []) (hkey : r.keyOf e.value = .ok key)
    (hwork : (f.work budget stepLimit clock r.operator.config.splittable e.value).run r.memory =
      (.ok result, memory)) :
    r.processElement e =
      (.ok (r.invoked e result), { r with memory, lifecycle := r.setup.2.lifecycle }) := by
  have hsetup : r.setup = (.ok (), { r with lifecycle := r.setup.2.lifecycle }) := by
    unfold setup
    rw [hf]
    split <;> rfl
  have hbare : r.operator.function.Unbracketed := by
    rw [hf]
    exact ⟨rfl, rfl⟩
  have hone := run_processOne_of_work (r := { r with lifecycle := r.setup.2.lifecycle }) hf hviews
    hkey hwork
  have hwrites : applyWrites r.store (delivered .empty e result).writes = (.ok (), r.store) := by
    show applyWrites r.store ∅ = _
    cases r.store <;> rfl
  have hops : r.schedule.applyOps (delivered .empty e result).timerOps = .ok r.schedule := rfl
  have houtputs : (delivered .empty e result).outputs =
      result.outputs.map fun value => (.main, e.withValue value) := by
    simp [delivered, Staging.outputs, Staging.empty]
  unfold processElement processBundle commitBundle executeBundle
  rw [hsetup]
  simp only [inSession, bundleSession_eq (r := { r with lifecycle := r.setup.2.lifecycle }) hbare,
    List.foldlM_cons, List.foldlM_nil, bind_pure, hone, commit, hops, hwrites, houtputs]
  rfl

end Work

section Feeding

variable [SideInputReader ρ] [StateStore σ]

theorem handed_of_processElement {r r' : Runner μ ι ο ρ σ} {e : Element ι} {result : CallResult ι ο}
    (h : r.processElement e = (.ok result, r')) :
    Event.handed (r.events (.bundle [e])) = (r.split e).ready ∧ r'.operator = r.operator := by
  have hevents : r.events (.bundle [e]) = _ :=
    congrArg Prod.snd ((r.recorded []).endsAlike_bundle [e]).memory
  unfold processElement processBundle at h
  cases hc : r.commitBundle [e] with
  | mk outcome r₁ =>
    rw [hc] at h
    cases outcome with
    | error e' => cases h
    | ok s =>
      obtain ⟨events, hrecorded, hcommitted⟩ := commitBundle_ok hc
      rw [hrecorded] at hevents
      cases h
      constructor
      · rw [hevents]
        exact hcommitted.handed.trans (List.append_nil _)
      · show r₁.operator = r.operator
        rw [hcommitted.frame]

/-- Elements are processed in turn, and what a call leaves of one is processed too, behind what
waits already. The calls are told, each with its element and its result. -/
inductive FeedsBack : Runner μ ι ο ρ σ → List (Element ι) →
    List (Element ι × CallResult ι ο) → Runner μ ι ο ρ σ → Prop
  | done (r) : FeedsBack r [] [] r
  | call {r r₁ r' e waiting result calls} (head : r.processElement e = (.ok result, r₁))
      (tail : FeedsBack r₁ (waiting ++ result.residuals.map Residual.element) calls r') :
      FeedsBack r (e :: waiting) ((e, result) :: calls) r'

namespace FeedsBack

variable {r r' r'' : Runner μ ι ο ρ σ} {waiting : List (Element ι)}
  {calls calls' : List (Element ι × CallResult ι ο)}

theorem unique (h : r.FeedsBack waiting calls r') (h' : r.FeedsBack waiting calls' r'') :
    calls = calls' ∧ r' = r'' := by
  induction h generalizing calls' with
  | done r =>
    cases h'
    exact ⟨rfl, rfl⟩
  | call head _ ih =>
    cases h' with
    | call head' tail' =>
      rw [head] at head'
      cases head'
      obtain ⟨rfl, rfl⟩ := ih tail'
      exact ⟨rfl, rfl⟩

theorem handed (h : r.FeedsBack waiting calls r') (hviews : r.operator.views = []) :
    Event.handed (r.eventsOf (calls.map fun c => .bundle [c.1])) = calls.map Prod.fst := by
  induction h with
  | done r => rfl
  | @call r r₁ _ e _ result _ head _ ih =>
    obtain ⟨hhead, hoperator⟩ := handed_of_processElement head
    have hwhole : (r.split e).ready = [e] := by
      rw [split, hviews]
      rfl
    have hnext : (r.call (.bundle [e])).2 = r₁ := congrArg Prod.snd head
    rw [List.map_cons, List.map_cons, eventsOf, Event.handed_append, hhead, hwhole, hnext,
      ih (by rw [hoperator, hviews]), List.singleton_append]

end FeedsBack

end Feeding

section Counting

variable {budget : Budget} {r : Runner μ (ElementAndRestriction ε OffsetRange) UInt64 ρ σ}
  {e : Element (ElementAndRestriction ε OffsetRange)}

/-- The runner counts through the ranges of an element, without views. Its invocations run under the
budget, and no clock exhausts that. -/
structure Counts (r : Runner μ (ElementAndRestriction ε OffsetRange) UInt64 ρ σ) (budget : Budget)
    (element : ε) : Prop where
  function : ∃ last given stepLimit clock,
    r.operator.function = (counting last).toUserFunction given stepLimit clock ∧
      given.getD r.operator.config.splittable = budget ∧
      ∀ memory n, clock memory n < budget.maxDuration
  views : r.operator.views = []
  keyed : ∀ range, ∃ key, r.keyOf ⟨element, range⟩ = .ok key

structure Takes (e : Element (ElementAndRestriction ε OffsetRange)) (m : Nat)
    (result : CallResult (ElementAndRestriction ε OffsetRange) UInt64) : Prop where
  main_eq : result.outputs.main = (e.value.restriction.offsets.take m).map (.data ∘ e.withValue)
  side_eq : ∀ x ∈ result.outputs.side, x.2 = []
  residuals_eq : result.residuals.map Residual.element =
    (e.value.restriction.behind? m).toList.map fun rest => e.withValue ⟨e.value.element, rest⟩

theorem Counts.congr {element : ε} (h : r.Counts budget element)
    {r' : Runner μ (ElementAndRestriction ε OffsetRange) UInt64 ρ σ}
    (hoperator : r'.operator = r.operator) : r'.Counts budget element := by
  constructor
  · rw [hoperator]
    exact h.function
  · rw [hoperator]
    exact h.views
  · unfold keyOf
    rw [hoperator]
    exact h.keyed

variable [SideInputReader ρ] [StateStore σ]

theorem Counts.processElement (h : r.Counts budget e.value.element) :
    ∃ result r', r.processElement e = (.ok result, r') ∧
      Takes e budget.maxRecords.toNat result := by
  obtain ⟨last, given, stepLimit, clock, hf, rfl, hclock⟩ := h.function
  obtain ⟨key, hkey⟩ := h.keyed e.value.restriction
  obtain ⟨result, hwork, houtputs, hresidual⟩ := run_invoke_counting last
    ⟨given.getD r.operator.config.splittable, stepLimit⟩ (hclock r.memory) e.value.element
    e.value.restriction r.memory
  refine ⟨r.invoked e result, _, processElement_of_work hf h.views hkey hwork, ?_, ?_, ?_⟩
  · simp only [invoked, Outputs.ofEmissions, Outputs.onChannel_map, houtputs]
    simp
  · intro x hx
    simp only [invoked, Outputs.ofEmissions, Outputs.onChannel_map] at hx
    obtain ⟨index, -, rfl⟩ := List.mem_mapIdx.1 hx
    rfl
  · simp only [invoked, leftOver, ← hresidual]
    cases result.residual <;> rfl

/-- The calls with which an element is counted through, `m` offsets at a time. -/
structure Counted (e : Element (ElementAndRestriction ε OffsetRange)) (m : Nat)
    (calls : List (Element (ElementAndRestriction ε OffsetRange) ×
      CallResult (ElementAndRestriction ε OffsetRange) UInt64)) : Prop where
  length_eq : calls.length =
    max 1 ((e.value.restriction.stop.toNat - e.value.restriction.start.toNat + m - 1) / m)
  main_eq : calls.flatMap (·.2.outputs.main) =
    e.value.restriction.offsets.map (.data ∘ e.withValue)
  side_eq : ∀ c ∈ calls, ∀ x ∈ c.2.outputs.side, x.2 = []
  residuals : ∀ c ∈ calls, ∀ x ∈ c.2.residuals,
    ∃ rest, x.element = e.withValue ⟨e.value.element, rest⟩

theorem max_calls_of_le {n m : Nat} (hm : 0 < m) (h : n ≤ m) : max 1 ((n + m - 1) / m) = 1 := by
  have hfew : (n + m - 1) / m < 2 := Nat.div_lt_of_lt_mul (by omega)
  omega

theorem max_calls_of_lt {n m : Nat} (hm : 0 < m) (h : m < n) :
    max 1 ((n + m - 1) / m) = max 1 ((n - m + m - 1) / m) + 1 := by
  have hfirst : (n + m - 1) / m = (n - 1) / m + 1 := by
    rw [show n + m - 1 = n - 1 + m by omega, Nat.add_div_right _ hm]
  have hmore : 1 ≤ (n - 1) / m := (Nat.one_le_div_iff hm).2 (by omega)
  rw [hfirst, show n - m + m - 1 = n - 1 by omega]
  omega

namespace Takes

variable {m : Nat} {result : CallResult (ElementAndRestriction ε OffsetRange) UInt64}
  {calls : List (Element (ElementAndRestriction ε OffsetRange) ×
    CallResult (ElementAndRestriction ε OffsetRange) UInt64)}

theorem exists_rest (h : Takes e m result) {x : Residual (ElementAndRestriction ε OffsetRange)}
    (hx : x ∈ result.residuals) : ∃ rest, x.element = e.withValue ⟨e.value.element, rest⟩ := by
  have hmem : x.element ∈ result.residuals.map Residual.element := List.mem_map_of_mem hx
  rw [h.residuals_eq] at hmem
  obtain ⟨rest, -, hrest⟩ := List.mem_map.1 hmem
  exact ⟨rest, hrest.symm⟩

theorem counted_singleton (h : Takes e m result) (hm : 0 < m)
    (hnone : e.value.restriction.behind? m = none) : Counted e m [(e, result)] := by
  have hall := OffsetRange.length_offsets_le hnone
  refine ⟨?_, ?_, by simpa using h.side_eq, by simpa using fun x => h.exists_rest (x := x)⟩
  · rw [max_calls_of_le hm (by simpa using hall)]
    rfl
  · rw [List.flatMap_singleton, h.main_eq, List.take_of_length_le hall]

theorem counted_cons (h : Takes e m result) (hm : 0 < m) {rest : OffsetRange}
    (hrest : e.value.restriction.behind? m = some rest)
    (hcalls : Counted (e.withValue ⟨e.value.element, rest⟩) m calls) :
    Counted e m ((e, result) :: calls) := by
  have hoffsets := OffsetRange.offsets_of_behind? hrest
  have hmore := OffsetRange.lt_length_offsets hrest
  have hlength := congrArg List.length hoffsets
  rw [List.length_drop, OffsetRange.length_offsets, OffsetRange.length_offsets] at hlength
  rw [OffsetRange.length_offsets] at hmore
  refine ⟨?_, ?_, ?_, ?_⟩
  · rw [List.length_cons, hcalls.length_eq, max_calls_of_lt hm hmore, Element.value_withValue,
      hlength]
  · rw [List.flatMap_cons, h.main_eq, hcalls.main_eq, Element.value_withValue, hoffsets]
    exact List.map_append.symm.trans (by rw [List.take_append_drop])
  · exact List.forall_mem_cons.2 ⟨h.side_eq, hcalls.side_eq⟩
  · exact List.forall_mem_cons.2 ⟨fun x => h.exists_rest, hcalls.residuals⟩

end Takes

theorem Counts.exists_feedsBack (h : r.Counts budget e.value.element)
    (hrecords : 0 < budget.maxRecords) :
    ∃ calls r', r.FeedsBack [e] calls r' ∧ Counted e budget.maxRecords.toNat calls := by
  have hm : 0 < budget.maxRecords.toNat := UInt64.lt_iff_toNat_lt.1 hrecords
  induction hn : e.value.restriction.offsets.length using Nat.strong_induction_on
    generalizing r e with
  | _ n ih =>
    obtain ⟨result, r₁, hcall, htakes⟩ := h.processElement
    have hresiduals := htakes.residuals_eq
    cases hrest : e.value.restriction.behind? budget.maxRecords.toNat with
    | none =>
      rw [hrest] at hresiduals
      have hdone : r₁.FeedsBack ([] ++ result.residuals.map Residual.element) [] r₁ := by
        rw [hresiduals]
        exact .done r₁
      exact ⟨_, r₁, .call hcall hdone, htakes.counted_singleton hm hrest⟩
    | some rest =>
      rw [hrest] at hresiduals
      have hfewer : rest.offsets.length < n := by
        have hlt := OffsetRange.lt_length_offsets hrest
        rw [OffsetRange.offsets_of_behind? hrest, List.length_drop]
        omega
      have hcounts := h.congr (handed_of_processElement hcall).2
      obtain ⟨calls, r', hfeeds, hcounted⟩ := ih _ hfewer
        (e := e.withValue ⟨e.value.element, rest⟩) hcounts rfl
      have hfed : r₁.FeedsBack ([] ++ result.residuals.map Residual.element) calls r' := by
        rw [hresiduals]
        exact hfeeds
      exact ⟨_, r', .call hcall hfed, htakes.counted_cons hm hrest hcounted⟩

/-- Fed with what it leaves, the function comes to an end and has given each offset of the range
once, in order. It takes a call for each full budget and for what is over, and one for nothing. -/
theorem counted_of_feedsBack (h : r.Counts budget e.value.element)
    (hrecords : 0 < budget.maxRecords) :
    (∃ calls r', r.FeedsBack [e] calls r') ∧
    ∀ calls r', r.FeedsBack [e] calls r' → Counted e budget.maxRecords.toNat calls ∧
      Event.handed (r.eventsOf (calls.map fun c => .bundle [c.1])) = calls.map Prod.fst := by
  obtain ⟨calls, r', hfeeds, hcounted⟩ := h.exists_feedsBack hrecords
  refine ⟨⟨calls, r', hfeeds⟩, fun calls' r'' hfeeds' => ?_⟩
  obtain ⟨rfl, rfl⟩ := hfeeds.unique hfeeds'
  exact ⟨hcounted, hfeeds.handed h.views⟩

def counterStart : Runner Unit (ElementAndRestriction Unit OffsetRange) UInt64 NoSideInputs Cells where
  operator := { function := (counting .stop).toUserFunction (some ⟨2, .ofMillis 10⟩) }
  outputs := ⟨"main", []⟩
  reader := ⟨⟩
  pushback := .empty
  watermark := .start false
  schedule := .empty
  store := none
  lifecycle := .created
  memory := ()

theorem counterStart_counted :
    let e : Element (ElementAndRestriction Unit OffsetRange) :=
      .inGlobalWindow ⟨(), ⟨18446744073709551610, 18446744073709551615⟩⟩ ⟨5⟩
    ∃ calls r', counterStart.FeedsBack [e] calls r' ∧ calls.length = 3 ∧
      calls.flatMap (·.2.outputs.main) =
        [18446744073709551610, 18446744073709551611, 18446744073709551612, 18446744073709551613,
          18446744073709551614].map fun offset => .data (.inGlobalWindow offset ⟨5⟩) := by
  intro e
  have hcounts : counterStart.Counts ⟨2, .ofMillis 10⟩ () :=
    ⟨⟨.stop, _, _, _, rfl, rfl, fun _ _ => by decide⟩, rfl, fun _ => ⟨none, rfl⟩⟩
  obtain ⟨⟨calls, r', hfeeds⟩, hall⟩ := counted_of_feedsBack (e := e) hcounts (by decide)
  have hcounted := (hall calls r' hfeeds).1
  refine ⟨calls, r', hfeeds, hcounted.length_eq.trans ?_, hcounted.main_eq.trans ?_⟩
  · decide +kernel
  · decide +kernel

end Counting

end Runner

end StreamOperator
