import StreamOperator.Proofs.Runner.Turns
import StreamOperator.Splittable.Function

/-! What a call returns when something in it goes wrong. A refused request fails the call with its
own error, whatever the function makes of it; without one, an error that the function returns fails
the call under the name of the callback. A splittable function fails as its invocation does. -/

namespace StreamOperator

variable {μ ι ο ρ σ ε τ R P : Type}

namespace Context

section Refusals

variable [StateStore σ] {c : Context ρ σ} {s : Staging ι ο} {e : ExecutionError}

theorem isUser_of_unreadable {space : Namespace} {tag : String} {accepts : Bytes → Bool}
    (h : c.unreadable s space tag accepts = some e) : e.isUser = false := by
  simp only [unreadable, Option.bind_eq_bind, Option.bind_eq_some_iff] at h
  obtain ⟨key, -, store, -, h⟩ := h
  split at h
  · cases h
    rfl
  · cases h
  · split at h <;> cases h
    rfl

theorem isUser_of_refusal? {q : Request ι ο} (h : c.refusal? s q = some e)
    (hq : ∀ e', q ≠ .abort e') : e.isUser = false := by
  cases q <;>
    grind [refusal?, missingFrame, missingKey, missingStore, missingTag, missingView,
      isUser_of_unreadable, ExecutionError.isUser, ExecutionError.state]

end Refusals

end Context

namespace SplittableFunction

section Delivery

variable [SideInputReader ρ] [StateStore σ] {c : Context ρ σ} {frame : Frame}

theorem emitAll_granted (h : c.current = some frame) (s : Staging ι ο) (values : List ο) :
    (c.run s (emitAll values)).1 = .ok () ∧
      (c.events s (emitAll values)).findSome? Event.refusal? = none := by
  induction values generalizing s with
  | nil => exact ⟨rfl, rfl⟩
  | cons value values ih =>
    have hanswer : c.answer s (.output value) =
        (.ok (), s.emit .main (frame.withValue value)) := by
      rw [Context.answer, Context.withFrame, h]
    obtain ⟨hresult, hrefusal⟩ := ih (s.emit .main (frame.withValue value))
    simp only [emitAll, Context.run, Context.events, hanswer]
    exact ⟨hresult, hrefusal⟩

theorem deliver_granted (h : c.current = some frame)
    (s : Staging (ElementAndRestriction ε R) ο) (element : ε) (result : InvocationResult R ο)
    (memory : μ) :
    (c.run s (deliver element result memory)).1 = .success memory ∧
      (c.events s (deliver element result memory)).findSome? Event.refusal? = none := by
  obtain ⟨hresult, hrefusal⟩ := emitAll_granted h s result.outputs
  change (c.run s (Interaction.bind (emitAll result.outputs) _)).1 = _ ∧
    (c.events s (Interaction.bind (emitAll result.outputs) _)).findSome? Event.refusal? = none
  rw [Context.run_bind, Context.events_bind, List.findSome?_append, hrefusal, Option.none_or,
    hresult]
  generalize (c.run s (emitAll result.outputs)).2 = s'
  cases result.residual with
  | none => exact ⟨rfl, rfl⟩
  | some rest =>
    have hanswer : c.answer s' (.resumeLater ⟨element, rest⟩ result.delay) =
        (.ok (), s'.addResidual ⟨frame.withValue ⟨element, rest⟩, result.delay⟩) := by
      rw [Context.answer, Context.withFrame, h]
    simp only [bind, Interaction.bind, Interaction.perform, Context.run, Context.events, hanswer]
    exact ⟨rfl, rfl⟩

end Delivery

variable [RestrictionTracker τ R P]

def work (f : SplittableFunction μ ε ο τ R P) (budget : Option Budget) (stepLimit : Nat)
    (clock : μ → Nat → Duration) (operatorBudget : Budget) (x : ElementAndRestriction ε R) :
    Session μ (InvocationResult R ο) :=
  ExceptT.mk fun memory =>
    ((⟨budget.getD operatorBudget, stepLimit⟩ : SplittableProcessor).invoke f (clock memory)
      x.element x.restriction).run memory

theorem body_element (f : SplittableFunction μ ε ο τ R P) (budget : Option Budget) (stepLimit : Nat)
    (clock : μ → Nat → Duration) (piece : Element (ElementAndRestriction ε R)) (memory : μ) :
    (f.toUserFunction budget stepLimit clock).body (.element piece) memory =
      .ask .budget fun operatorBudget =>
        match (f.work budget stepLimit clock operatorBudget piece.value).run memory with
        | (.error cause, memory) =>
          .ask (.abort cause) fun _ => .done ⟨.error cause.message, memory⟩
        | (.ok result, memory) => deliver piece.value.element result memory := rfl

variable [SideInputReader ρ] [StateStore σ] {f : SplittableFunction μ ε ο τ R P}
  {budget : Option Budget} {stepLimit : Nat} {clock : μ → Nat → Duration}
  {t : Turn μ (ElementAndRestriction ε R) ο ρ σ} {piece : Element (ElementAndRestriction ε R)}
  {memory : μ}

theorem refusal?_of_error (ht : t.occasion = .element piece) {e : ExecutionError}
    (h : (f.work budget stepLimit clock t.context.budget piece.value).run t.memory =
      (.error e, memory)) :
    t.refusal? (f.toUserFunction budget stepLimit clock) = some e := by
  unfold Turn.refusal? Turn.asked
  rw [ht, body_element]
  simp only [Context.events, Context.answer, h]
  rfl

theorem outcome_of_ok (ht : t.occasion = .element piece)
    (hcurrent : t.context.current = some piece.frame) {result : InvocationResult R ο}
    (h : (f.work budget stepLimit clock t.context.budget piece.value).run t.memory =
      (.ok result, memory)) :
    t.refusal? (f.toUserFunction budget stepLimit clock) = none ∧
      (t.outcome (f.toUserFunction budget stepLimit clock)).1 = .success memory := by
  obtain ⟨hresult, hrefusal⟩ :=
    deliver_granted hcurrent t.staged piece.value.element result memory
  unfold Turn.refusal? Turn.asked Turn.outcome
  rw [ht, body_element]
  simp only [Context.events, Context.run, Context.answer, h]
  exact ⟨hrefusal, hresult⟩

end SplittableFunction

namespace SplittableProcessor

variable [RestrictionTracker τ R P]

def FailedBy (p : SplittableProcessor) (clock : Nat → Duration)
    (step : μ → StepProgram τ P ο (Except String StepOutcome × μ)) (e : ExecutionError)
    (memory : μ) : Prop :=
  (∃ (i : Invocation τ ο) (before : μ) (cause : String),
    (i.run clock p.budget (step before)).1 = (.error cause, memory) ∧
      e = .user .processRestriction cause) ∨
  e = .unsettled (p.stepLimit + 1)

theorem endsWith_oneStep (p : SplittableProcessor) (clock : Nat → Duration)
    (step : μ → StepProgram τ P ο (Except String StepOutcome × μ)) (i : Invocation τ ο)
    (memory : μ) :
    (p.oneStep clock step i).EndsWith memory (fun _ _ => True) (p.FailedBy clock step) := by
  simp only [Session.EndsWith, oneStep, ExceptT.run, ExceptT.mk]
  rcases hrun : i.run clock p.budget (step memory) with ⟨⟨cause | outcome, memory'⟩, i'⟩
  · exact .inl ⟨i, memory, cause, by rw [hrun], rfl⟩
  · trivial

theorem endsWith_steps (p : SplittableProcessor) (clock : Nat → Duration)
    (step : μ → StepProgram τ P ο (Except String StepOutcome × μ)) (fuel taken : Nat)
    (i : Invocation τ ο) (memory : μ) :
    (p.steps clock step fuel taken i).EndsWith memory (fun _ _ => True)
      (p.FailedBy clock step) := by
  unfold steps
  refine .bind (p.endsWith_oneStep clock step i memory) ?_
  intro result memory _
  cases result with
  | mk outcome i =>
    cases outcome with
    | stop | resume delay => exact .pure trivial
    | again =>
      dsimp only
      split
      · exact .pure trivial
      · cases fuel with
        | zero => exact .throw (.inr rfl)
        | succ fuel => exact p.endsWith_steps clock step fuel (taken + 1) _ memory

end SplittableProcessor

theorem SplittableFunction.failedBy_of_work [RestrictionTracker τ R P]
    {f : SplittableFunction μ ε ο τ R P} {budget : Option Budget} {stepLimit : Nat}
    {clock : μ → Nat → Duration} {operatorBudget : Budget} {x : ElementAndRestriction ε R}
    {memory memory' : μ} {e : ExecutionError}
    (h : (f.work budget stepLimit clock operatorBudget x).run memory = (.error e, memory')) :
    SplittableProcessor.FailedBy ⟨budget.getD operatorBudget, stepLimit⟩ (clock memory)
      (f.step x.element) e memory' := by
  have htracker : (f.trackerOf x.restriction).EndsWith memory (fun _ _ => True)
      (SplittableProcessor.FailedBy ⟨budget.getD operatorBudget, stepLimit⟩ (clock memory)
        (f.step x.element)) := trivial
  have hends : (SplittableProcessor.invoke ⟨budget.getD operatorBudget, stepLimit⟩ f (clock memory)
      x.element x.restriction).EndsWith memory (fun _ _ => True)
      (SplittableProcessor.FailedBy ⟨budget.getD operatorBudget, stepLimit⟩ (clock memory)
        (f.step x.element)) :=
    .bind htracker fun _ memory _ =>
      .bind (SplittableProcessor.endsWith_steps _ _ _ _ _ _ memory) fun _ _ _ => .pure trivial
  unfold Session.EndsWith at hends
  change (SplittableProcessor.invoke ⟨budget.getD operatorBudget, stepLimit⟩ f (clock memory)
    x.element x.restriction).run memory = _ at h
  rw [h] at hends
  exact hends

namespace Runner

variable [SideInputReader ρ] [StateStore σ]

/-- How the turns of a call decide what it returns. A request is refused by the first check that it
does not pass. A turn with a refused request is the last one, and the call fails by the first
refusal in it; a turn without one that ends with an error is the last one as well, and the call
names its callback. -/
structure Judges (r : Runner μ ι ο ρ σ) (c : Call ι) (turns : List (Turn μ ι ο ρ σ)) : Prop where
  tells : (r.received c).Tells turns (r.events c)
  checked : ∀ t ∈ turns, ∀ done q reply rest,
    t.asked r.operator.function = done ++ .asked q reply :: rest →
      q.refusal? reply = t.context.refusal? (t.context.stagedAfter t.staged done) q ∧
        ((∀ e, q ≠ .abort e) → ∀ e, q.refusal? reply = some e → e.isUser = false)
  refused : ∀ before t after e, turns = before ++ t :: after →
    t.refusal? r.operator.function = some e → after = [] ∧ r.FailsBy c e
  failed : ∀ before t after cause, turns = before ++ t :: after →
    t.refusal? r.operator.function = none →
      (t.outcome r.operator.function).1.result = .error cause →
        after = [] ∧ r.FailsBy c (.user t.occasion.stage cause)

theorem Sound.exists_judges {o : Operator μ ι ο} {r : Runner μ ι ο ρ σ} (hr : Sound o r)
    (c : Call ι) : ∃ turns, r.Judges c turns := by
  obtain ⟨turns, htells, herror⟩ := hr.exists_turns c
  refine ⟨turns, htells, ?_, ?_, ?_⟩
  · intro t _ done q reply rest hasked
    have hreply := Context.reply_of_events hasked
    have hrefusal := Context.refusal?_answer t.context (t.context.stagedAfter t.staged done) q
    rw [← hreply] at hrefusal
    refine ⟨hrefusal, fun hq e he => ?_⟩
    rw [hrefusal] at he
    exact Context.isUser_of_refusal? he hq
  · intro before t after e hturns he
    exact herror before t after e hturns (Turn.error?_of_refusal he)
  · intro before t after cause hturns hrefusal hresult
    exact herror before t after _ hturns (Turn.error?_of_result hrefusal hresult)

/-- How the invocations of a splittable function decide what a call returns: one that fails ends the
call as it failed, and one that succeeds is delivered without a refusal. -/
structure JudgesInvocations [RestrictionTracker τ R P] (f : SplittableFunction μ ε ο τ R P)
    (budget : Option Budget) (stepLimit : Nat) (clock : μ → Nat → Duration)
    (r : Runner μ (ElementAndRestriction ε R) ο ρ σ) (c : Call (ElementAndRestriction ε R))
    (turns : List (Turn μ (ElementAndRestriction ε R) ο ρ σ)) : Prop where
  failed : ∀ before t after piece e memory, turns = before ++ t :: after →
    t.occasion = .element piece →
    (f.work budget stepLimit clock r.operator.config.splittable piece.value).run t.memory =
      (.error e, memory) →
        after = [] ∧ r.FailsBy c e ∧
          SplittableProcessor.FailedBy ⟨budget.getD r.operator.config.splittable, stepLimit⟩
            (clock t.memory) (f.step piece.value.element) e memory
  delivered : ∀ t ∈ turns, ∀ piece result memory, t.occasion = .element piece →
    (f.work budget stepLimit clock r.operator.config.splittable piece.value).run t.memory =
      (.ok result, memory) →
        t.refusal? r.operator.function = none ∧
          (t.outcome r.operator.function).1 = .success memory

theorem Judges.invocations [RestrictionTracker τ R P] {f : SplittableFunction μ ε ο τ R P}
    {budget : Option Budget} {stepLimit : Nat} {clock : μ → Nat → Duration}
    {r : Runner μ (ElementAndRestriction ε R) ο ρ σ} {c : Call (ElementAndRestriction ε R)}
    {turns : List (Turn μ (ElementAndRestriction ε R) ο ρ σ)} (h : r.Judges c turns)
    (hr : r.operator.function = f.toUserFunction budget stepLimit clock) :
    JudgesInvocations f budget stepLimit clock r c turns := by
  have hbudget (t : Turn μ (ElementAndRestriction ε R) ο ρ σ) (ht : t ∈ turns) :
      t.context.budget = r.operator.config.splittable := by
    rw [(h.tells.surrounds t ht).context, received_frame]
    rfl
  constructor
  · intro before t after piece e memory hturns ht hwork
    rw [← hbudget t (hturns ▸ List.mem_append_cons_self)] at hwork ⊢
    have hrefusal := SplittableFunction.refusal?_of_error ht hwork
    rw [← hr] at hrefusal
    obtain ⟨hafter, hfails⟩ := h.refused before t after e hturns hrefusal
    exact ⟨hafter, hfails, SplittableFunction.failedBy_of_work hwork⟩
  · intro t hmem piece result memory ht hwork
    have hcurrent : t.context.current = some piece.frame := by
      rw [(h.tells.surrounds t hmem).context, ht]
      rfl
    rw [← hbudget t hmem] at hwork
    rw [hr]
    exact SplittableFunction.outcome_of_ok ht hcurrent hwork

/-- Whatever a function makes of a refusal, the call fails by it, no further callback runs and
nothing takes effect; and an error that a callback returns without a refusal is returned in its
name. A splittable function is reported once, by the step that failed. -/
theorem errors_of_calls [RestrictionTracker τ R P] :
    (∀ {o : Operator μ ι ο} {reader : ρ} {store : Option σ} {memory : μ} {r : Runner μ ι ο ρ σ},
      o.runner reader store memory = .ok r → ∀ (cs : List (Call ι)) (c : Call ι),
        ∃ turns, (r.calls cs).2.Judges c turns) ∧
    ∀ (f : SplittableFunction μ ε ο τ R P) (budget : Option Budget) (stepLimit : Nat)
      (clock : μ → Nat → Duration) {o : Operator μ (ElementAndRestriction ε R) ο} {reader : ρ}
      {store : Option σ} {memory : μ} {r : Runner μ (ElementAndRestriction ε R) ο ρ σ},
      o.function = f.toUserFunction budget stepLimit clock →
      o.runner reader store memory = .ok r → ∀ cs c,
        ∃ turns, (r.calls cs).2.Judges c turns ∧
          JudgesInvocations f budget stepLimit clock (r.calls cs).2 c turns := by
  constructor
  · intro o reader store memory r hr cs c
    exact ((sound_fresh hr).calls cs).exists_judges c
  · intro f budget stepLimit clock o reader store memory r hfunction hr cs c
    have hsound := (sound_fresh hr).calls cs
    obtain ⟨turns, hjudges⟩ := hsound.exists_judges c
    refine ⟨turns, hjudges, hjudges.invocations ?_⟩
    rw [hsound.operator, hfunction]

def sloppy : Operator Unit Nat Nat where
  function := {
    processElement := fun e m => .ask (.outputTo "nowhere" e.value) fun _ => .done (.success m) }

def sloppyStart : Runner Unit Nat Nat NoSideInputs Cells where
  operator := sloppy
  outputs := ⟨"main", []⟩
  reader := ⟨⟩
  pushback := .empty
  watermark := .start false
  schedule := .empty
  store := none
  lifecycle := .created
  memory := ()

def broken : SplittableFunction Unit Unit Nat OffsetTracker OffsetRange UInt64 where
  newTracker _ range := .start range
  step _ _ := .done (.error "broken", ())

theorem run_broken (budget : Budget) (x : ElementAndRestriction Unit OffsetRange) (memory : Unit) :
    (broken.work none 1 (fun _ _ => .zero) budget x).run memory =
      (.error (.user .processRestriction "broken"), ()) := by
  show ((broken.trackerOf x.restriction) >>= _).run memory = _
  rw [Session.run_bind]
  show (SplittableProcessor.steps _ _ _ _ _ _ >>= _).run memory = _
  rw [Session.run_bind, SplittableProcessor.steps, Session.run_bind]
  rfl

def brokenStart : Runner Unit (ElementAndRestriction Unit OffsetRange) Nat NoSideInputs Cells :=
  { sloppyStart with operator := { function := broken.toUserFunction none 1 }, pushback := .empty }

theorem sloppy_and_broken_fail :
    sloppyStart.FailsBy (.bundle [.inGlobalWindow 1 ⟨10⟩]) (.internal (.unboundOutputTag "nowhere")) ∧
      brokenStart.FailsBy (.bundle [.inGlobalWindow ⟨(), ⟨0, 5⟩⟩ ⟨10⟩])
        (.user .processRestriction "broken") := by
  have hsloppy : sloppy.runner NoSideInputs.mk none () = .ok sloppyStart := by rfl
  have hbroken : brokenStart.operator.runner NoSideInputs.mk none () = .ok brokenStart := by rfl
  obtain ⟨turns, hjudges⟩ := (errors_of_calls (ε := Unit) (τ := OffsetTracker) (R := OffsetRange)
    (P := UInt64)).1 hsloppy [] (.bundle [.inGlobalWindow 1 ⟨10⟩])
  obtain ⟨turns', hjudges', hinvocations⟩ := (errors_of_calls (ι := Nat)).2 broken none 1
    (fun _ _ => .zero) rfl hbroken [] (.bundle [.inGlobalWindow ⟨(), ⟨0, 5⟩⟩ ⟨10⟩])
  constructor
  · have hevents : .asked (.outputTo "nowhere" 1)
        (.error (.internal (.unboundOutputTag "nowhere"))) ∈
          sloppyStart.events (.bundle [.inGlobalWindow 1 ⟨10⟩]) :=
      List.mem_of_getElem? (i := 5) (by rfl)
    obtain ⟨t, ht, hasked⟩ := hjudges.tells.exists_of_asked hevents
    obtain ⟨before, after, hturns⟩ := List.append_of_mem ht
    have hrefused : (t.refusal? sloppy.function).isSome :=
      List.findSome?_isSome_iff.2 ⟨_, hasked, rfl⟩
    obtain ⟨e, he⟩ := Option.isSome_iff_exists.1 hrefused
    have hfails := (hjudges.refused before t after e hturns he).2
    have hresult : (sloppyStart.call (.bundle [.inGlobalWindow 1 ⟨10⟩])).1 =
        .error (.internal (.unboundOutputTag "nowhere")) := by rfl
    have he : e = .internal (.unboundOutputTag "nowhere") :=
      Except.error.inj (hfails.result.symm.trans hresult)
    exact he ▸ hfails
  · have hhanded : Event.handed (brokenStart.events (.bundle [.inGlobalWindow ⟨(), ⟨0, 5⟩⟩ ⟨10⟩])) =
        [.inGlobalWindow ⟨(), ⟨0, 5⟩⟩ ⟨10⟩] := by
      decide +kernel
    have hpiece : .inGlobalWindow ⟨(), ⟨0, 5⟩⟩ ⟨10⟩ ∈
        Event.handed (brokenStart.events (.bundle [.inGlobalWindow ⟨(), ⟨0, 5⟩⟩ ⟨10⟩])) := by
      rw [hhanded]
      exact List.mem_singleton_self _
    obtain ⟨t, ht, hoccasion⟩ := hjudges'.tells.mem_handed_iff.1 hpiece
    obtain ⟨before, after, hturns⟩ := List.append_of_mem ht
    exact (hinvocations.failed before t after _ _ () hturns hoccasion
      (run_broken _ _ _)).2.1

end Runner

end StreamOperator
